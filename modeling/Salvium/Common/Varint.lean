import Mathlib
import Salvium.Lib.Varint

/-!
# Salvium — `tools::read_varint` and `tools::write_varint`

`common/varint.h` writes an unsigned integer in groups of seven bits, low group first, with the
high bit set on every byte but the last (`Varint.encode`), and reads it back with three
outcomes: a zero byte after the first (`EVARINT_REPRESENT`) and a group past the type's width
(`EVARINT_OVERFLOW`) fail, and running out of bytes returns the bytes read so far as a success.

The reader reads the writer back for every value of the type, and refuses the writer's bytes
for every larger value (`read_varint_write_varint`, `read_varint_write_varint_overflow`). The
last outcome makes it accept more than the writer writes: a sequence that ends on a
continuation byte reads as the groups before it, so `[0x80]` reads as `0`, whose bytes are
`[0x00]` (`read_varint_accepts_truncated`).
-/

namespace Salvium

/-- `tools::write_varint(dest, i)`: the groups of `Varint.encode`. -/
def write_varint (i : ℕ) : List UInt8 := Varint.encode i

/-! ## `tools::read_varint` -/

/-- `tools::EVARINT_OVERFLOW`. -/
def EVARINT_OVERFLOW : ℤ := -1

/-- `tools::EVARINT_REPRESENT`. -/
def EVARINT_REPRESENT : ℤ := -2

/-- The loop of `tools::read_varint<bits>` from the group at `shift` on, `read` bytes read and
`write` the value so far. It returns the source's result (the bytes read, or an error code), the
value and the bytes after the last one read. The groups never overlap, so the source's `|=` is
an addition here. -/
def read_varint_loop (bits : ℕ) : ℕ → ℤ → ℕ → List UInt8 → ℤ × ℕ × List UInt8
  | _, read, write, [] => (read, write, [])
  | shift, read, write, byte :: rest =>
    if shift + 7 ≥ bits ∧ byte.toNat ≥ 2 ^ (bits - shift) then (EVARINT_OVERFLOW, write, rest)
    else if byte = 0 ∧ shift ≠ 0 then (EVARINT_REPRESENT, write, rest)
    else
      let write := write + byte.toNat % 0x80 * 2 ^ shift
      if byte.toNat < 0x80 then (read + 1, write, rest)
      else read_varint_loop bits (shift + 7) (read + 1) write rest

/-- `tools::read_varint<bits>(first, last, write)`. -/
def read_varint (bits : ℕ) (bytes : List UInt8) : ℤ × ℕ × List UInt8 :=
  read_varint_loop bits 0 0 0 bytes

/-- Adding the next group of seven bits: the low group at `shift`, the rest from `shift + 7`. -/
theorem mod_mul_add_div_mul (n shift : ℕ) :
    n % 0x80 * 2 ^ shift + n / 0x80 * 2 ^ (shift + 7) = n * 2 ^ shift := by
  have hsplit := Nat.mod_add_div n 0x80
  calc n % 0x80 * 2 ^ shift + n / 0x80 * 2 ^ (shift + 7)
      = (n % 0x80 + 0x80 * (n / 0x80)) * 2 ^ shift := by rw [pow_add]; ring
    _ = n * 2 ^ shift := by rw [hsplit]

/-- A group that fits below `2 ^ bits` at `shift` is below `2 ^ (bits - shift)`. -/
theorem lt_two_pow_sub_of_mul_lt {n shift bits : ℕ} (hfit : n * 2 ^ shift < 2 ^ bits) :
    n < 2 ^ (bits - shift) := by
  by_contra hge
  have hle : 2 ^ bits ≤ 2 ^ (bits - shift) * 2 ^ shift := by
    rw [← pow_add]
    exact Nat.pow_le_pow_right (by norm_num) (by omega)
  have := Nat.mul_le_mul_right (2 ^ shift) (Nat.le_of_not_lt hge)
  omega

/-- **The reader reads the writer.** From group `shift` on, the loop reads `Varint.encode n` as
`n` placed at `shift`, stopping right after it. The value must fit the type, and a value of
zero is only written in the first group (a later zero byte is `EVARINT_REPRESENT`). -/
theorem read_varint_loop_encode {bits : ℕ} (n : ℕ) {shift : ℕ} {read : ℤ} {write : ℕ}
    (rest : List UInt8) (hfit : n * 2 ^ shift < 2 ^ bits) (hzero : shift = 0 ∨ 0 < n) :
    read_varint_loop bits shift read write (Varint.encode n ++ rest) =
      (read + (Varint.encode n).length, write + n * 2 ^ shift, rest) := by
  induction n using Nat.strong_induction_on generalizing shift read write with
  | _ n ih =>
    have hnot_over : ¬n ≥ 2 ^ (bits - shift) := Nat.not_le.mpr (lt_two_pow_sub_of_mul_lt hfit)
    by_cases hn : n < 0x80
    · -- one byte, the last group
      have hbyte : (UInt8.ofNat n).toNat = n := by
        rw [UInt8.toNat_ofNat']; exact Nat.mod_eq_of_lt (by omega)
      have hne : ¬(UInt8.ofNat n = 0 ∧ shift ≠ 0) := by
        rintro ⟨h0, hs⟩
        have : n = 0 := by rw [← hbyte, h0]; rfl
        omega
      rw [Varint.encode_of_lt hn, List.singleton_append, read_varint_loop, hbyte,
        if_neg (fun h => hnot_over h.2), if_neg hne, if_pos hn, Nat.mod_eq_of_lt hn]
      simp
    · -- a continuation byte, then the rest of `n` from the next group on
      have hge : 0x80 ≤ n := by omega
      have hbyte : (UInt8.ofNat (n % 0x80 + 0x80)).toNat = n % 0x80 + 0x80 := by
        rw [UInt8.toNat_ofNat']; exact Nat.mod_eq_of_lt (by omega)
      have hnext : shift + 7 < bits := by
        have h128 : 2 ^ 7 * 2 ^ shift ≤ n * 2 ^ shift := Nat.mul_le_mul_right _ hge
        have : 2 ^ (shift + 7) < 2 ^ bits := by rw [pow_add, mul_comm]; omega
        exact (Nat.pow_lt_pow_iff_right (by norm_num)).mp this
      have hne : ¬(UInt8.ofNat (n % 0x80 + 0x80) = 0 ∧ shift ≠ 0) := by
        rintro ⟨h0, -⟩
        have := congrArg UInt8.toNat h0
        rw [hbyte] at this
        simp at this
      have hfit' : n / 0x80 * 2 ^ (shift + 7) < 2 ^ bits := by
        have := mod_mul_add_div_mul n shift
        omega
      rw [Varint.encode_of_le hge, List.cons_append, read_varint_loop, hbyte,
        if_neg (fun h => by omega), if_neg hne, if_neg (by omega),
        ih (n / 0x80) (by omega) hfit' (Or.inr (by omega)), Nat.add_mod_right,
        Nat.mod_mod, List.length_cons]
      have := mod_mul_add_div_mul n shift
      simp only [Prod.mk.injEq, and_true]
      constructor
      · push_cast; ring
      · omega

/-- `read_varint` reads every value of the type back from its encoding. -/
theorem read_varint_encode {bits n : ℕ} (hn : n < 2 ^ bits) (rest : List UInt8) :
    read_varint bits (Varint.encode n ++ rest) = (((Varint.encode n).length : ℤ), n, rest) := by
  have h := @read_varint_loop_encode bits n 0 0 0 rest
    (by rw [pow_zero, mul_one]; exact hn) (Or.inl rfl)
  rw [read_varint, h, zero_add, zero_add, pow_zero, mul_one]

/-- **A continued varint that does not run out is large.** From a group `shift > 0` on, with
enough bytes that the type's width is reached before they end, a successful read ends on a
non-zero byte, so it adds at least `2 ^ shift`, and it reads at least one byte. -/
theorem read_varint_loop_ge {bits : ℕ} :
    ∀ (bytes : List UInt8) {shift : ℕ} {read : ℤ} {write : ℕ}, 0 < shift → shift < bits →
      bits ≤ shift + 7 * bytes.length → 0 ≤ (read_varint_loop bits shift read write bytes).1 →
      write + 2 ^ shift ≤ (read_varint_loop bits shift read write bytes).2.1 ∧
        (read_varint_loop bits shift read write bytes).2.2.length < bytes.length
  | [], _, _, _, _, hbits, hlen, _ => by simp at hlen; omega
  | byte :: rest, shift, read, write, hpos, hbits, hlen, hok => by
    rw [read_varint_loop] at hok ⊢
    split_ifs at hok ⊢ with hover hrep hlast <;> dsimp only at hok ⊢
    · simp [EVARINT_OVERFLOW] at hok
    · simp [EVARINT_REPRESENT] at hok
    · -- the last byte: not zero, since a zero continuation byte is rejected
      have hb0 : byte.toNat ≠ 0 := fun h => hrep ⟨UInt8.toNat_inj.mp h, by omega⟩
      have hmod : byte.toNat % 0x80 = byte.toNat := Nat.mod_eq_of_lt hlast
      refine ⟨?_, by simp⟩
      rw [hmod]
      have := Nat.mul_le_mul_right (2 ^ shift) (Nat.one_le_iff_ne_zero.mpr hb0)
      omega
    · -- a continuation byte: the width is not reached yet, so the next group is read
      have hnext : shift + 7 < bits := by
        by_contra hge
        have hsmall : 2 ^ (bits - shift) ≤ 2 ^ 7 := Nat.pow_le_pow_right (by norm_num) (by omega)
        exact hover ⟨by omega, by omega⟩
      have ih := @read_varint_loop_ge bits rest (shift + 7) (read + 1)
        (write + byte.toNat % 0x80 * 2 ^ shift) (by omega) hnext
        (by simp only [List.length_cons] at hlen; omega) hok
      have hpow : 2 ^ shift ≤ 2 ^ (shift + 7) := Nat.pow_le_pow_right (by norm_num) (by omega)
      refine ⟨by omega, ?_⟩
      simp only [List.length_cons]
      omega

/-- A varint whose first byte is a continuation byte, read from enough bytes, is at least that
byte and leaves fewer bytes than followed it. -/
theorem le_read_varint_of_continued {bits : ℕ} {b : UInt8} {bytes : List UInt8}
    (hb : 0x80 ≤ b.toNat) (hbits : 7 < bits) (hlen : bits ≤ 7 + 7 * bytes.length)
    (hok : 0 ≤ (read_varint bits (b :: bytes)).1) :
    b.toNat ≤ (read_varint bits (b :: bytes)).2.1 ∧
      (read_varint bits (b :: bytes)).2.2.length < bytes.length := by
  have hover : ¬(0 + 7 ≥ bits ∧ b.toNat ≥ 2 ^ (bits - 0)) := fun h => by omega
  have hrep : ¬(b = 0 ∧ (0 : ℕ) ≠ 0) := fun h => h.2 rfl
  rw [read_varint, read_varint_loop, if_neg hover, if_neg hrep, if_neg (by omega)] at hok ⊢
  have h := @read_varint_loop_ge bits bytes (0 + 7) (0 + 1) (0 + b.toNat % 0x80 * 2 ^ 0)
    (by norm_num) hbits hlen hok
  have hb256 := b.toNat_lt
  refine ⟨?_, h.2⟩
  have : b.toNat % 0x80 + 0x80 = b.toNat := by omega
  simp only [pow_zero, mul_one, zero_add] at h ⊢
  omega

/-! ## Against the writer -/

/-- **The reader refuses what does not fit.** From a group `shift` below the width on, a value
of at least `2 ^ (bits - shift)` ends on a group past the width, whichever byte carries it. -/
theorem read_varint_loop_encode_overflow {bits : ℕ} (n : ℕ) {shift : ℕ} {read : ℤ} {write : ℕ}
    (rest : List UInt8) (hshift : shift < bits) (hbig : 2 ^ (bits - shift) ≤ n) :
    (read_varint_loop bits shift read write (Varint.encode n ++ rest)).1 = EVARINT_OVERFLOW := by
  induction n using Nat.strong_induction_on generalizing shift read write with
  | _ n ih =>
    by_cases hn : n < 0x80
    · -- one byte: it must be the last group of the width, and it is too large there
      have hbyte : (UInt8.ofNat n).toNat = n := by
        rw [UInt8.toNat_ofNat']; exact Nat.mod_eq_of_lt (by omega)
      have hlast : shift + 7 ≥ bits := by
        by_contra hlt
        have : 2 ^ 8 ≤ 2 ^ (bits - shift) := Nat.pow_le_pow_right (by norm_num) (by omega)
        omega
      rw [Varint.encode_of_lt hn, List.singleton_append, read_varint_loop, hbyte,
        if_pos ⟨hlast, hbig⟩]
    · have hge : 0x80 ≤ n := by omega
      have hbyte : (UInt8.ofNat (n % 0x80 + 0x80)).toNat = n % 0x80 + 0x80 := by
        rw [UInt8.toNat_ofNat']; exact Nat.mod_eq_of_lt (by omega)
      rw [Varint.encode_of_le hge, List.cons_append, read_varint_loop, hbyte]
      by_cases hlast : shift + 7 ≥ bits
      · -- a continuation byte in the last group of the width is too large
        have hsmall : 2 ^ (bits - shift) ≤ 2 ^ 7 := Nat.pow_le_pow_right (by norm_num) (by omega)
        rw [if_pos ⟨hlast, by omega⟩]
      · -- the rest of `n` is still too large from the next group on
        have hne : ¬(UInt8.ofNat (n % 0x80 + 0x80) = 0 ∧ shift ≠ 0) := by
          rintro ⟨h0, -⟩
          have := congrArg UInt8.toNat h0
          rw [hbyte] at this
          simp at this
        have hbig' : 2 ^ (bits - (shift + 7)) ≤ n / 0x80 := by
          rw [Nat.le_div_iff_mul_le (by norm_num)]
          have hsplit : 2 ^ (bits - shift) = 2 ^ (bits - (shift + 7)) * 0x80 := by
            rw [show bits - shift = bits - (shift + 7) + 7 by omega, pow_add]
            rfl
          omega
        rw [if_neg (fun h => hlast h.1), if_neg hne, if_neg (by omega)]
        exact ih (n / 0x80) (by omega) (by omega) hbig'

/-- **Round trip.** Every 64-bit value is read back from its one to ten bytes, whatever follows
them. -/
theorem read_varint_write_varint (v : UInt64) (rest : List UInt8) :
    read_varint 64 (write_varint v.toNat ++ rest) =
        (((write_varint v.toNat).length : ℤ), v.toNat, rest) ∧
      1 ≤ (write_varint v.toNat).length ∧ (write_varint v.toNat).length ≤ 10 := by
  have hv := v.toNat_lt
  refine ⟨read_varint_encode hv rest, ?_, ?_⟩
  · exact List.length_pos_iff.mpr (Varint.encode_ne_nil _)
  · exact Varint.length_encode_le (lt_of_lt_of_le hv (by norm_num))

/-- The bytes of a value of `2 ^ 64` or more read as `EVARINT_OVERFLOW` into 64 bits. -/
theorem read_varint_write_varint_overflow {v : ℕ} (hv : 2 ^ 64 ≤ v) (rest : List UInt8) :
    (read_varint 64 (write_varint v ++ rest)).1 = EVARINT_OVERFLOW :=
  read_varint_loop_encode_overflow v rest (by norm_num) hv

/-- **Accepted reads are canonical or truncated.** A read that succeeds either read exactly the
writer's bytes of the groups it found (a later group being non-zero), or ran out of bytes with
every byte read a continuation byte. -/
theorem read_varint_loop_canonical {bits : ℕ} :
    ∀ (bytes : List UInt8) {shift : ℕ} {read : ℤ} {write : ℕ},
      0 ≤ (read_varint_loop bits shift read write bytes).1 →
      (∃ m k, bytes.take k = Varint.encode m ∧
          (read_varint_loop bits shift read write bytes).2.2 = bytes.drop k ∧
          (read_varint_loop bits shift read write bytes).1 = read + k ∧
          (read_varint_loop bits shift read write bytes).2.1 = write + m * 2 ^ shift ∧
          (shift = 0 ∨ 0 < m)) ∨
        ((read_varint_loop bits shift read write bytes).2.2 = [] ∧
          (read_varint_loop bits shift read write bytes).1 = read + bytes.length ∧
          ∀ b ∈ bytes, 0x80 ≤ b.toNat)
  | [], _, _, _, _ => Or.inr ⟨rfl, by simp [read_varint_loop], by simp⟩
  | byte :: rest, shift, read, write, hok => by
    rw [read_varint_loop] at hok ⊢
    split_ifs at hok ⊢ with hover hrep hlast <;> dsimp only at hok ⊢
    · simp [EVARINT_OVERFLOW] at hok
    · simp [EVARINT_REPRESENT] at hok
    · -- the last byte: the writer's one byte for its group
      left
      refine ⟨byte.toNat, 1, ?_, rfl, rfl, by rw [Nat.mod_eq_of_lt hlast], ?_⟩
      · rw [List.take_succ_cons, List.take_zero, Varint.encode_of_lt hlast, UInt8.ofNat_toNat]
      · by_cases hs : shift = 0
        · exact Or.inl hs
        · exact Or.inr (Nat.pos_of_ne_zero fun h => hrep ⟨UInt8.toNat_inj.mp h, hs⟩)
    · -- a continuation byte, in front of what the rest of the bytes read as
      have hge : 0x80 ≤ byte.toNat := by omega
      have h256 : byte.toNat < 0x100 := byte.toNat_lt
      rcases read_varint_loop_canonical rest hok with ⟨m, k, htake, hrest, hcode, hval, hm⟩ |
          ⟨hrest, hcode, hcont⟩
      · left
        have hm : 0 < m := hm.resolve_left (by omega)
        have hbyte : UInt8.ofNat (byte.toNat % 0x80 + 0x80) = byte := by
          rw [show byte.toNat % 0x80 + 0x80 = byte.toNat by omega, UInt8.ofNat_toNat]
        refine ⟨byte.toNat % 0x80 + 0x80 * m, k + 1, ?_, ?_, ?_, ?_, Or.inr (by omega)⟩
        · rw [Varint.encode_of_le (show 0x80 ≤ byte.toNat % 0x80 + 0x80 * m by omega),
            List.take_succ_cons, htake]
          congr 1
          · rw [show (byte.toNat % 0x80 + 0x80 * m) % 0x80 = byte.toNat % 0x80 by omega]
            exact hbyte.symm
          · rw [show (byte.toNat % 0x80 + 0x80 * m) / 0x80 = m by omega]
        · rw [hrest, List.drop_succ_cons]
        · rw [hcode]
          push_cast
          ring
        · rw [hval, pow_add]
          ring
      · right
        refine ⟨hrest, ?_, ?_⟩
        · rw [hcode, List.length_cons]
          push_cast
          ring
        · intro b hb
          rcases List.mem_cons.mp hb with rfl | hb
          · exact hge
          · exact hcont b hb

/-- A lone continuation byte: the loop runs out of bytes with the value read so far. -/
theorem read_varint_continuation_byte : read_varint 64 [0x80] = (1, 0, []) := by
  decide

/-- **A truncated varint is accepted.** The single byte `0x80` reads as one byte of value `0`,
while the writer's byte for `0` is `0x00`. -/
theorem read_varint_accepts_truncated :
    read_varint 64 [0x80] = (1, 0, []) ∧ [(0x80 : UInt8)].take 1 ≠ write_varint 0 := by
  refine ⟨read_varint_continuation_byte, ?_⟩
  rw [write_varint, Varint.encode_of_lt (by norm_num)]
  decide

/-- The bytes after a read are a suffix of the bytes read from. -/
theorem length_read_varint_loop (bits : ℕ) :
    ∀ (bytes : List UInt8) (shift : ℕ) (read : ℤ) (write : ℕ),
      (read_varint_loop bits shift read write bytes).2.2.length ≤ bytes.length
  | [], _, _, _ => le_refl _
  | byte :: rest, shift, read, write => by
    rw [read_varint_loop]
    split_ifs
    · exact Nat.le_succ _
    · exact Nat.le_succ _
    · exact Nat.le_succ _
    · exact (length_read_varint_loop bits rest _ _ _).trans (Nat.le_succ _)

end Salvium
