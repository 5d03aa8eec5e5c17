import Mathlib
import Salvium.Difficulty
import Salvium.Lib.Radix

/-!
# Salvium — base58 (`common/base58.cpp`)

Addresses are printed in Monero's base58: the data is cut into blocks of eight bytes and a
last partial block, and each block, read as a big-endian number, is written as a fixed number
of base-58 digits (`encoded_block_sizes`: eleven for a full block, fewer for a partial one),
most significant first and padded with the zero digit `1`. The decoder accepts only the
lengths that table produces, only alphabet characters, and only block values that fit the
decoded size; its overflow checks run in 64-bit words (`mul128` and a wrapped addition).

Strings are byte strings here, as `std::string` is.

`base58_bijection` proves that the codec is a bijection between byte strings and the strings
the decoder accepts: decoding an encoding gives the data back, the encoding has the length
the table gives, and re-encoding what the decoder accepted gives back the same characters.
Both directions reduce to one block: `decode_block_loop_eq` says what the decoder's digit loop
computes, and `Radix` supplies the fixed-width round trips in bases 256 and 58.
-/

namespace Salvium

namespace Base58

/-! ## The tables -/

/-- `alphabet`, as the bytes of its characters. -/
def alphabet : List UInt8 :=
  "123456789ABCDEFGHJKLMNPQRSTUVWXYZabcdefghijkmnopqrstuvwxyz".toList.map Char.toUInt8

def alphabet_size : ℕ := 58
def encoded_block_sizes : List ℕ := [0, 2, 3, 5, 6, 7, 9, 10, 11]
def full_block_size : ℕ := 8
def full_encoded_block_size : ℕ := 11

/-- `reverse_alphabet`: the digit a character stands for. The source's table holds `-1`
(here `none`) for every other byte. -/
def reverse_alphabet (letter : UInt8) : Option ℕ := alphabet.idxOf? letter

/-- `decoded_block_sizes`: the size of the block whose encoding has `encoded_block_size`
characters; `none` is the table's `-1`. -/
def decoded_block_sizes (encoded_block_size : ℕ) : Option ℕ :=
  encoded_block_sizes.idxOf? encoded_block_size

/-- `uint_8be_to_64`: the bytes as a big-endian number. -/
def uint_8be_to_64 (data : List UInt8) : UInt64 :=
  UInt64.ofNat (Nat.ofDigits 256 (data.reverse.map UInt8.toNat))

/-- `uint_64_to_8be`: the low `size` bytes of `num`, big-endian. -/
def uint_64_to_8be (num : UInt64) (size : ℕ) : List UInt8 :=
  ((Radix.digitsLE 256 size num.toNat).map Nat.toUInt8).reverse

/-! ## Blocks -/

/-- The digit loop of `encode_block`: while `num` is positive, its last base-58 digit is written
at position `i` of the block's characters and `i` moves one to the left. -/
def encode_block_loop (num : UInt64) (i : ℕ) (res : List UInt8) : List UInt8 :=
  if 0 < num then
    encode_block_loop (num / 58) (i - 1) (res.set i (alphabet.getD (num % 58).toNat 0))
  else res
termination_by num.toNat
decreasing_by
  rename_i hpos
  rw [UInt64.lt_iff_toNat_lt, UInt64.toNat_zero] at hpos
  have h58 : (58 : UInt64).toNat = 58 := rfl
  rw [UInt64.toNat_div, h58]
  omega

/-- `encode_block`: the block's characters, which start as the zero digit `1`. -/
def encode_block (block : List UInt8) : List UInt8 :=
  let size := encoded_block_sizes.getD block.length 0
  encode_block_loop (uint_8be_to_64 block) (size - 1) (List.replicate size (alphabet.getD 0 0))

/-- The digit loop of `decode_block`, over the characters from the last: each digit is added at
its order, and a product or a sum that leaves 64 bits is an overflow. -/
def decode_block_loop : List UInt8 → UInt64 → UInt64 → Option UInt64
  | [], res_num, _ => some res_num
  | letter :: letters, res_num, order =>
    match reverse_alphabet letter with
    | none => none
    | some digit =>
      let (product_lo, product_hi) := mul128 order (UInt64.ofNat digit)
      let tmp := res_num + product_lo
      if tmp < res_num ∨ product_hi ≠ 0 then none
      else decode_block_loop letters tmp (order * 58)

/-- `decode_block`: the block's bytes, or `none` for a length no block encodes to, a character
outside the alphabet, or a value too large for the block. -/
def decode_block (block : List UInt8) : Option (List UInt8) :=
  match decoded_block_sizes block.length with
  | none => none
  | some res_size =>
    if res_size = 0 then none
    else
      match decode_block_loop block.reverse 0 1 with
      | none => none
      | some res_num =>
        if res_size < full_block_size ∧ (1 : UInt64) <<< (8 * res_size).toUInt64 ≤ res_num then
          none
        else some (uint_64_to_8be res_num res_size)

/-! ## Strings -/

/-- The loop over the full blocks of `encode`. -/
def encode_full_blocks : ℕ → List UInt8 → List UInt8
  | 0, _ => []
  | n + 1, data =>
    encode_block (data.take full_block_size) ++ encode_full_blocks n (data.drop full_block_size)

def encode (data : List UInt8) : List UInt8 :=
  if data.isEmpty then []
  else
    let full_block_count := data.length / full_block_size
    let last_block_size := data.length % full_block_size
    encode_full_blocks full_block_count data ++
      if 0 < last_block_size then encode_block (data.drop (full_block_count * full_block_size))
      else []

/-- The loop over the full blocks of `decode`. -/
def decode_full_blocks : ℕ → List UInt8 → Option (List UInt8)
  | 0, _ => some []
  | n + 1, enc => do
    let block ← decode_block (enc.take full_encoded_block_size)
    let rest ← decode_full_blocks n (enc.drop full_encoded_block_size)
    pure (block ++ rest)

def decode (enc : List UInt8) : Option (List UInt8) :=
  if enc.isEmpty then some []
  else
    let full_block_count := enc.length / full_encoded_block_size
    let last_block_size := enc.length % full_encoded_block_size
    match decoded_block_sizes last_block_size with
    | none => none
    | some _ => do
      let full ← decode_full_blocks full_block_count enc
      let last ← if 0 < last_block_size then
          decode_block (enc.drop (full_block_count * full_encoded_block_size))
        else pure []
      pure (full ++ last)

/-! ## The tables, evaluated -/

theorem alphabet_eq : alphabet = [49, 50, 51, 52, 53, 54, 55, 56, 57, 65, 66, 67, 68, 69, 70, 71,
    72, 74, 75, 76, 77, 78, 80, 81, 82, 83, 84, 85, 86, 87, 88, 89, 90, 97, 98, 99, 100, 101, 102,
    103, 104, 105, 106, 107, 109, 110, 111, 112, 113, 114, 115, 116, 117, 118, 119, 120, 121,
    122] := by
  decide +kernel

theorem length_alphabet : alphabet.length = 58 := by
  rw [alphabet_eq]
  rfl

/-- Every digit's character reads back as that digit: the alphabet has no repeated character. -/
theorem reverse_alphabet_getD : ∀ d < 58, reverse_alphabet (alphabet.getD d 0) = some d := by
  simp only [reverse_alphabet, alphabet_eq]
  decide

theorem getD_of_reverse_alphabet {letter : UInt8} {d : ℕ} (h : reverse_alphabet letter = some d) :
    d < 58 ∧ alphabet.getD d 0 = letter := by
  obtain ⟨hd, hget, -⟩ := List.idxOf?_eq_some_iff.mp h
  refine ⟨length_alphabet ▸ hd, ?_⟩
  rw [List.getD_eq_getElem _ _ hd, hget]

theorem mapM_reverse_alphabet_map {ds : List ℕ} (h : ∀ d ∈ ds, d < 58) :
    (ds.map (alphabet.getD · 0)).mapM reverse_alphabet = some ds := by
  induction ds with
  | nil => rfl
  | cons d ds ih =>
    have hd : reverse_alphabet (alphabet.getD d 0) = some d :=
      reverse_alphabet_getD d (h d List.mem_cons_self)
    rw [List.map_cons, List.mapM_cons, hd, ih fun x hx => h x (List.mem_cons_of_mem d hx)]
    rfl

/-- Characters that all read as digits are the characters of those digits. -/
theorem map_of_mapM_reverse_alphabet {letters : List UInt8} {ds : List ℕ}
    (h : letters.mapM reverse_alphabet = some ds) :
    (∀ d ∈ ds, d < 58) ∧ ds.map (alphabet.getD · 0) = letters := by
  induction letters generalizing ds with
  | nil =>
    cases h
    simp
  | cons letter letters ih =>
    rw [List.mapM_cons] at h
    cases hd : reverse_alphabet letter with
    | none => simp [hd] at h
    | some d =>
      cases hrest : letters.mapM reverse_alphabet with
      | none => simp [hd, hrest] at h
      | some rest =>
        simp only [hd, hrest, Option.pure_def, Option.bind_eq_bind, Option.bind_some,
          Option.some.injEq] at h
        subst h
        obtain ⟨hlt, hget⟩ := getD_of_reverse_alphabet hd
        obtain ⟨ih1, ih2⟩ := ih hrest
        refine ⟨?_, by rw [List.map_cons, hget, ih2]⟩
        intro x hx
        rcases List.mem_cons.mp hx with rfl | hx
        · exact hlt
        · exact ih1 x hx

theorem full_block_size_eq : full_block_size = 8 := rfl

theorem full_encoded_block_size_eq : full_encoded_block_size = 11 := rfl

theorem decoded_block_sizes_getD :
    ∀ k < 9, decoded_block_sizes (encoded_block_sizes.getD k 0) = some k := by
  decide

theorem getD_of_decoded_block_sizes {m k : ℕ} (h : decoded_block_sizes m = some k) :
    k < 9 ∧ encoded_block_sizes.getD k 0 = m := by
  obtain ⟨hk, hget, -⟩ := List.idxOf?_eq_some_iff.mp h
  exact ⟨hk, by rw [List.getD_eq_getElem _ _ hk, hget]⟩

/-- The characters of a block of `k` bytes hold every value of `k` bytes. -/
theorem pow_le_encoded_block_sizes : ∀ k < 9, 256 ^ k ≤ 58 ^ encoded_block_sizes.getD k 0 := by
  decide

/-- A block of `k` bytes takes between `k` and `k + 3` characters; in particular only the full
block takes eleven. -/
theorem encoded_block_sizes_bounds :
    ∀ k < 9, k ≤ encoded_block_sizes.getD k 0 ∧ encoded_block_sizes.getD k 0 ≤ k + 3 := by
  decide

/-! ## Bytes and their values -/

theorem uint_8be_to_64_lt (data : List UInt8) :
    Nat.ofDigits 256 (data.reverse.map UInt8.toNat) < 256 ^ data.length := by
  have h := Nat.ofDigits_lt_base_pow_length (b := 256) (l := data.reverse.map UInt8.toNat)
    (by norm_num) (by simpa using fun a _ => a.toNat_lt)
  rwa [List.length_map, List.length_reverse] at h

/-- At most eight bytes fit the 64-bit word `uint_8be_to_64` builds. -/
theorem toNat_uint_8be_to_64 {data : List UInt8} (h : data.length ≤ 8) :
    (uint_8be_to_64 data).toNat = Nat.ofDigits 256 (data.reverse.map UInt8.toNat) := by
  apply UInt64.toNat_ofNat_of_lt'
  calc _ < 256 ^ data.length := uint_8be_to_64_lt data
    _ ≤ 256 ^ 8 := Nat.pow_le_pow_right (by norm_num) h
    _ = UInt64.size := rfl

@[simp] theorem length_uint_64_to_8be (num : UInt64) (size : ℕ) :
    (uint_64_to_8be num size).length = size := by
  simp [uint_64_to_8be]

theorem uint_64_to_8be_uint_8be_to_64 {data : List UInt8} (h : data.length ≤ 8) :
    uint_64_to_8be (uint_8be_to_64 data) data.length = data := by
  have hdigits : ∀ d ∈ data.reverse.map UInt8.toNat, d < 256 := by
    simpa using fun a _ => a.toNat_lt
  have hlen : data.length = (data.reverse.map UInt8.toNat).length := by simp
  rw [uint_64_to_8be, toNat_uint_8be_to_64 h, hlen, Radix.digitsLE_ofDigits hdigits, List.map_map]
  simp [Function.comp_def, UInt8.ofNat_toNat]

theorem uint_8be_to_64_uint_64_to_8be {num : UInt64} {size : ℕ} (h : num.toNat < 256 ^ size) :
    uint_8be_to_64 (uint_64_to_8be num size) = num := by
  have hdigits : ∀ d ∈ Radix.digitsLE 256 size num.toNat, d < 256 := fun d hd =>
    Radix.digitsLE_lt (by norm_num) hd
  have hback : (Radix.digitsLE 256 size num.toNat).map (UInt8.toNat ∘ Nat.toUInt8) =
      Radix.digitsLE 256 size num.toNat := by
    conv_rhs => rw [← List.map_id (Radix.digitsLE 256 size num.toNat)]
    apply List.map_congr_left
    intro d hd
    rw [Function.comp_apply, Nat.toUInt8_eq, id]
    exact UInt8.toNat_ofNat_of_lt' (hdigits d hd)
  rw [uint_8be_to_64, uint_64_to_8be, List.reverse_reverse, List.map_map, hback,
    Radix.ofDigits_digitsLE_of_lt h, UInt64.ofNat_toNat]

/-! ## The encoder's digit loop -/

theorem encode_block_loop_zero (i : ℕ) (res : List UInt8) : encode_block_loop 0 i res = res := by
  rw [encode_block_loop]
  simp

theorem encode_block_loop_pos {num : UInt64} (h : num ≠ 0) (i : ℕ) (res : List UInt8) :
    encode_block_loop num i res =
      encode_block_loop (num / 58) (i - 1) (res.set i (alphabet.getD (num.toNat % 58) 0)) := by
  rw [encode_block_loop, if_pos (UInt64.pos_iff_ne_zero.mpr h), UInt64.toNat_mod]
  rfl

theorem set_replicate_append {α : Type} (i : ℕ) (a x : α) (suffix : List α) :
    (List.replicate (i + 1) a ++ suffix).set i x = List.replicate i a ++ x :: suffix := by
  rw [List.replicate_succ', List.append_assoc, List.singleton_append,
    List.set_append_right _ _ (by simp), List.length_replicate, Nat.sub_self, List.set_cons_zero]

/-- The digit loop writes the `w` base-58 digits of `num` over `w` zero characters, most
significant first, provided `num` has no more than `w` digits. -/
theorem encode_block_loop_eq (w : ℕ) (num : UInt64) (suffix : List UInt8)
    (h : num.toNat < 58 ^ w) :
    encode_block_loop num (w - 1) (List.replicate w (alphabet.getD 0 0) ++ suffix) =
      ((Radix.digitsLE 58 w num.toNat).map (alphabet.getD · 0)).reverse ++ suffix := by
  induction w generalizing num suffix with
  | zero =>
    have h0 : num = 0 := by
      rw [pow_zero, Nat.lt_one_iff, ← UInt64.toNat_zero] at h
      exact UInt64.toNat_inj.mp h
    rw [h0, encode_block_loop_zero]
    rfl
  | succ w ih =>
    by_cases h0 : num = 0
    · rw [h0, encode_block_loop_zero, UInt64.toNat_zero, Radix.digitsLE_zero_eq,
        List.map_replicate, List.reverse_replicate]
    · have hdiv : (num / 58).toNat = num.toNat / 58 := by
        rw [UInt64.toNat_div]
        rfl
      have hlt : (num / 58).toNat < 58 ^ w := by
        rw [hdiv, Nat.div_lt_iff_lt_mul (by norm_num), ← pow_succ]
        exact h
      rw [encode_block_loop_pos h0, Nat.add_sub_cancel, set_replicate_append, ih _ _ hlt, hdiv,
        Radix.digitsLE_succ, List.map_cons, List.reverse_cons, List.append_assoc,
        List.singleton_append]

/-- `encode_block` writes the block's value as `encoded_block_sizes[size]` base-58 digits. -/
theorem encode_block_eq {block : List UInt8} (h : block.length ≤ 8) :
    encode_block block =
      ((Radix.digitsLE 58 (encoded_block_sizes.getD block.length 0)
        (uint_8be_to_64 block).toNat).map (alphabet.getD · 0)).reverse := by
  have hfits : (uint_8be_to_64 block).toNat < 58 ^ encoded_block_sizes.getD block.length 0 := by
    rw [toNat_uint_8be_to_64 h]
    exact lt_of_lt_of_le (uint_8be_to_64_lt block)
      (pow_le_encoded_block_sizes block.length (by omega))
  have hloop := encode_block_loop_eq _ _ [] hfits
  rw [List.append_nil, List.append_nil] at hloop
  exact hloop

theorem length_encode_block {block : List UInt8} (h : block.length ≤ 8) :
    (encode_block block).length = encoded_block_sizes.getD block.length 0 := by
  rw [encode_block_eq h, List.length_reverse, List.length_map, Radix.length_digitsLE]

/-! ## The decoder's digit loop -/

/-- The overflow check of one digit: with the digit's product split as `lo` and `hi`, the wrapped
sum falls below `res_num`, or `hi` is non-zero, exactly when the exact sum leaves 64 bits. -/
theorem decode_step_overflow_iff (res_num : UInt64) {lo hi : UInt64} {p : ℕ}
    (hlo : lo.toNat = p % 2 ^ 64) (hhi : hi.toNat = p / 2 ^ 64) :
    (res_num + lo < res_num ∨ hi ≠ 0) ↔ 2 ^ 64 ≤ res_num.toNat + p := by
  have hr := res_num.toNat_lt
  rw [UInt64.lt_iff_toNat_lt, UInt64.toNat_add, hlo, ne_eq, ← UInt64.toNat_inj, hhi,
    UInt64.toNat_zero]
  omega

/-- What the decoder's digit loop computes: the characters' digits, weighted from order `58 ^ i`,
added to `res_num`, when every character is in the alphabet and the sum fits 64 bits. The order
wraps after the eleventh digit, which no block reaches. -/
theorem decode_block_loop_eq (letters : List UInt8) (res_num order : UInt64) (i : ℕ)
    (hlen : i + letters.length ≤ 11) (horder : order.toNat = 58 ^ i % 2 ^ 64) :
    decode_block_loop letters res_num order =
      (letters.mapM reverse_alphabet).bind fun ds =>
        if res_num.toNat + 58 ^ i * Nat.ofDigits 58 ds < 2 ^ 64 then
          some (UInt64.ofNat (res_num.toNat + 58 ^ i * Nat.ofDigits 58 ds))
        else none := by
  induction letters generalizing res_num order i with
  | nil =>
    simp [decode_block_loop, res_num.toNat_lt, UInt64.ofNat_toNat]
  | cons letter letters ih =>
    cases hd : reverse_alphabet letter with
    | none => simp [decode_block_loop, hd]
    | some d =>
      have hd58 := (getD_of_reverse_alphabet hd).1
      have hi : i ≤ 10 := by simp at hlen; omega
      -- below the eleventh digit the order is exact
      have hexact : order.toNat = 58 ^ i := by
        rw [horder, Nat.mod_eq_of_lt (lt_of_le_of_lt (Nat.pow_le_pow_right (by norm_num) hi)
          (by norm_num))]
      have hdigit : (UInt64.ofNat d).toNat = d :=
        UInt64.toNat_ofNat_of_lt' (lt_trans hd58 (by decide))
      obtain ⟨hlo, hhi⟩ := mul128_exact order (UInt64.ofNat d)
      rw [hexact, hdigit] at hlo hhi
      have hcheck := decode_step_overflow_iff res_num hlo hhi
      simp only [decode_block_loop, hd, List.mapM_cons, Option.pure_def, Option.bind_eq_bind,
        Option.bind_some, Option.bind_assoc]
      by_cases hover : 2 ^ 64 ≤ res_num.toNat + 58 ^ i * d
      · -- the step overflows, and so does every longer sum
        rw [if_pos (hcheck.mpr hover)]
        have hnone : ∀ ds, ¬ res_num.toNat + 58 ^ i * Nat.ofDigits 58 (d :: ds) < 2 ^ 64 := by
          intro ds
          have := Nat.mul_le_mul_left (58 ^ i) (Nat.le_add_right d (58 * Nat.ofDigits 58 ds))
          rw [Nat.ofDigits_cons]
          omega
        cases List.mapM reverse_alphabet letters with
        | none => rfl
        | some ds => exact (if_neg (hnone ds)).symm
      · -- the step is exact, and the rest of the letters are read one order higher
        rw [if_neg (mt hcheck.mp hover)]
        have hsum : (res_num + (mul128 order (UInt64.ofNat d)).1).toNat =
            res_num.toNat + 58 ^ i * d := by
          rw [UInt64.toNat_add, hlo]
          omega
        have horder' : (order * 58).toNat = 58 ^ (i + 1) % 2 ^ 64 := by
          have h58 : (58 : UInt64).toNat = 58 := rfl
          rw [UInt64.toNat_mul, hexact, h58, ← pow_succ]
        rw [ih _ _ (i + 1) (by simp at hlen ⊢; omega) horder', hsum]
        refine congrArg (Option.bind _) (funext fun ds => ?_)
        have harith : res_num.toNat + 58 ^ i * d + 58 ^ (i + 1) * Nat.ofDigits 58 ds =
            res_num.toNat + 58 ^ i * Nat.ofDigits 58 (d :: ds) := by
          rw [Nat.ofDigits_cons]
          ring
        rw [harith]

/-! ## Blocks -/

/-- The range check of `decode_block`: below a full block it compares with `2 ^ (8 * size)`; a
full block's value has already been bounded by the digit loop. -/
theorem block_value_check_iff {k V : ℕ} (hk : k < 9) (hV : V < 2 ^ 64) :
    (k < full_block_size ∧ (1 : UInt64) <<< (8 * k).toUInt64 ≤ UInt64.ofNat V) ↔
      256 ^ k ≤ V := by
  have hval : (UInt64.ofNat V).toNat = V := UInt64.toNat_ofNat_of_lt' hV
  by_cases h8 : k < 8
  · have hshift : ((1 : UInt64) <<< (8 * k).toUInt64).toNat = 256 ^ k := by
      have hw : (8 * k).toUInt64.toNat = 8 * k := by
        rw [Nat.toUInt64_eq]
        exact UInt64.toNat_ofNat_of_lt' (by rw [UInt64.size]; omega)
      have hpow : 2 ^ (8 * k) < 2 ^ 64 := Nat.pow_lt_pow_right (by norm_num) (by omega)
      rw [UInt64.toNat_shiftLeft, hw, Nat.mod_eq_of_lt (by omega : 8 * k < 64), UInt64.toNat_one,
        Nat.one_shiftLeft, Nat.mod_eq_of_lt hpow, pow_mul]
      rfl
    rw [UInt64.le_iff_toNat_le, hshift, hval]
    exact and_iff_right (by rw [full_block_size_eq]; exact h8)
  · have hk8 : k = 8 := by omega
    subst hk8
    constructor
    · rintro ⟨h, -⟩
      exact absurd h (by decide)
    · intro h
      exact absurd (lt_of_lt_of_le hV h) (by norm_num)

/-- `decode_block` accepts exactly the blocks of a length the table produces whose characters are
all in the alphabet and whose value fits the decoded size. -/
theorem decode_block_eq (block : List UInt8) :
    decode_block block =
      (decoded_block_sizes block.length).bind fun k =>
        if k = 0 then none
        else (block.reverse.mapM reverse_alphabet).bind fun ds =>
          if Nat.ofDigits 58 ds < 256 ^ k then
            some (uint_64_to_8be (UInt64.ofNat (Nat.ofDigits 58 ds)) k)
          else none := by
  unfold decode_block
  cases hk : decoded_block_sizes block.length with
  | none => rfl
  | some k =>
    obtain ⟨hk9, hm⟩ := getD_of_decoded_block_sizes hk
    have hlen : 0 + block.reverse.length ≤ 11 := by
      have := (encoded_block_sizes_bounds k hk9).2
      rw [List.length_reverse, ← hm]
      omega
    by_cases hk0 : k = 0
    · simp [hk0]
    simp only [Option.bind_some, if_neg hk0]
    rw [decode_block_loop_eq block.reverse 0 1 0 hlen (by simp)]
    cases hds : block.reverse.mapM reverse_alphabet with
    | none => rfl
    | some ds =>
      simp only [Option.bind_some, UInt64.toNat_zero, pow_zero, one_mul, zero_add]
      have hpow : 256 ^ k ≤ 2 ^ 64 := by
        calc 256 ^ k ≤ 256 ^ 8 := Nat.pow_le_pow_right (by norm_num) (by omega)
          _ = 2 ^ 64 := by norm_num
      by_cases hV : Nat.ofDigits 58 ds < 2 ^ 64
      · rw [if_pos hV]
        simp only [block_value_check_iff hk9 hV]
        by_cases hlt : Nat.ofDigits 58 ds < 256 ^ k
        · rw [if_neg (Nat.not_le.mpr hlt), if_pos hlt]
        · rw [if_pos (Nat.le_of_not_lt hlt), if_neg hlt]
      · rw [if_neg hV, if_neg (fun h => hV (lt_of_lt_of_le h hpow))]

/-- Decoding a block's encoding gives the block back. -/
theorem decode_encode_block {block : List UInt8} (h0 : block ≠ []) (h8 : block.length ≤ 8) :
    decode_block (encode_block block) = some block := by
  have hk9 : block.length < 9 := by omega
  have hk0 : block.length ≠ 0 := fun h => h0 (List.eq_nil_of_length_eq_zero h)
  have hVlt : (uint_8be_to_64 block).toNat < 256 ^ block.length := by
    rw [toNat_uint_8be_to_64 h8]
    exact uint_8be_to_64_lt block
  have hfits := lt_of_lt_of_le hVlt (pow_le_encoded_block_sizes block.length hk9)
  have hdigits : ∀ d ∈ Radix.digitsLE 58 (encoded_block_sizes.getD block.length 0)
      (uint_8be_to_64 block).toNat, d < 58 := fun d hd => Radix.digitsLE_lt (by norm_num) hd
  rw [decode_block_eq, encode_block_eq h8, List.length_reverse, List.length_map,
    Radix.length_digitsLE, decoded_block_sizes_getD block.length hk9, Option.bind_some,
    if_neg hk0, List.reverse_reverse, mapM_reverse_alphabet_map hdigits, Option.bind_some,
    Radix.ofDigits_digitsLE_of_lt hfits, if_pos hVlt, UInt64.ofNat_toNat,
    uint_64_to_8be_uint_8be_to_64 h8]

/-- What `decode_block` accepts is the encoding of what it returns. -/
theorem encode_decode_block {block data : List UInt8} (h : decode_block block = some data) :
    data ≠ [] ∧ data.length ≤ 8 ∧ encode_block data = block := by
  rw [decode_block_eq] at h
  cases hk : decoded_block_sizes block.length with
  | none => simp [hk] at h
  | some k =>
    obtain ⟨hk9, hm⟩ := getD_of_decoded_block_sizes hk
    rw [hk, Option.bind_some] at h
    by_cases hk0 : k = 0
    · simp [hk0] at h
    rw [if_neg hk0] at h
    cases hds : block.reverse.mapM reverse_alphabet with
    | none => simp [hds] at h
    | some ds =>
      rw [hds, Option.bind_some] at h
      by_cases hlt : Nat.ofDigits 58 ds < 256 ^ k
      · rw [if_pos hlt, Option.some.injEq] at h
        subst h
        obtain ⟨hds58, hmap⟩ := map_of_mapM_reverse_alphabet hds
        have hlen : ds.length = encoded_block_sizes.getD k 0 := by
          have hcount := congrArg List.length hmap
          rw [List.length_map, List.length_reverse] at hcount
          rw [hm, hcount]
        have hval : (UInt64.ofNat (Nat.ofDigits 58 ds)).toNat = Nat.ofDigits 58 ds := by
          apply UInt64.toNat_ofNat_of_lt'
          calc Nat.ofDigits 58 ds < 256 ^ k := hlt
            _ ≤ 256 ^ 8 := Nat.pow_le_pow_right (by norm_num) (by omega)
            _ = UInt64.size := rfl
        refine ⟨?_, by rw [length_uint_64_to_8be]; omega, ?_⟩
        · rw [← List.length_pos_iff, length_uint_64_to_8be]
          omega
        · rw [encode_block_eq (by rw [length_uint_64_to_8be]; omega), length_uint_64_to_8be,
            uint_8be_to_64_uint_64_to_8be (by rw [hval]; exact hlt), hval, ← hlen,
            Radix.digitsLE_ofDigits hds58, hmap, List.reverse_reverse]
      · rw [if_neg hlt] at h
        cases h

/-! ## Strings -/

theorem encoded_block_sizes_getD_inj {j k : ℕ} (hj : j < 9) (hk : k < 9)
    (h : encoded_block_sizes.getD j 0 = encoded_block_sizes.getD k 0) : j = k := by
  have hsome := decoded_block_sizes_getD j hj
  rwa [h, decoded_block_sizes_getD k hk, Option.some.injEq, eq_comm] at hsome

theorem encode_full_blocks_append {q : ℕ} {data : List UInt8} (rest : List UInt8)
    (h : 8 * q ≤ data.length) :
    encode_full_blocks q (data ++ rest) = encode_full_blocks q data := by
  induction q generalizing data with
  | zero => rfl
  | succ q ih =>
    have h8 : full_block_size ≤ data.length := by
      rw [full_block_size_eq]
      omega
    rw [encode_full_blocks, encode_full_blocks, List.take_append_of_le_length h8,
      List.drop_append_of_le_length h8,
      ih (by rw [List.length_drop, full_block_size_eq]; omega)]

theorem length_take_full_block (data : List UInt8) (h : 8 ≤ data.length) :
    (data.take full_block_size).length = 8 := by
  rw [List.length_take, full_block_size_eq]
  omega

theorem length_encode_full_blocks {q : ℕ} {data : List UInt8} (h : 8 * q ≤ data.length) :
    (encode_full_blocks q data).length = 11 * q := by
  induction q generalizing data with
  | zero => rfl
  | succ q ih =>
    have hblock := length_take_full_block data (by omega)
    have h11 : encoded_block_sizes.getD 8 0 = 11 := rfl
    rw [encode_full_blocks, List.length_append, length_encode_block (by omega), hblock, h11,
      ih (by rw [List.length_drop, full_block_size_eq]; omega)]
    ring

theorem decode_full_blocks_encode_full_blocks {q : ℕ} {data : List UInt8} (rest : List UInt8)
    (h : 8 * q ≤ data.length) :
    decode_full_blocks q (encode_full_blocks q data ++ rest) = some (data.take (8 * q)) := by
  induction q generalizing data with
  | zero => rfl
  | succ q ih =>
    have hblock := length_take_full_block data (by omega)
    have hne : data.take full_block_size ≠ [] := by
      rw [← List.length_pos_iff, hblock]
      omega
    have henc : (encode_block (data.take full_block_size)).length = full_encoded_block_size := by
      rw [length_encode_block (by omega), hblock]
      rfl
    have htake : data.take (8 * (q + 1)) =
        data.take full_block_size ++ (data.drop full_block_size).take (8 * q) := by
      rw [Nat.mul_succ, Nat.add_comm, List.take_add, full_block_size_eq]
    have hrest : decode_full_blocks q (encode_full_blocks q (data.drop full_block_size) ++ rest) =
        some ((data.drop full_block_size).take (8 * q)) :=
      ih (by rw [List.length_drop, full_block_size_eq]; omega)
    rw [encode_full_blocks, List.append_assoc, htake]
    simp only [decode_full_blocks, List.take_left' henc, List.drop_left' henc,
      decode_encode_block hne (by omega), hrest, Option.bind_eq_bind, Option.bind_some,
      Option.pure_def]

theorem encode_full_blocks_of_decode {q : ℕ} {enc data : List UInt8}
    (h : decode_full_blocks q enc = some data) (hlen : 11 * q ≤ enc.length) :
    data.length = 8 * q ∧ encode_full_blocks q data = enc.take (11 * q) := by
  induction q generalizing enc data with
  | zero =>
    cases h
    exact ⟨rfl, rfl⟩
  | succ q ih =>
    simp only [decode_full_blocks, Option.bind_eq_bind, Option.pure_def,
      Option.bind_eq_some_iff, Option.some.injEq] at h
    obtain ⟨block, hblock, rest, hrest, rfl⟩ := h
    obtain ⟨-, hb8, hbenc⟩ := encode_decode_block hblock
    have hblen : block.length = 8 := by
      have hc := congrArg List.length hbenc
      rw [length_encode_block hb8, List.length_take, full_encoded_block_size,
        Nat.min_eq_left (by omega)] at hc
      exact encoded_block_sizes_getD_inj (by omega) (by norm_num) hc
    obtain ⟨hrlen, hrenc⟩ := ih hrest (by rw [List.length_drop, full_encoded_block_size]; omega)
    refine ⟨by rw [List.length_append, hblen, hrlen]; ring, ?_⟩
    have hbfull : block.length = full_block_size := hblen
    rw [encode_full_blocks, List.take_left' hbfull, List.drop_left' hbfull, hbenc, hrenc,
      full_encoded_block_size, ← List.take_add]
    congr 1
    ring

theorem encode_eq {data : List UInt8} (h0 : data ≠ []) :
    encode data = encode_full_blocks (data.length / 8) data ++
      if 0 < data.length % 8 then encode_block (data.drop (8 * (data.length / 8))) else [] := by
  simp only [encode, List.isEmpty_iff, h0, if_false, full_block_size_eq, Nat.mul_comm]

theorem decode_eq {enc : List UInt8} (h0 : enc ≠ []) :
    decode enc = (decoded_block_sizes (enc.length % 11)).bind fun _ =>
      (decode_full_blocks (enc.length / 11) enc).bind fun full =>
        (if 0 < enc.length % 11 then decode_block (enc.drop (11 * (enc.length / 11)))
          else some []).map (full ++ ·) := by
  simp only [decode, List.isEmpty_iff, h0, if_false, full_encoded_block_size_eq, Nat.mul_comm]
  cases decoded_block_sizes (enc.length % 11) with
  | none => rfl
  | some _ =>
    cases decode_full_blocks (enc.length / 11) enc with
    | none => rfl
    | some full =>
      split_ifs
      · cases decode_block (enc.drop (11 * (enc.length / 11))) <;> rfl
      · rfl

/-- The length of an encoding: eleven characters per full block and the table's size for the
last. -/
theorem length_encode (data : List UInt8) :
    (encode data).length =
      11 * (data.length / 8) + encoded_block_sizes.getD (data.length % 8) 0 := by
  by_cases h0 : data = []
  · subst h0
    rfl
  have hdrop : (data.drop (8 * (data.length / 8))).length = data.length % 8 := by
    rw [List.length_drop]
    omega
  rw [encode_eq h0, List.length_append, length_encode_full_blocks (Nat.mul_div_le _ _)]
  split_ifs with hr
  · rw [length_encode_block (by omega), hdrop]
  · rw [List.length_nil, Nat.eq_zero_of_not_pos hr]
    rfl

/-- Decoding an encoding gives the data back. -/
theorem decode_encode (data : List UInt8) : decode (encode data) = some data := by
  by_cases h0 : data = []
  · subst h0
    rfl
  have hq : 8 * (data.length / 8) ≤ data.length := Nat.mul_div_le _ _
  have hr9 : data.length % 8 < 9 := by omega
  have hr := encoded_block_sizes_bounds (data.length % 8) hr9
  have hlen := length_encode data
  have hne : encode data ≠ [] := by
    intro h
    rw [h, List.length_nil] at hlen
    have hpos := List.length_pos_iff.mpr h0
    omega
  have hcount : (encode data).length / 11 = data.length / 8 := by omega
  have hlast : (encode data).length % 11 = encoded_block_sizes.getD (data.length % 8) 0 := by
    omega
  rw [decode_eq hne, hcount, hlast, decoded_block_sizes_getD _ hr9, Option.bind_some,
    encode_eq h0, decode_full_blocks_encode_full_blocks _ hq, Option.bind_some]
  by_cases hr0 : 0 < data.length % 8
  · -- a partial last block, decoded from its own characters
    have hdrop : (data.drop (8 * (data.length / 8))).length = data.length % 8 := by
      rw [List.length_drop]
      omega
    have hlast_ne : data.drop (8 * (data.length / 8)) ≠ [] := by
      rw [← List.length_pos_iff, hdrop]
      exact hr0
    rw [if_pos (by omega), if_pos hr0, List.drop_left' (length_encode_full_blocks hq),
      decode_encode_block hlast_ne (by omega), Option.map_some, List.take_append_drop]
  · -- only full blocks
    have hr0' : data.length % 8 = 0 := Nat.eq_zero_of_not_pos hr0
    rw [if_neg (by rw [hr0']; decide), Option.map_some, List.append_nil,
      List.take_of_length_le (by omega)]

/-- What `decode` accepts is the encoding of what it returns. -/
theorem encode_decode {enc data : List UInt8} (h : decode enc = some data) : encode data = enc := by
  by_cases h0 : enc = []
  · subst h0
    simp only [decode, List.isEmpty_nil, if_true, Option.some.injEq] at h
    subst h
    rfl
  rw [decode_eq h0] at h
  obtain ⟨k, hk, h⟩ := Option.bind_eq_some_iff.mp h
  obtain ⟨full, hfull, h⟩ := Option.bind_eq_some_iff.mp h
  obtain ⟨last, hlast, rfl⟩ := Option.map_eq_some_iff.mp h
  obtain ⟨hk9, hm⟩ := getD_of_decoded_block_sizes hk
  have hkb := encoded_block_sizes_bounds k hk9
  have hq : 11 * (enc.length / 11) ≤ enc.length := Nat.mul_div_le _ _
  obtain ⟨hflen, hfenc⟩ := encode_full_blocks_of_decode hfull hq
  have hmod : enc.length % 11 < 11 := Nat.mod_lt _ (by norm_num)
  have hk8 : k < 8 := by
    by_contra hk8
    have h8 : k = 8 := by omega
    rw [h8] at hm
    exact absurd hm (by change 11 ≠ enc.length % 11; omega)
  by_cases hr0 : 0 < enc.length % 11
  · -- a partial last block: re-encoding it gives its characters back
    rw [if_pos hr0] at hlast
    obtain ⟨hlast_ne, hlast8, hlast_enc⟩ := encode_decode_block hlast
    have hlast_len : last.length = k := by
      have hc := congrArg List.length hlast_enc
      rw [length_encode_block hlast8, List.length_drop] at hc
      exact encoded_block_sizes_getD_inj (by omega) hk9 (by rw [hc, hm]; omega)
    have hne : full ++ last ≠ [] := by simp [hlast_ne]
    have hcount : (full ++ last).length / 8 = enc.length / 11 := by
      rw [List.length_append, hflen, hlast_len]
      omega
    have hrem : (full ++ last).length % 8 = k := by
      rw [List.length_append, hflen, hlast_len]
      omega
    have hk0 : 0 < k := hlast_len ▸ List.length_pos_iff.mpr hlast_ne
    rw [encode_eq hne, hcount, hrem, if_pos hk0, encode_full_blocks_append _ (le_of_eq hflen.symm),
      hfenc, List.drop_left' hflen, hlast_enc, List.take_append_drop]
  · -- only full blocks
    rw [if_neg hr0, Option.some.injEq] at hlast
    subst hlast
    have hmod0 : enc.length % 11 = 0 := Nat.eq_zero_of_not_pos hr0
    have hfull_ne : full ≠ [] := by
      rw [← List.length_pos_iff, hflen]
      have hpos := List.length_pos_iff.mpr h0
      omega
    have hcount : full.length / 8 = enc.length / 11 := by
      rw [hflen]
      omega
    have hrem : full.length % 8 = 0 := by
      rw [hflen]
      omega
    rw [List.append_nil, encode_eq hfull_ne, hcount, hrem, if_neg (lt_irrefl 0), List.append_nil,
      hfenc, List.take_of_length_le (by omega)]

/-! ## What the decoder rejects -/

theorem decode_eq_none_of_length {enc : List UInt8}
    (h : decoded_block_sizes (enc.length % 11) = none) : decode enc = none := by
  have h0 : enc ≠ [] := by
    rintro rfl
    exact absurd h (by decide)
  rw [decode_eq h0, h]
  rfl

theorem mem_alphabet_of_mem_encode_block {block : List UInt8} {c : UInt8} (h8 : block.length ≤ 8)
    (hc : c ∈ encode_block block) : c ∈ alphabet := by
  rw [encode_block_eq h8, List.mem_reverse, List.mem_map] at hc
  obtain ⟨d, hd, rfl⟩ := hc
  have hd58 : d < alphabet.length := length_alphabet ▸ Radix.digitsLE_lt (by norm_num) hd
  rw [List.getD_eq_getElem _ _ hd58]
  exact List.getElem_mem hd58

theorem mem_alphabet_of_mem_encode_full_blocks {q : ℕ} {data : List UInt8} {c : UInt8}
    (hc : c ∈ encode_full_blocks q data) : c ∈ alphabet := by
  induction q generalizing data with
  | zero => simp [encode_full_blocks] at hc
  | succ q ih =>
    rw [encode_full_blocks, List.mem_append] at hc
    rcases hc with hc | hc
    · have h8 : (data.take full_block_size).length ≤ 8 := by
        rw [List.length_take, full_block_size_eq]
        omega
      exact mem_alphabet_of_mem_encode_block h8 hc
    · exact ih hc

theorem mem_alphabet_of_mem_encode {data : List UInt8} {c : UInt8} (hc : c ∈ encode data) :
    c ∈ alphabet := by
  by_cases h0 : data = []
  · subst h0
    simp [encode] at hc
  rw [encode_eq h0, List.mem_append] at hc
  rcases hc with hc | hc
  · exact mem_alphabet_of_mem_encode_full_blocks hc
  · split_ifs at hc
    · exact mem_alphabet_of_mem_encode_block (by rw [List.length_drop]; omega) hc
    · simp at hc

/-- A character outside the alphabet is rejected: what `decode` accepts is an encoding, and
encodings are made of alphabet characters. -/
theorem decode_eq_none_of_not_mem {enc : List UInt8} {c : UInt8} (hc : c ∈ enc)
    (hcn : c ∉ alphabet) : decode enc = none := by
  cases hd : decode enc with
  | none => rfl
  | some data =>
    rw [← encode_decode hd] at hc
    exact absurd (mem_alphabet_of_mem_encode hc) hcn

theorem decode_block_eq_none_of_value {block : List UInt8} {k : ℕ} {ds : List ℕ}
    (hk : decoded_block_sizes block.length = some k)
    (hds : block.reverse.mapM reverse_alphabet = some ds) (hV : 256 ^ k ≤ Nat.ofDigits 58 ds) :
    decode_block block = none := by
  rw [decode_block_eq, hk, Option.bind_some]
  split_ifs
  · rfl
  · rw [hds, Option.bind_some, if_neg (Nat.not_lt.mpr hV)]

theorem decode_full_blocks_isSome {q : ℕ} {enc full : List UInt8}
    (h : decode_full_blocks q enc = some full) {j : ℕ} (hj : j < q) :
    (decode_block ((enc.drop (11 * j)).take 11)).isSome := by
  induction q generalizing enc full j with
  | zero => omega
  | succ q ih =>
    simp only [decode_full_blocks, Option.bind_eq_bind, Option.pure_def,
      Option.bind_eq_some_iff, Option.some.injEq] at h
    obtain ⟨block, hblock, rest, hrest, -⟩ := h
    rw [full_encoded_block_size_eq] at hblock hrest
    cases j with
    | zero => rw [Nat.mul_zero, List.drop_zero, hblock, Option.isSome_some]
    | succ j =>
      have hdrop : enc.drop (11 * (j + 1)) = (enc.drop 11).drop (11 * j) := by
        rw [List.drop_drop, Nat.mul_succ, Nat.add_comm]
      rw [hdrop]
      exact ih hrest (by omega)

/-- Every block of an accepted string, full or last, is accepted by `decode_block`. -/
theorem decode_block_isSome_of_decode {enc data : List UInt8} (h : decode enc = some data)
    {j : ℕ} (hj : j < (enc.length + 10) / 11) :
    (decode_block ((enc.drop (11 * j)).take 11)).isSome := by
  have h0 : enc ≠ [] := by
    rintro rfl
    simp at hj
  rw [decode_eq h0] at h
  obtain ⟨k, -, h⟩ := Option.bind_eq_some_iff.mp h
  obtain ⟨full, hfull, h⟩ := Option.bind_eq_some_iff.mp h
  obtain ⟨last, hlast, -⟩ := Option.map_eq_some_iff.mp h
  by_cases hjq : j < enc.length / 11
  · exact decode_full_blocks_isSome hfull hjq
  · -- the last, partial block
    have hj' : j = enc.length / 11 := by omega
    have hr0 : 0 < enc.length % 11 := by omega
    rw [if_pos hr0] at hlast
    rw [hj', List.take_of_length_le (by rw [List.length_drop]; omega), hlast, Option.isSome_some]

/-! ## The codec is a bijection onto the accepted strings -/

theorem base58_bijection :
    (∀ s : List UInt8, decode (encode s) = some s ∧
      (encode s).length = 11 * (s.length / 8) + encoded_block_sizes.getD (s.length % 8) 0) ∧
    (∀ e d : List UInt8, decode e = some d → encode d = e) ∧
    (∀ e : List UInt8, decoded_block_sizes (e.length % 11) = none → decode e = none) ∧
    (∀ e : List UInt8, ∀ c ∈ e, c ∉ alphabet → decode e = none) ∧
    (∀ (e : List UInt8) (j k : ℕ) (ds : List ℕ), j < (e.length + 10) / 11 →
      decoded_block_sizes ((e.drop (11 * j)).take 11).length = some k →
      ((e.drop (11 * j)).take 11).reverse.mapM reverse_alphabet = some ds →
      256 ^ k ≤ Nat.ofDigits 58 ds → decode e = none) := by
  refine ⟨fun s => ⟨decode_encode s, length_encode s⟩, fun e d h => encode_decode h,
    fun e h => decode_eq_none_of_length h, fun e c hc hcn => decode_eq_none_of_not_mem hc hcn, ?_⟩
  intro e j k ds hj hk hds hV
  cases hd : decode e with
  | none => rfl
  | some data =>
    have hsome := decode_block_isSome_of_decode hd hj
    rw [decode_block_eq_none_of_value hk hds hV] at hsome
    cases hsome

end Base58

end Salvium
