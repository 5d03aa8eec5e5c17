import Mathlib

/-!
# Varint — base-128 little-endian integers

The variable-length integer format (LEB128 for unsigned values): seven bits per byte, least
significant group first, the high bit set on every byte but the last. `encode` is the writer;
its value and length lemmas are what a size computation over serialized data needs.
-/

namespace Varint

/-- The bytes of `n`: low seven bits first, a continuation bit on all but the last byte. -/
def encode (n : ℕ) : List UInt8 :=
  if n < 0x80 then [UInt8.ofNat n]
  else UInt8.ofNat (n % 0x80 + 0x80) :: encode (n / 0x80)
termination_by n
decreasing_by omega

theorem encode_of_lt {n : ℕ} (h : n < 0x80) : encode n = [UInt8.ofNat n] := by
  rw [encode, if_pos h]

theorem encode_of_le {n : ℕ} (h : 0x80 ≤ n) :
    encode n = UInt8.ofNat (n % 0x80 + 0x80) :: encode (n / 0x80) := by
  rw [encode, if_neg (by omega)]

/-- A value below `2^7` takes one byte. -/
@[simp] theorem length_encode_of_lt {n : ℕ} (h : n < 0x80) : (encode n).length = 1 := by
  rw [encode_of_lt h, List.length_singleton]

theorem encode_ne_nil (n : ℕ) : encode n ≠ [] := by
  by_cases h : n < 0x80
  · rw [encode_of_lt h]
    exact List.cons_ne_nil _ _
  · rw [encode_of_le (by omega)]
    exact List.cons_ne_nil _ _

/-- A value below `2 ^ (7 * (k + 1))` takes at most `k + 1` bytes. -/
theorem length_encode_le {n k : ℕ} (h : n < 2 ^ (7 * (k + 1))) : (encode n).length ≤ k + 1 := by
  induction k generalizing n with
  | zero => rw [length_encode_of_lt (by simpa using h)]
  | succ k ih =>
    by_cases hn : n < 0x80
    · rw [length_encode_of_lt hn]
      omega
    · rw [encode_of_le (by omega), List.length_cons]
      have hdiv : n / 0x80 < 2 ^ (7 * (k + 1)) := by
        rw [Nat.div_lt_iff_lt_mul (by norm_num)]
        calc n < 2 ^ (7 * (k + 1 + 1)) := h
          _ = 2 ^ (7 * (k + 1)) * 0x80 := by
            rw [show 7 * (k + 1 + 1) = 7 * (k + 1) + 7 by ring, pow_add]
            rfl
      exact Nat.succ_le_succ (ih hdiv)

end Varint
