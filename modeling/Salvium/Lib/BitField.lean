import Mathlib

/-!
# Bit fields

A word made of fields: a low field `x` of `k` bits and the field `y` above it is
`x ||| y <<< k`, which is the sum `x + y * 2 ^ k` because no bit of the two overlaps. The low field
comes back by masking with `2 ^ k - 1`, the high one by shifting right by `k`, and the word has
`k + l` bits when `y` has `l`.
-/

namespace BitField

variable {x y k l : ℕ}

/-- Fields that do not overlap are added. -/
theorem or_shiftLeft_eq_add (hx : x < 2 ^ k) : x ||| y <<< k = x + y * 2 ^ k := by
  rw [Nat.lor_comm, ← Nat.shiftLeft_add_eq_or_of_lt hx, Nat.shiftLeft_eq, Nat.add_comm]

/-- Masking with the low field's `k` ones gives the low field. -/
theorem and_two_pow_sub_one_add_mul (hx : x < 2 ^ k) : (x + y * 2 ^ k) &&& (2 ^ k - 1) = x := by
  rw [Nat.and_two_pow_sub_one_eq_mod, Nat.add_mul_mod_self_right, Nat.mod_eq_of_lt hx]

/-- Shifting right past the low field gives the high field. -/
theorem add_mul_shiftRight (hx : x < 2 ^ k) : (x + y * 2 ^ k) >>> k = y := by
  rw [Nat.shiftRight_eq_div_pow, Nat.add_mul_div_right _ _ (Nat.two_pow_pos k),
    Nat.div_eq_of_lt hx, Nat.zero_add]

/-- A low field of `k` bits and a high field of `l` bits make a word of `k + l` bits. -/
theorem add_mul_two_pow_lt (hx : x < 2 ^ k) (hy : y < 2 ^ l) : x + y * 2 ^ k < 2 ^ (k + l) := by
  have hle : (y + 1) * 2 ^ k ≤ 2 ^ l * 2 ^ k := Nat.mul_le_mul_right _ hy
  rw [Nat.pow_add, Nat.mul_comm (2 ^ k)]
  rw [Nat.add_mul, Nat.one_mul] at hle
  omega

end BitField
