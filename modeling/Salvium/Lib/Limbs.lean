import Mathlib.Data.Nat.Digits.Defs

/-!
# Limbs — the top carry of a multi-limb by single-limb product

A number held as little-endian limbs `ws` in base `B` is `Nat.ofDigits B ws`. Multiplying it
by one limb `d` the schoolbook way produces, for every limb `w`, a low half `w * d % B` and a
high half `w * d / B`; digit `i` of the product collects the low half of limb `i`, the high
half of limb `i - 1` and the carry out of digit `i - 1`.

Comparison routines often need only what lies above the last limb: whether `x * d` still fits
in `ws.length` limbs. `mulTopCarry` runs exactly that carry chain, keeping one pending high
half and one carry, and `mulTopCarry_eq` says it returns `x * d / B ^ ws.length`. The proof is
one induction on the limbs; nothing about the limbs' size is needed, since the identity is
plain `Nat` division.
-/

namespace Limbs

/-- The part of `Nat.ofDigits B ws * d` above the last limb, computed digit by digit: `c` is the
carry into the current digit and `h` the pending high half of the previous limb's product. -/
def mulTopCarry (B d : Nat) : List Nat → Nat → Nat → Nat
  | [], c, h => h + c
  | w :: ws, c, h => mulTopCarry B d ws ((h + w * d % B + c) / B) (w * d / B)

/-- Dividing by `B * B ^ n` is dividing by `B` first; a multiple of `B` passes through. -/
private theorem add_mul_div_pow_succ (B n y z : Nat) (hB : 0 < B) :
    (y + B * z) / B ^ (n + 1) = (y / B + z) / B ^ n := by
  rw [pow_succ', ← Nat.div_div_eq_div_mul, Nat.add_mul_div_left _ _ hB]

/-- **The carry chain computes the top of the product.** Starting from carry `c` and pending
high half `h`, the chain over `ws` returns `(h + c + x * d) / B ^ ws.length` where
`x = Nat.ofDigits B ws`. Induction on the limbs. -/
theorem mulTopCarry_eq (B d : Nat) (hB : 0 < B) :
    ∀ (ws : List Nat) (c h : Nat),
      mulTopCarry B d ws c h = (h + c + Nat.ofDigits B ws * d) / B ^ ws.length
  | [], c, h => by simp [mulTopCarry]
  | w :: ws, c, h => by
    rw [mulTopCarry, mulTopCarry_eq B d hB ws, Nat.ofDigits_cons, List.length_cons]
    -- split `w * d` into its two halves and regroup the new digit's carry
    have hsplit : h + c + (w + B * Nat.ofDigits B ws) * d
        = (h + w * d % B + c) + B * (w * d / B + Nat.ofDigits B ws * d) := by
      have := Nat.mod_add_div (w * d) B
      rw [Nat.add_mul, Nat.mul_add, Nat.mul_assoc]
      omega
    rw [hsplit, add_mul_div_pow_succ B ws.length _ _ hB]
    congr 1
    omega

/-- The whole product fits in `ws.length` limbs exactly when the chain's top is zero. -/
theorem mulTopCarry_eq_zero_iff (B d : Nat) (hB : 0 < B) (ws : List Nat) :
    mulTopCarry B d ws 0 0 = 0 ↔ Nat.ofDigits B ws * d < B ^ ws.length := by
  rw [mulTopCarry_eq B d hB, Nat.div_eq_zero_iff_lt (Nat.pow_pos hB)]
  simp

/-- Splitting a digit list after its first `n` digits: the tail carries weight `b ^ n`. -/
theorem ofDigits_take_drop (b n : Nat) (L : List Nat) (hn : n ≤ L.length) :
    Nat.ofDigits b L = Nat.ofDigits b (L.take n) + b ^ n * Nat.ofDigits b (L.drop n) := by
  conv_lhs => rw [← List.take_append_drop n L]
  rw [Nat.ofDigits_append, List.length_take_of_le hn]

end Limbs
