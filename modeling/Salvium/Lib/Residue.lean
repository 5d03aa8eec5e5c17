import Mathlib

/-!
# The next number with a given residue

Numbers `≥ q` whose residue modulo `m` is `t` start at `next_with_residue m t q`: in the cycle of
`q` when `t` is not below `q`'s residue, in the next cycle otherwise. Every number between `q` and
it has another residue. The successor of a number of residue `t` is the next one of residue
`t + 1` (cyclically).
-/

namespace Residue

/-- The first `n ≥ q` with `n % m = t` (for `t < m`): the cycle of `q`, or the next one when `t`
is below `q`'s residue. -/
def next_with_residue (m t q : ℕ) : ℕ :=
  (q / m + if t < q % m then 1 else 0) * m + t

variable {m t q : ℕ}

theorem next_with_residue_mod (ht : t < m) : next_with_residue m t q % m = t := by
  rw [next_with_residue, Nat.mul_add_mod_of_lt ht]

/-- The two cases of the definition, each as a sum over `q`'s own cycle. -/
theorem next_with_residue_eq :
    (q % m ≤ t ∧ next_with_residue m t q = q - q % m + t) ∨
      (t < q % m ∧ next_with_residue m t q = q - q % m + m + t) := by
  have hq := Nat.div_add_mod q m
  have hc : q / m * m = q - q % m := by rw [Nat.mul_comm]; omega
  by_cases hlt : t < q % m
  · right
    refine ⟨hlt, ?_⟩
    rw [next_with_residue, if_pos hlt, Nat.add_mul, hc]
    omega
  · left
    refine ⟨by omega, ?_⟩
    rw [next_with_residue, if_neg hlt, Nat.add_zero, hc]

theorem le_next_with_residue (ht : t < m) : q ≤ next_with_residue m t q := by
  have hrm := Nat.mod_lt q (by omega : 0 < m)
  rcases next_with_residue_eq (m := m) (t := t) (q := q) with ⟨hle, heq⟩ | ⟨_, heq⟩ <;> omega

/-- Below the next number of residue `t`, nothing at or after `q` has residue `t`. -/
theorem mod_ne_of_lt_next_with_residue (ht : t < m) {j : ℕ} (hqj : q ≤ j)
    (hj : j < next_with_residue m t q) : j % m ≠ t := by
  have hm : 0 < m := by omega
  have hrm := Nat.mod_lt q hm
  have hq := Nat.div_add_mod q m
  have hj' := Nat.div_add_mod j m
  -- `j` lies in `q`'s cycle or, in the second case, possibly in the next one
  have hcyc : j / m = q / m ∨ j / m = q / m + 1 := by
    have hlo : q / m ≤ j / m := Nat.div_le_div_right hqj
    have hhi : j / m < q / m + 2 := by
      rw [Nat.div_lt_iff_lt_mul hm]
      rcases next_with_residue_eq (m := m) (t := t) (q := q) with ⟨-, heq⟩ | ⟨-, heq⟩
      · have : q - q % m = q / m * m := by rw [Nat.mul_comm]; omega
        rw [Nat.add_mul]
        omega
      · have : q - q % m = q / m * m := by rw [Nat.mul_comm]; omega
        rw [Nat.add_mul]
        omega
    omega
  have hjm : j / m * m = j - j % m := by rw [Nat.mul_comm]; omega
  have hqm : q / m * m = q - q % m := by rw [Nat.mul_comm]; omega
  rcases next_with_residue_eq (m := m) (t := t) (q := q) with ⟨hle, heq⟩ | ⟨hlt, heq⟩
  · rcases hcyc with h | h
    · rw [h] at hjm
      omega
    · rw [h, Nat.add_mul, Nat.one_mul] at hjm
      omega
  · rcases hcyc with h | h
    · rw [h] at hjm
      omega
    · rw [h, Nat.add_mul, Nat.one_mul] at hjm
      omega

/-- After a number of residue `t`, the next one of residue `t + 1` (cyclically) is its
successor. -/
theorem next_with_residue_succ (hm : 1 < m) (hq : q % m = t) :
    next_with_residue m ((t + 1) % m) q = q + 1 := by
  have hrm := Nat.mod_lt q (by omega : 0 < m)
  have hq' := Nat.div_add_mod q m
  have hqm : q / m * m = q - q % m := by rw [Nat.mul_comm]; omega
  by_cases hlast : t + 1 = m
  · -- the last residue wraps round to `0`, in the next cycle
    have h0 : (t + 1) % m = 0 := by rw [hlast, Nat.mod_self]
    rw [h0, next_with_residue, if_pos (by omega), Nat.add_mul, Nat.one_mul, hqm]
    omega
  · have h1 : (t + 1) % m = t + 1 := Nat.mod_eq_of_lt (by omega)
    rw [h1, next_with_residue, if_neg (by omega), Nat.add_zero, hqm]
    omega

end Residue
