import Mathlib

/-!
# Proportional shares, rounded down

An amount `s` shared out in proportion to weights `w a` out of a whole `t`, each share rounded
down to `s * w a / t`. The floors never add up to more than the floor of the whole
(`sum_mul_div_le`), so when the weights make up at most the whole the shares never exceed the
amount (`sum_mul_div_le_of_sum_le`).
-/

namespace Share

/-- A share of a weight within the whole is at most the amount; a whole of `0` gives nothing. -/
theorem mul_div_le_of_le {s x t : ℕ} (hx : x ≤ t) : s * x / t ≤ s := by
  apply Nat.div_le_of_le_mul
  rw [mul_comm t]
  exact Nat.mul_le_mul_left s hx

theorem sum_mul_div_le {α : Type} (s t : ℕ) (w : α → ℕ) :
    ∀ l : List α, (l.map fun a => s * w a / t).sum ≤ s * (l.map w).sum / t
  | [] => by simp
  | a :: l => by
    have ih := sum_mul_div_le s t w l
    simp only [List.map_cons, List.sum_cons]
    calc s * w a / t + (l.map fun a => s * w a / t).sum
        ≤ s * w a / t + s * (l.map w).sum / t := Nat.add_le_add_left ih _
      _ ≤ (s * w a + s * (l.map w).sum) / t := Nat.div_add_div_le_add_div
      _ = s * (w a + (l.map w).sum) / t := by rw [mul_add]

theorem sum_mul_div_le_of_sum_le {α : Type} {s t : ℕ} {w : α → ℕ} {l : List α}
    (h : (l.map w).sum ≤ t) : (l.map fun a => s * w a / t).sum ≤ s :=
  (sum_mul_div_le s t w l).trans (mul_div_le_of_le h)

end Share
