import Mathlib.Algebra.BigOperators.Intervals
import Mathlib.Algebra.Order.BigOperators.Group.Finset

/-!
# Window — sums over a sliding window of heights

A counter that tracks "what entered during the last `w + 1` steps" is kept incrementally:
the value at step `k + 1` is the value at step `k`, minus the entry that falls out of the
window, plus the new entry. `windowSum f w k` is what such a counter is meant to hold: the
sum of `f` over the closed window `[k - w, k]`, clipped at `0` (written `Ico (k - w) (k + 1)`).

* `windowSum_succ_of_lt` / `windowSum_succ` — the window grows while it is shorter than
  `w + 1` and slides once it is full; this is the incremental rule.
* `le_windowSum` — every entry inside the window is at most the window's sum, so the
  subtraction in the sliding rule never truncates.
* `windowSum_congr` — the sum reads `f` on `[0, k]` only, so extending `f` past `k` leaves it.

Nothing here names the program; the yield tally instantiates it with the stake locked per
block and the stake lock period.
-/

namespace Window

variable (f : ℕ → ℕ) (w : ℕ)

/-- The sum of `f` over the window `[k - w, k]` (natural subtraction clips it at `0`). -/
def windowSum (k : ℕ) : ℕ := ∑ j ∈ Finset.Ico (k - w) (k + 1), f j

@[simp] theorem windowSum_zero : windowSum f w 0 = f 0 := by
  simp [windowSum]

/-- While the window is not full it only grows. -/
theorem windowSum_succ_of_lt {k : ℕ} (hk : k < w) :
    windowSum f w (k + 1) = windowSum f w k + f (k + 1) := by
  have hlo : k + 1 - w = k - w := by omega
  rw [windowSum, hlo, Finset.sum_Ico_succ_top (by omega), ← windowSum]

/-- **The sliding rule.** Once the window is full, stepping to `k + 1` drops `f (k - w)`
and adds `f (k + 1)`. -/
theorem windowSum_succ {k : ℕ} (hk : w ≤ k) :
    windowSum f w (k + 1) + f (k - w) = windowSum f w k + f (k + 1) := by
  have hlo : k + 1 - w = k - w + 1 := by omega
  have hbot : windowSum f w k = f (k - w) + ∑ j ∈ Finset.Ico (k - w + 1) (k + 1), f j :=
    Finset.sum_eq_sum_Ico_succ_bot (by omega) f
  rw [windowSum, hlo, Finset.sum_Ico_succ_top (by omega), hbot]
  omega

/-- The growing and the sliding rule in one equation. -/
theorem windowSum_succ_add (k : ℕ) :
    windowSum f w (k + 1) + (if w ≤ k then f (k - w) else 0) = windowSum f w k + f (k + 1) := by
  split_ifs with hk
  · exact windowSum_succ f w hk
  · rw [windowSum_succ_of_lt f w (Nat.lt_of_not_le hk), Nat.add_zero]

/-- Every entry of the window is bounded by the window's sum. -/
theorem le_windowSum {j k : ℕ} (hlo : k - w ≤ j) (hhi : j ≤ k) : f j ≤ windowSum f w k :=
  Finset.single_le_sum (f := f) (fun _ _ => Nat.zero_le _)
    (Finset.mem_Ico.mpr ⟨hlo, Nat.lt_succ_of_le hhi⟩)

/-- The window at `k` reads `f` on `[0, k]` only. -/
theorem windowSum_congr {g : ℕ → ℕ} {k : ℕ} (hfg : ∀ j ≤ k, f j = g j) :
    windowSum f w k = windowSum g w k :=
  Finset.sum_congr rfl fun j hj => hfg j (Nat.lt_succ_iff.mp (Finset.mem_Ico.mp hj).2)

/-! ## A window counter kept modulo `2^64`

The counter itself is a `UInt64`: it holds the window sum modulo `2^64`, and one step of the
sliding rule done in wrapping arithmetic keeps that whatever wraps on the way, since wrapping
subtraction and addition are exact modulo `2^64`. -/

/-- One wrapping step `a - b + c` of a counter that holds `S` modulo `2^64` yields the next
window sum `S'` modulo `2^64`, when `S' + b = S + c`. -/
theorem toNat_sub_add_of_window {a b c : UInt64} {S S' : ℕ} (ha : a.toNat = S % 2 ^ 64)
    (hS : S' + b.toNat = S + c.toNat) : (a - b + c).toNat = S' % 2 ^ 64 := by
  rw [UInt64.toNat_add, UInt64.toNat_sub, ha]
  have hb64 := b.toNat_lt
  have hc64 := c.toNat_lt
  omega

end Window
