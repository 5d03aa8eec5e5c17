import Mathlib

/-!
# Except — inverting a successful computation

A check written as a `do` block over `Except` succeeds only if every step it binds does. The
inversion lemma here peels one bind: from `x >>= f = .ok b` get the value `x` produced and the
success of the rest. Proofs about a checker apply it once per step instead of unfolding the
monad. A map over a list whose steps can fail only one way is characterized as a whole
(`mapM_eq_ite`).
-/

namespace Except

variable {ε α β : Type}

/-- A bind succeeds exactly when its first step does and the rest succeeds on that value. -/
theorem bind_eq_ok_iff {x : Except ε α} {f : α → Except ε β} {b : β} :
    (x >>= f) = .ok b ↔ ∃ a, x = .ok a ∧ f a = .ok b := by
  cases x with
  | error e => simp [bind, Except.bind]
  | ok a => simp [bind, Except.bind]

/-- A map whose steps fail with one message exactly where `P` holds: it fails with that message
if `P` holds anywhere, and otherwise gives the values of `g`. -/
theorem mapM_eq_ite {f : α → Except ε β} {P : α → Prop} [DecidablePred P] {g : α → β} {m : ε} :
    ∀ {l : List α}, (∀ x ∈ l, f x = if P x then .error m else .ok (g x)) →
      l.mapM f = if ∃ x ∈ l, P x then .error m else .ok (l.map g)
  | [], _ => by simp [pure, Except.pure]
  | x :: l, h => by
    rw [List.mapM_cons, h x List.mem_cons_self,
      mapM_eq_ite fun y hy => h y (List.mem_cons_of_mem x hy)]
    by_cases hx : P x
    · simp [hx, bind, Except.bind]
    · by_cases hl : ∃ y ∈ l, P y
      · simp [hx, hl, bind, Except.bind]
      · simp [hx, hl, bind, Except.bind, pure, Except.pure]

end Except
