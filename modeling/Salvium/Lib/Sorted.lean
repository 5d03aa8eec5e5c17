import Mathlib

/-!
# Strictly increasing keys, checked by a fold

A check that the keys of a sequence increase strictly walks it once, carrying the last key and
failing as soon as an element has no key or a key not above the last one. As a fold in `Option`
its step is `List.strictStep`; `List.foldlM_strictStep_isSome_iff` says what the fold accepts:
every element has a key and the keys, after the starting one, form a strictly increasing chain.

Two facts of the lexicographic order on lists go with it, for keys that are byte strings: a list
of least elements is below no list of its length, and two different lists over a trichotomous
order are comparable.
-/

namespace List

variable {α β : Type}

section strictStep

variable [LT α] [DecidableRel (α := α) (· < ·)]

/-- One step of the check: the element's key, if it has one and it is above `last`. -/
def strictStep (key : β → Option α) (last : α) (b : β) : Option α :=
  (key b).bind fun k => if last < k then some k else none

/-- The fold of `strictStep` from `last` succeeds exactly when every element has a key and the
keys increase strictly from `last`. -/
theorem foldlM_strictStep_isSome_iff (key : β → Option α) (l : List β) (last : α) :
    (l.foldlM (strictStep key) last).isSome ↔
      ∃ keys, l.mapM key = some keys ∧ (last :: keys).IsChain (· < ·) := by
  induction l generalizing last with
  | nil => simp [pure]
  | cons b l ih =>
    -- the step fails on an element without a key or with one not above `last`
    cases hk : key b with
    | none => simp [strictStep, hk]
    | some k =>
      by_cases hlt : last < k
      · have hstep : strictStep key last b = some k := by simp [strictStep, hk, hlt]
        simp only [foldlM_cons, hstep, Option.bind_eq_bind, Option.bind_some, ih, mapM_cons, hk]
        constructor
        · rintro ⟨keys, hl, hc⟩
          exact ⟨k :: keys, by simp [hl], List.isChain_cons_cons.mpr ⟨hlt, hc⟩⟩
        · rintro ⟨keys, hl, hc⟩
          simp only [Option.pure_def, Option.bind_eq_some_iff, Option.some.injEq] at hl
          obtain ⟨keys', hl', rfl⟩ := hl
          exact ⟨keys', hl', (List.isChain_cons_cons.mp hc).2⟩
      · have hstep : strictStep key last b = none := by simp [strictStep, hk, hlt]
        simp only [foldlM_cons, hstep, Option.bind_eq_bind, Option.bind_none, Option.isSome_none,
          Bool.false_eq_true, false_iff, not_exists, not_and]
        intro keys hl hc
        simp only [mapM_cons, hk, Option.pure_def, Option.bind_eq_bind, Option.bind_some,
          Option.bind_eq_some_iff, Option.some.injEq] at hl
        obtain ⟨keys', -, rfl⟩ := hl
        exact hlt (List.isChain_cons_cons.mp hc).1

end strictStep

/-- A list of elements with nothing below them is below no list of its length. -/
theorem not_lt_replicate [LT α] {z : α} (hz : ∀ x : α, ¬ x < z) :
    ∀ l : List α, ¬ l < replicate l.length z
  | [] => List.not_lt_nil []
  | x :: l => by
    rw [length_cons, replicate_succ, cons_lt_cons_iff]
    rintro (hx | ⟨-, hl⟩)
    · exact hz x hx
    · exact not_lt_replicate hz l hl

/-- In a pairwise related list every other element is related to the last. -/
theorem Pairwise.rel_of_getLast? {R : α → α → Prop} {l : List α} (hl : l.Pairwise R)
    {a last : α} (hlast : l.getLast? = some last) (ha : a ∈ l) : a = last ∨ R a last := by
  obtain ⟨ys, rfl⟩ := List.getLast?_eq_some_iff.mp hlast
  rw [List.pairwise_append] at hl
  rcases List.mem_append.mp ha with ha | ha
  · exact .inr (hl.2.2 a ha last (List.mem_singleton_self last))
  · exact .inl (List.mem_singleton.mp ha)

/-- A transitive relation stays pairwise when an element above the last is appended. -/
theorem Pairwise.append_of_getLast? {R : α → α → Prop} {l : List α} (hl : l.Pairwise R)
    (htrans : ∀ {a b c}, R a b → R b c → R a c) {x : α} (hx : ∀ last ∈ l.getLast?, R last x) :
    (l ++ [x]).Pairwise R := by
  rw [List.pairwise_append]
  refine ⟨hl, List.pairwise_singleton _ _, ?_⟩
  intro a ha b hb
  rw [List.mem_singleton] at hb
  subst hb
  have hne : l ≠ [] := List.ne_nil_of_mem ha
  have hlast : l.getLast? = some (l.getLast hne) := List.getLast?_eq_some_getLast hne
  rcases hl.rel_of_getLast? hlast ha with rfl | hrel
  · exact hx _ hlast
  · exact htrans hrel (hx _ hlast)

/-- Two different lists over a trichotomous order are comparable. -/
theorem lt_or_gt_of_ne_trichotomous [LT α] [Std.Irrefl (· < · : α → α → Prop)]
    [Std.Trichotomous (· < · : α → α → Prop)] [Std.Asymm (· < · : α → α → Prop)]
    {l₁ l₂ : List α} (h : l₁ ≠ l₂) : l₁ < l₂ ∨ l₂ < l₁ := by
  rcases List.le_total l₁ l₂ with h12 | h21
  · exact .inl ((List.le_iff_lt_or_eq.mp h12).resolve_right h)
  · exact .inr ((List.le_iff_lt_or_eq.mp h21).resolve_right (Ne.symm h))

end List
