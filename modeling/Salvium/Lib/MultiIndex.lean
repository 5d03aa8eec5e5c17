import Mathlib

/-!
# Multi-valued indexes

An index from keys to sets of ids, the shape of a `std::unordered_map<K, std::unordered_set<I>>`
that is kept free of empty sets: a key is absent or holds a non-empty, duplicate-free list of
ids (`WellFormed`). `insert` adds an id under a key and creates the key when it is absent, as
`m[k].insert(i)` does; `erase` removes an id and drops the key once its set is empty.

Such an index says, for every key, which ids carry it. `insertAll` and `eraseAll` add and remove
one id under each key of a list; `mem_ids_insertAll` and `mem_ids_eraseAll` say what the index
holds afterwards, and both keep `WellFormed`.
-/

namespace MultiIndex

variable {κ ι : Type}

/-- The ids under key `k`: its set, or nothing when the key is absent. -/
def ids (m : κ → Option (List ι)) (k : κ) : List ι := (m k).getD []

/-- No key holds an empty or a repeating set. -/
def WellFormed (m : κ → Option (List ι)) : Prop :=
  ∀ k s, m k = some s → s ≠ [] ∧ s.Nodup

theorem WellFormed.nodup {m : κ → Option (List ι)} (hm : WellFormed m) (k : κ) :
    (ids m k).Nodup := by
  unfold ids
  cases hk : m k with
  | none => exact List.nodup_nil
  | some s => exact (hm k s hk).2

/-- A key is absent exactly when no id is under it. -/
theorem WellFormed.eq_none_iff {m : κ → Option (List ι)} (hm : WellFormed m) (k : κ) :
    m k = none ↔ ids m k = [] := by
  unfold ids
  cases hk : m k with
  | none => simp
  | some s => simpa using (hm k s hk).1

variable [DecidableEq κ] [DecidableEq ι]

/-- `m[k].insert(i)`: the key is created when absent, the id added when not yet there. -/
def insert (m : κ → Option (List ι)) (k : κ) (i : ι) : κ → Option (List ι) :=
  Function.update m k (some ((ids m k).insert i))

/-- `m[k].erase(i)`, then `m.erase(k)` once the set is empty. -/
def erase (m : κ → Option (List ι)) (k : κ) (i : ι) : κ → Option (List ι) :=
  let s := (ids m k).erase i
  Function.update m k (if s = [] then none else some s)

/-- `insert` of one id under each key, in order. -/
def insertAll (m : κ → Option (List ι)) (ks : List κ) (i : ι) : κ → Option (List ι) :=
  ks.foldl (fun m k => insert m k i) m

/-- `erase` of one id under each key, in order. -/
def eraseAll (m : κ → Option (List ι)) (ks : List κ) (i : ι) : κ → Option (List ι) :=
  ks.foldl (fun m k => erase m k i) m

variable {m : κ → Option (List ι)} {k k' : κ} {i j : ι} {ks : List κ}

/-! ## One key -/

@[simp] theorem ids_insert : ids (insert m k i) k' = if k' = k then (ids m k).insert i else ids m k' := by
  by_cases h : k' = k
  · subst h
    simp [ids, insert]
  · simp [ids, insert, h]

@[simp] theorem ids_erase : ids (erase m k i) k' = if k' = k then (ids m k).erase i else ids m k' := by
  by_cases h : k' = k
  · subst h
    simp only [ids, erase, Function.update_self, if_true]
    split_ifs with he <;> simp [he]
  · simp [ids, erase, h]

theorem mem_ids_insert : j ∈ ids (insert m k i) k' ↔ j ∈ ids m k' ∨ (k' = k ∧ j = i) := by
  rw [ids_insert]
  split_ifs with h
  · subst h
    simp [List.mem_insert_iff, or_comm]
  · simp [h]

theorem mem_ids_erase (hnd : (ids m k).Nodup) :
    j ∈ ids (erase m k i) k' ↔ j ∈ ids m k' ∧ ¬(k' = k ∧ j = i) := by
  rw [ids_erase]
  split_ifs with h
  · subst h
    rw [hnd.mem_erase_iff]
    simp [and_comm]
  · simp [h]

/-- Inserting an id that is already under the key changes nothing. -/
theorem insert_of_mem (h : i ∈ ids m k) : insert m k i = m := by
  have hk : m k = some (ids m k) := by
    unfold ids at h ⊢
    cases hmk : m k with
    | none => simp [hmk] at h
    | some s => rfl
  rw [insert, List.insert_of_mem h, ← hk, Function.update_eq_self]

theorem WellFormed.insert (hm : WellFormed m) : WellFormed (insert m k i) := by
  intro k' s hs
  by_cases h : k' = k
  · subst h
    simp only [MultiIndex.insert, Function.update_self, Option.some.injEq] at hs
    subst hs
    exact ⟨List.ne_nil_of_mem List.mem_insert_self, (hm.nodup k').insert⟩
  · rw [MultiIndex.insert, Function.update_of_ne h] at hs
    exact hm k' s hs

theorem WellFormed.erase (hm : WellFormed m) : WellFormed (erase m k i) := by
  intro k' s hs
  by_cases h : k' = k
  · subst h
    by_cases he : (ids m k').erase i = []
    · simp [MultiIndex.erase, he] at hs
    · simp only [MultiIndex.erase, Function.update_self, if_neg he, Option.some.injEq] at hs
      subst hs
      exact ⟨he, (hm.nodup k').erase i⟩
  · rw [MultiIndex.erase, Function.update_of_ne h] at hs
    exact hm k' s hs

/-! ## One id under a list of keys -/

theorem insertAll_cons : insertAll m (k :: ks) i = insertAll (insert m k i) ks i := rfl

theorem eraseAll_cons : eraseAll m (k :: ks) i = eraseAll (erase m k i) ks i := rfl

theorem WellFormed.insertAll (hm : WellFormed m) : WellFormed (insertAll m ks i) := by
  induction ks generalizing m with
  | nil => exact hm
  | cons k ks ih => exact ih hm.insert

theorem WellFormed.eraseAll (hm : WellFormed m) : WellFormed (eraseAll m ks i) := by
  induction ks generalizing m with
  | nil => exact hm
  | cons k ks ih => exact ih hm.erase

theorem mem_ids_insertAll : j ∈ ids (insertAll m ks i) k ↔ j ∈ ids m k ∨ (k ∈ ks ∧ j = i) := by
  induction ks generalizing m with
  | nil => simp [MultiIndex.insertAll]
  | cons k₀ ks ih =>
    rw [insertAll_cons, ih, mem_ids_insert, List.mem_cons]
    tauto

theorem mem_ids_eraseAll (hm : WellFormed m) :
    j ∈ ids (eraseAll m ks i) k ↔ j ∈ ids m k ∧ ¬(k ∈ ks ∧ j = i) := by
  induction ks generalizing m with
  | nil => simp [MultiIndex.eraseAll]
  | cons k₀ ks ih =>
    rw [eraseAll_cons, ih hm.erase, mem_ids_erase (hm.nodup k₀), List.mem_cons]
    tauto

end MultiIndex
