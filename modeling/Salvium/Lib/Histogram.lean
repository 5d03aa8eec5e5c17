import Mathlib

/-!
# Histogram — a count table kept beside a deque

A sliding window of values often keeps, beside the deque itself, a table of how many times each
value occurs in it, patched at every push and pop rather than recounted. With 32-bit counters the
table can only agree with the counts modulo `2 ^ 32`: `Tracks lv l` says that it does. Each of the
four deque operations, with the matching increment or decrement of the table, keeps `Tracks`, and
below `2 ^ 32` entries the counters are the exact counts (`Tracks.toNat_eq_count`). Two tables
that track the same deque are equal (`Tracks.unique`), so a table rebuilt from scratch and one
patched along the way cannot be told apart.
-/

namespace Histogram

variable {α : Type} [DecidableEq α]

/-- `lv` counts the entries of `l`, modulo `2 ^ 32`. -/
def Tracks (lv : α → UInt32) (l : List α) : Prop :=
  ∀ v, lv v = UInt32.ofNat (l.count v)

/-- The table's increment at `v`. -/
def inc (lv : α → UInt32) (v : α) : α → UInt32 :=
  Function.update lv v (lv v + 1)

/-- The table's decrement at `v`. -/
def dec (lv : α → UInt32) (v : α) : α → UInt32 :=
  Function.update lv v (lv v - 1)

variable {lv : α → UInt32} {l : List α}

theorem tracks_nil : Tracks (fun _ : α => (0 : UInt32)) [] := fun _ => rfl

/-- One more occurrence of `v`, wherever it is added, is one more count at `v`. -/
theorem Tracks.inc_of_count (h : Tracks lv l) {l' : List α} (v : α)
    (hcount : ∀ w, l'.count w = l.count w + if v = w then 1 else 0) : Tracks (inc lv v) l' := by
  intro w
  rw [inc, Function.update_apply, hcount]
  by_cases hw : w = v
  · subst hw
    rw [if_pos rfl, if_pos rfl, h w, UInt32.ofNat_add, UInt32.ofNat_one]
  · rw [if_neg hw, if_neg (Ne.symm hw), Nat.add_zero, h w]

/-- One occurrence of `v` fewer is one count fewer at `v`. -/
theorem Tracks.dec_of_count (h : Tracks lv l) {l' : List α} (v : α)
    (hcount : ∀ w, l.count w = l'.count w + if v = w then 1 else 0) : Tracks (dec lv v) l' := by
  intro w
  rw [dec, Function.update_apply]
  by_cases hw : w = v
  · subst hw
    rw [if_pos rfl, h w, hcount w, if_pos rfl, UInt32.ofNat_add, UInt32.ofNat_one,
      UInt32.add_sub_cancel]
  · rw [if_neg hw, h w, hcount w, if_neg (Ne.symm hw), Nat.add_zero]

theorem Tracks.push_back (h : Tracks lv l) (v : α) : Tracks (inc lv v) (l ++ [v]) :=
  h.inc_of_count v fun w => by simp [List.count_append, List.count_singleton]

theorem Tracks.push_front (h : Tracks lv l) (v : α) : Tracks (inc lv v) (v :: l) :=
  h.inc_of_count v fun w => by simp [List.count_cons]

theorem Tracks.pop_front {v : α} (h : Tracks lv (v :: l)) : Tracks (dec lv v) l :=
  h.dec_of_count v fun w => by simp [List.count_cons]

theorem Tracks.pop_back {v : α} (h : Tracks lv (l ++ [v])) : Tracks (dec lv v) l :=
  h.dec_of_count v fun w => by simp [List.count_append, List.count_singleton]

/-- Values pushed at the back one after the other are counted one after the other. -/
theorem Tracks.append_foldl (h : Tracks lv l) (l' : List α) :
    Tracks (l'.foldl inc lv) (l ++ l') := by
  induction l' generalizing lv l with
  | nil =>
    rw [List.foldl_nil, List.append_nil]
    exact h
  | cons v l' ih =>
    rw [List.foldl_cons, List.append_cons]
    exact ih (h.push_back v)

/-- Below `2 ^ 32` entries no counter has wrapped. -/
theorem Tracks.toNat_eq_count (h : Tracks lv l) (hl : l.length < 2 ^ 32) (v : α) :
    (lv v).toNat = l.count v := by
  rw [h v]
  exact UInt32.toNat_ofNat_of_lt' (lt_of_le_of_lt List.count_le_length hl)

theorem Tracks.unique {lv' : α → UInt32} (h : Tracks lv l) (h' : Tracks lv' l) : lv = lv' :=
  funext fun v => (h v).trans (h' v).symm

end Histogram
