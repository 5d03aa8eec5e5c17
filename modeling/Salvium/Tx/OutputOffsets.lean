import Mathlib

/-!
# Salvium — relative and absolute output offsets

A ring's members are stored on chain as relative offsets: the first global output index, then
each index minus the one before. `relative_output_offsets_to_absolute` adds them up again, in
64-bit arithmetic; `absolute_output_offsets_to_relative` sorts the indices and takes the
differences, from the last one down.

Both loops are written here as recursions over the list: the running sum `add_previous` and the
differences `subtract_previous`. In 64-bit arithmetic each undoes the other whatever the values
(`add_previous_subtract_previous`, `subtract_previous_add_previous`), so

* absolute to relative and back gives the sorted list, for every list of indices
  (`relative_output_offsets_to_absolute_to_relative`);
* relative to absolute and back gives the offsets back when their sum stays below `2 ^ 64`
  (`absolute_output_offsets_to_relative_to_absolute`): then the running sums do not wrap, are
  already sorted and the sort keeps them in place.

`std::sort` is modelled by `List.insertionSort`: on a total order every sort gives the one sorted
permutation.
-/

namespace Salvium

/-- The loop of `relative_output_offsets_to_absolute`: each entry after the first gets the entry
before it added, `res[i] += res[i-1]`, with `prev` the new value of that entry. -/
def add_previous (prev : UInt64) : List UInt64 → List UInt64
  | [] => []
  | x :: xs => (x + prev) :: add_previous (x + prev) xs

/-- The loop of `absolute_output_offsets_to_relative`: `res[i] -= res[i-1]` for `i` from the last
index down to `1`. Going down, `res[i-1]` is still the sorted value when it is read. -/
def subtract_previous : List UInt64 → List UInt64
  | a :: b :: rest => (b - a) :: subtract_previous (b :: rest)
  | _ => []

/-- `relative_output_offsets_to_absolute(off)`. -/
def relative_output_offsets_to_absolute : List UInt64 → List UInt64
  | [] => []
  | x :: xs => x :: add_previous x xs

/-- `absolute_output_offsets_to_relative(off)`: the empty list comes back as it is; any other is
sorted, keeps its first entry and has the others replaced by their differences. -/
def absolute_output_offsets_to_relative (off : List UInt64) : List UInt64 :=
  match off.insertionSort (· ≤ ·) with
  | [] => []
  | a :: rest => a :: subtract_previous (a :: rest)

/-! ## The two loops undo each other -/

/-- Adding up the differences of `a :: s` from `a` on gives `s` again. -/
theorem add_previous_subtract_previous (a : UInt64) (s : List UInt64) :
    add_previous a (subtract_previous (a :: s)) = s := by
  induction s generalizing a with
  | nil => rfl
  | cons b s ih =>
    show (b - a + a) :: add_previous (b - a + a) (subtract_previous (b :: s)) = b :: s
    rw [UInt64.sub_add_cancel, ih]

/-- The differences of the running sums from `a` are the entries added. -/
theorem subtract_previous_add_previous (a : UInt64) (r : List UInt64) :
    subtract_previous (a :: add_previous a r) = r := by
  induction r generalizing a with
  | nil => rfl
  | cons x r ih =>
    show (x + a - a) :: subtract_previous ((x + a) :: add_previous (x + a) r) = x :: r
    rw [UInt64.add_sub_cancel, ih]

/-- Running sums that do not wrap only grow: from `a`, with every sum below `2 ^ 64`, the list
`a :: add_previous a r` is sorted. -/
theorem pairwise_add_previous (a : UInt64) (r : List UInt64)
    (hsum : a.toNat + (r.map UInt64.toNat).sum < 2 ^ 64) :
    (a :: add_previous a r).Pairwise (· ≤ ·) := by
  induction r generalizing a with
  | nil => exact List.pairwise_singleton _ a
  | cons x r ih =>
    simp only [List.map_cons, List.sum_cons] at hsum
    -- the first sum does not wrap, so it is at least `a` and leaves room for the rest
    have hx : (x + a).toNat = x.toNat + a.toNat := by
      rw [UInt64.toNat_add, Nat.mod_eq_of_lt (by omega)]
    have hle : a ≤ x + a := by
      rw [UInt64.le_iff_toNat_le, hx]
      omega
    have htail := ih (x + a) (by rw [hx]; omega)
    show (a :: (x + a) :: add_previous (x + a) r).Pairwise (· ≤ ·)
    refine List.pairwise_cons.2 ⟨fun z hz => ?_, htail⟩
    rcases List.mem_cons.1 hz with rfl | hz
    · exact hle
    · exact UInt64.le_trans hle (List.rel_of_pairwise_cons htail hz)

/-! ## The round trips -/

/-- **Absolute to relative and back sorts.** For every list of indices the relative offsets add
up to the sorted list. -/
theorem relative_output_offsets_to_absolute_to_relative (v : List UInt64) :
    relative_output_offsets_to_absolute (absolute_output_offsets_to_relative v) =
      v.insertionSort (· ≤ ·) := by
  unfold absolute_output_offsets_to_relative
  split
  · next hs => rw [hs]; rfl
  · next a rest hs =>
    rw [hs, relative_output_offsets_to_absolute, add_previous_subtract_previous]

/-- A sorted list of indices comes back as it is. -/
theorem relative_output_offsets_to_absolute_to_relative_of_sorted {v : List UInt64}
    (hv : v.Pairwise (· ≤ ·)) :
    relative_output_offsets_to_absolute (absolute_output_offsets_to_relative v) = v := by
  rw [relative_output_offsets_to_absolute_to_relative, List.Pairwise.insertionSort_eq hv]

/-- **Relative to absolute and back.** Offsets whose sum stays below `2 ^ 64` come back. -/
theorem absolute_output_offsets_to_relative_to_absolute {r : List UInt64}
    (hsum : (r.map UInt64.toNat).sum < 2 ^ 64) :
    absolute_output_offsets_to_relative (relative_output_offsets_to_absolute r) = r := by
  cases r with
  | nil => rfl
  | cons x r =>
    simp only [List.map_cons, List.sum_cons] at hsum
    have hsorted := pairwise_add_previous x r hsum
    rw [relative_output_offsets_to_absolute, absolute_output_offsets_to_relative,
      List.Pairwise.insertionSort_eq hsorted]
    show x :: subtract_previous (x :: add_previous x r) = x :: r
    rw [subtract_previous_add_previous]

example : relative_output_offsets_to_absolute [5, 0, 3] = [5, 5, 8] := by decide

example : absolute_output_offsets_to_relative [8, 5, 5] = [5, 0, 3] := by decide

/-- The prefix sums of a list stay below a bound when its whole sum does, and conversely. -/
theorem sum_lt_iff_forall_take_sum_lt (r : List ℕ) (b : ℕ) :
    (r.sum < b) ↔ ∀ k, (r.take k).sum < b := by
  constructor
  · intro h k
    exact lt_of_le_of_lt (List.Sublist.sum_le_sum (List.take_sublist k r) (fun _ _ => Nat.zero_le _)) h
  · intro h
    simpa using h r.length

/-- **The two conversions undo each other**: absolute indices come back sorted (so a sorted ring
comes back as it is), and relative offsets whose prefix sums stay below `2 ^ 64` come back. -/
theorem output_offsets_round_trip :
    (∀ v : List UInt64,
      relative_output_offsets_to_absolute (absolute_output_offsets_to_relative v) =
        v.insertionSort (· ≤ ·)) ∧
    (∀ v : List UInt64, v.Pairwise (· ≤ ·) →
      relative_output_offsets_to_absolute (absolute_output_offsets_to_relative v) = v) ∧
    (∀ r : List UInt64, (∀ k, ((r.take k).map UInt64.toNat).sum < 2 ^ 64) →
      absolute_output_offsets_to_relative (relative_output_offsets_to_absolute r) = r) := by
  refine ⟨relative_output_offsets_to_absolute_to_relative,
    fun v hv => relative_output_offsets_to_absolute_to_relative_of_sorted hv, fun r hr => ?_⟩
  apply absolute_output_offsets_to_relative_to_absolute
  rw [sum_lt_iff_forall_take_sum_lt]
  intro k
  rw [← List.map_take]
  exact hr k

end Salvium
