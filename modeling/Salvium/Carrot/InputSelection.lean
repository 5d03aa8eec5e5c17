import Mathlib
import Salvium.Basic

/-!
# Salvium — Carrot input selection: the greedy-aging policy

`ispolicy::select_greedy_aging` (`carrot_impl/input_selection.cpp`) takes the `n_inputs`
inputs of the largest amounts, then walks them from the newest block index down and replaces
each by the oldest unselected input that keeps the sum at the required money. The search for a
replacement starts where `std::lower_bound` stops in `selectable_inputs_by_amount`, a vector of
candidate indices sorted by amount, when asked for the amount `lowest_replacement_amount`: it
compares indices with an amount. Where the search starts then depends on how the index values
lie against that amount, and it may offer an input whose amount is too low.

The walk is kept as the source runs it: a multimap of the selected inputs by block index, and a
reverse iterator into it that stays in place after a replacement, since the replacement's
smaller key is inserted before it. `replace_step` is one turn of the loop and `replace_loop`
runs it; every replacement lowers the sum of the block indices, so the loop ends.

`replace_loop_inv` proves what every run that does not throw keeps: `n_inputs` inputs, all
selectable, of at least the required money. So `select_greedy_aging_spec` holds: a successful
call returns nothing exactly when the largest amounts fall short, and otherwise `n_inputs`
selectable inputs that pay enough. The throw is reachable (`select_greedy_aging_throws`): the
search may start below the amounts that would keep the sum, and the internal check
`"BUG: replaced an input with one of too low amount"` fires.
-/

namespace Salvium

namespace Carrot

/-- `CarrotSelectedInput`, of which the policy reads the amount. -/
structure CarrotSelectedInput where
  amount : UInt64
  deriving DecidableEq, Repr, Inhabited

/-- `InputCandidate`, of which the policy reads the amount and the block index. -/
structure InputCandidate where
  core : CarrotSelectedInput
  block_index : UInt64
  deriving DecidableEq, Repr, Inhabited

/-- A `std::set<std::size_t>` the policy iterates: its elements in increasing order. -/
structure IndexSet where
  elems : List ℕ
  increasing : elems.Pairwise (· < ·)

/-- The amount of candidate `i`. Reading past the candidates is undefined in the source; the
model reads a zero candidate there. -/
def amount_of (input_candidates : List InputCandidate) (i : ℕ) : ℕ :=
  (input_candidates.getD i default).core.amount.toNat

/-! ## The library calls -/

/-- The binary search of `std::lower_bound` with `<`: `count` falls each turn, so `fuel` turns
from `count` on are enough. -/
def lower_bound_loop (v : List ℕ) (value : ℕ) : ℕ → ℕ → ℕ → ℕ
  | 0, first, _ => first
  | fuel + 1, first, count =>
    if count = 0 then first
    else
      let step := count / 2
      let it := first + step
      if v.getD it 0 < value then lower_bound_loop v value fuel (it + 1) (count - (step + 1))
      else lower_bound_loop v value fuel first step

/-- `std::lower_bound(v.cbegin(), v.cend(), value)`, as a position in `v`. -/
def lower_bound (v : List ℕ) (value : ℕ) : ℕ := lower_bound_loop v value v.length 0 v.length

/-- `stable_sort_indices_by_amount`: `std::stable_sort` by amount. Its comparator throws on an
index out of range, and a sort of two or more indices calls it on each of them. A stable sort's
result is determined by the order, and insertion sort computes it. -/
def stable_sort_indices_by_amount (input_candidates : List InputCandidate) (indices : List ℕ) :
    Except String (List ℕ) :=
  if 2 ≤ indices.length ∧ ∃ i ∈ indices, input_candidates.length ≤ i then
    .error "input candidate index out of range"
  else .ok (indices.insertionSort fun a b => amount_of input_candidates a ≤ amount_of input_candidates b)

/-- `std::multimap::emplace` in a list kept in key order: after every entry of a key that is not
greater. -/
def multimap_emplace : List (UInt64 × ℕ) → UInt64 → ℕ → List (UInt64 × ℕ)
  | [], key, value => [(key, value)]
  | entry :: rest, key, value =>
    if entry.1 ≤ key then entry :: multimap_emplace rest key value
    else (key, value) :: entry :: rest

/-- The sum of the keys, the measure of the replacement loop. -/
def block_index_sum (m : List (UInt64 × ℕ)) : ℕ := (m.map fun entry => entry.1.toNat).sum

/-! ## The replacement loop -/

/-- The state of the replacement loop. -/
structure ReplaceState where
  /-- `selected_indices_by_block_index`, in key order. -/
  selected_indices_by_block_index : List (UInt64 × ℕ)
  /-- The reverse iterator `bi_it` as the position of its base: it points at the entry before,
  and is `rend()` at `0`. -/
  bi_it : ℕ
  selected_inputs_indices_out : Finset ℕ
  input_amount_sum : ℕ
  deriving DecidableEq

section

variable (input_candidates : List InputCandidate) (selectable_inputs_by_amount : List ℕ)
  (required_money : ℕ)

/-- The inner loop: the oldest input from the search's start on that is not selected. -/
def find_oldest_replacement (selected : Finset ℕ) :
    List ℕ → UInt64 → ℕ → UInt64 × ℕ
  | [], min_block_index, input => (min_block_index, input)
  | idx :: rest, min_block_index, input =>
    if idx ∈ selected then find_oldest_replacement selected rest min_block_index input
    else if (input_candidates.getD idx default).block_index < min_block_index then
      find_oldest_replacement selected rest (input_candidates.getD idx default).block_index idx
    else find_oldest_replacement selected rest min_block_index input

/-- One turn of the outer loop: `none` once `bi_it` reaches `rend()`. A replacement erases the
entry at `bi_it` and inserts the new one before it, and `bi_it` stays; otherwise it moves on. -/
def replace_step (s : ReplaceState) : Except String (Option ReplaceState) :=
  if s.bi_it = 0 then .ok none
  else
    let (min_block_index, current) :=
      s.selected_indices_by_block_index.getD (s.bi_it - 1) default
    let surplus := s.input_amount_sum - required_money
    let currently_selected_amount := amount_of input_candidates current
    let lowest_replacement_amount :=
      if currently_selected_amount > surplus then currently_selected_amount - surplus else 0
    let lower_amount_it := lower_bound selectable_inputs_by_amount lowest_replacement_amount
    let (min_block_index, input_of_min_block_index_input) :=
      find_oldest_replacement input_candidates s.selected_inputs_indices_out
        (selectable_inputs_by_amount.drop lower_amount_it) min_block_index current
    if input_of_min_block_index_input ≠ current then
      let input_amount_sum := s.input_amount_sum - currently_selected_amount +
        amount_of input_candidates input_of_min_block_index_input
      if input_amount_sum < required_money then
        .error "BUG: replaced an input with one of too low amount"
      else
        .ok (some
          { selected_indices_by_block_index :=
              multimap_emplace (s.selected_indices_by_block_index.eraseIdx (s.bi_it - 1))
                min_block_index input_of_min_block_index_input
            bi_it := s.bi_it
            selected_inputs_indices_out :=
              insert input_of_min_block_index_input (s.selected_inputs_indices_out.erase current)
            input_amount_sum })
    else .ok (some { s with bi_it := s.bi_it - 1 })

/-- The inner loop returns where it started, or an unselected input from the list that is older. -/
theorem find_oldest_replacement_cases (selected : Finset ℕ) :
    ∀ (rest : List ℕ) (min_block_index : UInt64) (input : ℕ),
      find_oldest_replacement input_candidates selected rest min_block_index input =
          (min_block_index, input) ∨
        ((find_oldest_replacement input_candidates selected rest min_block_index input).2 ∈ rest ∧
          (find_oldest_replacement input_candidates selected rest min_block_index input).2 ∉
            selected ∧
          (find_oldest_replacement input_candidates selected rest min_block_index input).1 <
            min_block_index)
  | [], _, _ => Or.inl rfl
  | idx :: rest, min_block_index, input => by
    rw [find_oldest_replacement]
    split_ifs with hsel holder
    · rcases find_oldest_replacement_cases selected rest min_block_index input with h | ⟨hmem, h⟩
      · exact Or.inl h
      · exact Or.inr ⟨List.mem_cons_of_mem idx hmem, h⟩
    · -- `idx` is older: the search goes on from it
      right
      rcases find_oldest_replacement_cases selected rest
          (input_candidates.getD idx default).block_index idx with h | ⟨hmem, hnot, hlt⟩
      · rw [h]
        exact ⟨List.mem_cons_self, hsel, holder⟩
      · exact ⟨List.mem_cons_of_mem idx hmem, hnot, UInt64.lt_trans hlt holder⟩
    · rcases find_oldest_replacement_cases selected rest min_block_index input with h | ⟨hmem, h⟩
      · exact Or.inl h
      · exact Or.inr ⟨List.mem_cons_of_mem idx hmem, h⟩

theorem block_index_sum_multimap_emplace :
    ∀ (m : List (UInt64 × ℕ)) (key : UInt64) (value : ℕ),
      block_index_sum (multimap_emplace m key value) = block_index_sum m + key.toNat
  | [], _, _ => by simp [multimap_emplace, block_index_sum]
  | entry :: rest, key, value => by
    rw [multimap_emplace]
    split_ifs
    · have ih := block_index_sum_multimap_emplace rest key value
      simp only [block_index_sum, List.map_cons, List.sum_cons] at ih ⊢
      omega
    · simp only [block_index_sum, List.map_cons, List.sum_cons]
      omega

theorem block_index_sum_eraseIdx :
    ∀ (m : List (UInt64 × ℕ)) (i : ℕ) (hi : i < m.length),
      block_index_sum (m.eraseIdx i) + (m.get ⟨i, hi⟩).1.toNat = block_index_sum m
  | [], _, hi => absurd hi (Nat.not_lt_zero _)
  | entry :: rest, 0, _ => by
    simp only [List.eraseIdx_cons_zero, block_index_sum, List.map_cons, List.sum_cons,
      List.get_eq_getElem, List.getElem_cons_zero]
    omega
  | entry :: rest, i + 1, hi => by
    have ih := block_index_sum_eraseIdx rest i (by simpa using hi)
    simp only [List.eraseIdx_cons_succ, block_index_sum, List.map_cons, List.sum_cons,
      List.get_eq_getElem, List.getElem_cons_succ] at ih ⊢
    omega

/-- **Every turn of the loop lowers the measure**: a replacement lowers the sum of the block
indices, and a turn without one moves `bi_it` towards `rend()`. -/
theorem replace_step_lex {s s' : ReplaceState}
    (h : replace_step input_candidates selectable_inputs_by_amount required_money s =
      .ok (some s')) :
    Prod.Lex (· < ·) (· < ·)
      (block_index_sum s'.selected_indices_by_block_index, s'.bi_it)
      (block_index_sum s.selected_indices_by_block_index, s.bi_it) := by
  unfold replace_step at h
  split_ifs at h with hend
  · cases h
  rcases hentry : s.selected_indices_by_block_index.getD (s.bi_it - 1) default with
    ⟨min_block_index, current⟩
  rw [hentry] at h
  dsimp only at h
  have hcases := find_oldest_replacement_cases input_candidates s.selected_inputs_indices_out
    (selectable_inputs_by_amount.drop
      (lower_bound selectable_inputs_by_amount
        (if amount_of input_candidates current > s.input_amount_sum - required_money then
          amount_of input_candidates current - (s.input_amount_sum - required_money) else 0)))
    min_block_index current
  generalize find_oldest_replacement _ _ _ _ _ = found at hcases h
  rcases found with ⟨new_block_index, replacement⟩
  dsimp only at h hcases
  split_ifs at h with hne hlow
  · -- a replacement: its block index is below the one it replaces
    cases h
    have hlt : new_block_index < min_block_index := by
      rcases hcases with heq | ⟨-, -, hlt⟩
      · exact absurd (Prod.mk.inj heq).2 hne
      · exact hlt
    apply Prod.Lex.left
    by_cases hin : s.bi_it - 1 < s.selected_indices_by_block_index.length
    · have herase := block_index_sum_eraseIdx s.selected_indices_by_block_index (s.bi_it - 1) hin
      rw [List.getD_eq_getElem _ _ hin] at hentry
      simp only [List.get_eq_getElem, hentry] at herase
      rw [block_index_sum_multimap_emplace]
      rw [UInt64.lt_iff_toNat_lt] at hlt
      omega
    · -- past the entries the key read is the default `0`, below which nothing is
      rw [List.getD_eq_default _ _ (not_lt.mp hin)] at hentry
      cases hentry
      exact (UInt64.not_lt_zero hlt).elim
  · -- no replacement: `bi_it` moves on
    cases h
    exact Prod.Lex.right _ (show s.bi_it - 1 < s.bi_it by omega)

-- `h` is read by `decreasing_by` only
set_option linter.unusedVariables false in
/-- `replace_step` run to the end. -/
def replace_loop (s : ReplaceState) : Except String (Finset ℕ) :=
  match h : replace_step input_candidates selectable_inputs_by_amount required_money s with
  | .error e => .error e
  | .ok none => .ok s.selected_inputs_indices_out
  | .ok (some s') => replace_loop s'
termination_by (block_index_sum s.selected_indices_by_block_index, s.bi_it)
decreasing_by exact replace_step_lex input_candidates selectable_inputs_by_amount required_money h

end

/-- The first loop: the `n_inputs` last indices of `selectable_inputs_by_amount`, from the last
on, summed, selected and put in the multimap by block index. -/
def select_highest (input_candidates : List InputCandidate) (selectable_inputs_by_amount : List ℕ)
    (n_inputs : ℕ) : ReplaceState :=
  let highest := selectable_inputs_by_amount.reverse.take n_inputs
  { selected_indices_by_block_index := highest.foldl
      (fun m i => multimap_emplace m (input_candidates.getD i default).block_index i) []
    bi_it := n_inputs
    selected_inputs_indices_out := highest.toFinset
    input_amount_sum := (highest.map (amount_of input_candidates)).sum }

/-- `ispolicy::select_greedy_aging`. The two `CHECK_AND_ASSERT_MES` return with the selection
cleared; the sum is a `uint128_t`, which no sum of 64-bit amounts here overflows. -/
def select_greedy_aging (input_candidates : List InputCandidate) (selectable_inputs : IndexSet)
    (n_inputs : ℕ) (required_money : ℕ) : Except String (Finset ℕ) :=
  if n_inputs = 0 then .ok ∅
  else if selectable_inputs.elems.length < n_inputs then .ok ∅
  else do
    let selectable_inputs_by_amount ←
      stable_sort_indices_by_amount input_candidates selectable_inputs.elems
    let s := select_highest input_candidates selectable_inputs_by_amount n_inputs
    if s.input_amount_sum < required_money then .ok ∅
    else replace_loop input_candidates selectable_inputs_by_amount required_money s

/-! ## What a run keeps -/

theorem multimap_emplace_perm :
    ∀ (m : List (UInt64 × ℕ)) (key : UInt64) (value : ℕ),
      (multimap_emplace m key value).Perm ((key, value) :: m)
  | [], _, _ => List.Perm.refl _
  | entry :: rest, key, value => by
    rw [multimap_emplace]
    split_ifs
    · exact ((multimap_emplace_perm rest key value).cons entry).trans (List.Perm.swap _ _ _)
    · exact List.Perm.refl _

/-- The first loop puts each of the highest inputs in the multimap once. -/
theorem foldl_multimap_emplace_perm (key : ℕ → UInt64) :
    ∀ (highest : List ℕ) (m : List (UInt64 × ℕ)),
      ((highest.foldl (fun m i => multimap_emplace m (key i) i) m).map Prod.snd).Perm
        (highest.reverse ++ m.map Prod.snd)
  | [], _ => by simp
  | i :: rest, m => by
    rw [List.foldl_cons, List.reverse_cons, List.append_assoc, List.singleton_append]
    refine (foldl_multimap_emplace_perm key rest _).trans (List.Perm.append_left _ ?_)
    simpa using (multimap_emplace_perm m (key i) i).map Prod.snd

section

variable (input_candidates : List InputCandidate) (selectable_inputs_by_amount : List ℕ)
  (required_money : ℕ)

/-- What the replacement loop keeps: `n_inputs` selectable inputs, each once in the multimap,
summed in `input_amount_sum`, which pays the required money. -/
structure ReplaceInv (n_inputs : ℕ) (s : ReplaceState) : Prop where
  card : s.selected_inputs_indices_out.card = n_inputs
  selectable : ∀ i ∈ s.selected_inputs_indices_out, i ∈ selectable_inputs_by_amount
  entries : ((s.selected_indices_by_block_index.map Prod.snd : List ℕ) : Multiset ℕ) =
    s.selected_inputs_indices_out.val
  sum : s.input_amount_sum = ∑ i ∈ s.selected_inputs_indices_out, amount_of input_candidates i
  enough : required_money ≤ s.input_amount_sum

/-- **One turn keeps the invariant**: a replacement trades a selected input for an unselected,
selectable one, and the sum the source checks is the new selection's. -/
theorem ReplaceInv.step {n_inputs : ℕ} {s s' : ReplaceState}
    (hinv : ReplaceInv input_candidates selectable_inputs_by_amount required_money n_inputs s)
    (h : replace_step input_candidates selectable_inputs_by_amount required_money s =
      .ok (some s')) :
    ReplaceInv input_candidates selectable_inputs_by_amount required_money n_inputs s' := by
  unfold replace_step at h
  split_ifs at h with hend
  · cases h
  rcases hentry : s.selected_indices_by_block_index.getD (s.bi_it - 1) default with
    ⟨min_block_index, current⟩
  rw [hentry] at h
  dsimp only at h
  have hcases := find_oldest_replacement_cases input_candidates s.selected_inputs_indices_out
    (selectable_inputs_by_amount.drop
      (lower_bound selectable_inputs_by_amount
        (if amount_of input_candidates current > s.input_amount_sum - required_money then
          amount_of input_candidates current - (s.input_amount_sum - required_money) else 0)))
    min_block_index current
  generalize find_oldest_replacement _ _ _ _ _ = found at hcases h
  rcases found with ⟨new_block_index, replacement⟩
  dsimp only at h hcases
  split_ifs at h with hne hlow
  · cases h
    obtain ⟨hmem, hfresh, hlt⟩ : replacement ∈ selectable_inputs_by_amount.drop _ ∧
        replacement ∉ s.selected_inputs_indices_out ∧ new_block_index < min_block_index := by
      rcases hcases with heq | hfound
      · exact absurd (Prod.mk.inj heq).2 hne
      · exact hfound
    -- the entry replaced is in the multimap, so it is selected
    have hin : s.bi_it - 1 < s.selected_indices_by_block_index.length := by
      by_contra hout
      rw [List.getD_eq_default _ _ (not_lt.mp hout)] at hentry
      cases hentry
      exact (UInt64.not_lt_zero hlt).elim
    rw [List.getD_eq_getElem _ _ hin] at hentry
    have hperm := List.getElem_cons_eraseIdx_perm hin
    rw [hentry] at hperm
    have hcur : current ∈ s.selected_inputs_indices_out := by
      rw [← Finset.mem_val, ← hinv.entries, Multiset.mem_coe]
      exact List.mem_map.mpr ⟨_, hperm.mem_iff.mp List.mem_cons_self, rfl⟩
    have hfresh' : replacement ∉ s.selected_inputs_indices_out.erase current :=
      fun h => hfresh (Finset.mem_of_mem_erase h)
    have hle : amount_of input_candidates current ≤ s.input_amount_sum := by
      rw [hinv.sum]
      exact Finset.single_le_sum (fun _ _ => Nat.zero_le _) hcur
    refine ⟨?_, ?_, ?_, ?_, not_lt.mp hlow⟩
    · rw [Finset.card_insert_of_notMem hfresh', Finset.card_erase_of_mem hcur]
      have hpos := Finset.card_pos.mpr ⟨current, hcur⟩
      have hcard := hinv.card
      omega
    · intro i hi
      rcases Finset.mem_insert.mp hi with rfl | hi
      · exact List.mem_of_mem_drop hmem
      · exact hinv.selectable i (Finset.mem_of_mem_erase hi)
    · -- the multimap trades the entry for the replacement as the selection does
      rw [Finset.insert_val_of_notMem hfresh', Finset.erase_val, ← hinv.entries]
      have hmap : (List.map Prod.snd (multimap_emplace
            (s.selected_indices_by_block_index.eraseIdx (s.bi_it - 1)) new_block_index
              replacement)).Perm
          (replacement :: (s.selected_indices_by_block_index.eraseIdx (s.bi_it - 1)).map
            Prod.snd) := by
        simpa using (multimap_emplace_perm
          (s.selected_indices_by_block_index.eraseIdx (s.bi_it - 1)) new_block_index
            replacement).map Prod.snd
      have hcons : (s.selected_indices_by_block_index.map Prod.snd).Perm
          (current :: (s.selected_indices_by_block_index.eraseIdx (s.bi_it - 1)).map Prod.snd) := by
        simpa using (hperm.map Prod.snd).symm
      rw [Multiset.coe_eq_coe.mpr hmap, Multiset.coe_eq_coe.mpr hcons, ← Multiset.cons_coe,
        ← Multiset.cons_coe, Multiset.erase_cons_head]
    · show s.input_amount_sum - amount_of input_candidates current +
          amount_of input_candidates replacement = _
      rw [Finset.sum_insert hfresh']
      have hsplit := Finset.sum_erase_add _ (amount_of input_candidates) hcur
      have hsum := hinv.sum
      omega
  · cases h
    exact ⟨hinv.card, hinv.selectable, hinv.entries, hinv.sum, hinv.enough⟩

/-- A turn that goes on leaves the rest of the run to the state it returns. -/
theorem replace_loop_of_step {s s' : ReplaceState}
    (hstep : replace_step input_candidates selectable_inputs_by_amount required_money s =
      .ok (some s')) :
    replace_loop input_candidates selectable_inputs_by_amount required_money s =
      replace_loop input_candidates selectable_inputs_by_amount required_money s' := by
  rw [replace_loop, hstep]

/-- The turn that finds nothing more to replace returns the selection. -/
theorem replace_loop_of_done {s : ReplaceState}
    (hstep : replace_step input_candidates selectable_inputs_by_amount required_money s = .ok none) :
    replace_loop input_candidates selectable_inputs_by_amount required_money s =
      .ok s.selected_inputs_indices_out := by
  rw [replace_loop, hstep]

/-- **A run that does not throw ends with `n_inputs` selectable inputs that pay enough.** -/
theorem replace_loop_inv {n_inputs : ℕ} :
    ∀ (s : ReplaceState) {selected : Finset ℕ},
      ReplaceInv input_candidates selectable_inputs_by_amount required_money n_inputs s →
      replace_loop input_candidates selectable_inputs_by_amount required_money s = .ok selected →
      selected.card = n_inputs ∧ (∀ i ∈ selected, i ∈ selectable_inputs_by_amount) ∧
        required_money ≤ ∑ i ∈ selected, amount_of input_candidates i := by
  intro s
  induction s using replace_loop.induct input_candidates selectable_inputs_by_amount
    required_money with
  | case1 s e hstep =>
    intro selected _ hrun
    rw [replace_loop, hstep] at hrun
    cases hrun
  | case2 s hstep =>
    intro selected hinv hrun
    rw [replace_loop_of_done _ _ _ hstep] at hrun
    cases hrun
    exact ⟨hinv.card, hinv.selectable, hinv.sum ▸ hinv.enough⟩
  | case3 s s' hstep ih =>
    intro selected hinv hrun
    rw [replace_loop_of_step _ _ _ hstep] at hrun
    exact ih (hinv.step input_candidates selectable_inputs_by_amount required_money hstep) hrun

end

theorem stable_sort_indices_by_amount_perm {input_candidates : List InputCandidate}
    {indices sorted : List ℕ} (h : stable_sort_indices_by_amount input_candidates indices = .ok sorted) :
    sorted.Perm indices := by
  unfold stable_sort_indices_by_amount at h
  split_ifs at h
  cases h
  exact List.perm_insertionSort _ _

/-- The first loop starts the invariant: its inputs are the last `n_inputs` of a list of distinct
indices, once each in the multimap. -/
theorem ReplaceInv.select_highest {input_candidates : List InputCandidate}
    {selectable_inputs_by_amount : List ℕ} {required_money n_inputs : ℕ}
    (hnodup : selectable_inputs_by_amount.Nodup)
    (hn : n_inputs ≤ selectable_inputs_by_amount.length)
    (henough : required_money ≤
      (select_highest input_candidates selectable_inputs_by_amount n_inputs).input_amount_sum) :
    ReplaceInv input_candidates selectable_inputs_by_amount required_money n_inputs
      (select_highest input_candidates selectable_inputs_by_amount n_inputs) := by
  have hnd : (selectable_inputs_by_amount.reverse.take n_inputs).Nodup :=
    (List.nodup_reverse.mpr hnodup).sublist (List.take_sublist _ _)
  refine ⟨?_, ?_, ?_, ?_, henough⟩
  · show (selectable_inputs_by_amount.reverse.take n_inputs).toFinset.card = n_inputs
    rw [List.toFinset_card_of_nodup hnd, List.length_take, List.length_reverse]
    omega
  · intro i hi
    have hmem : i ∈ selectable_inputs_by_amount.reverse.take n_inputs := List.mem_toFinset.mp hi
    exact List.mem_reverse.mp (List.mem_of_mem_take hmem)
  · show (((selectable_inputs_by_amount.reverse.take n_inputs).foldl
        (fun m i => multimap_emplace m (input_candidates.getD i default).block_index i) []).map
          Prod.snd : Multiset ℕ) = (selectable_inputs_by_amount.reverse.take n_inputs).toFinset.val
    rw [List.toFinset_val, hnd.dedup, Multiset.coe_eq_coe]
    have hperm := foldl_multimap_emplace_perm
      (fun i => (input_candidates.getD i default).block_index)
      (selectable_inputs_by_amount.reverse.take n_inputs) []
    rw [List.map_nil, List.append_nil] at hperm
    exact hperm.trans (List.reverse_perm _)
  · exact (List.sum_toFinset _ hnd).symm

/-- **What a successful call returns**: nothing, exactly when the `n_inputs` largest amounts
fall short of the required money, and otherwise `n_inputs` selectable inputs that pay it. -/
theorem select_greedy_aging_spec {input_candidates : List InputCandidate}
    {selectable_inputs : IndexSet} {n_inputs required_money : ℕ} {selected : Finset ℕ}
    (hn : 0 < n_inputs) (hS : n_inputs ≤ selectable_inputs.elems.length)
    (h : select_greedy_aging input_candidates selectable_inputs n_inputs required_money =
      .ok selected) :
    ∃ selectable_inputs_by_amount,
      stable_sort_indices_by_amount input_candidates selectable_inputs.elems =
          .ok selectable_inputs_by_amount ∧
        ((selected = ∅ ∧ (select_highest input_candidates selectable_inputs_by_amount
            n_inputs).input_amount_sum < required_money) ∨
          (selected.card = n_inputs ∧ (∀ i ∈ selected, i ∈ selectable_inputs.elems) ∧
            required_money ≤ ∑ i ∈ selected, amount_of input_candidates i)) := by
  rw [select_greedy_aging, if_neg (by omega), if_neg (by omega)] at h
  rcases hsort : stable_sort_indices_by_amount input_candidates selectable_inputs.elems with
    e | sorted
  · rw [hsort] at h
    cases h
  rw [hsort] at h
  dsimp only [bind, Except.bind] at h
  have hperm := stable_sort_indices_by_amount_perm hsort
  refine ⟨sorted, rfl, ?_⟩
  split_ifs at h with hlow
  · cases h
    exact Or.inl ⟨rfl, hlow⟩
  · -- the replacement loop runs from the highest amounts
    right
    have hnodup : sorted.Nodup :=
      hperm.nodup_iff.mpr (selectable_inputs.increasing.imp fun hlt => ne_of_lt hlt)
    obtain ⟨hcard, hsel, hsum⟩ := replace_loop_inv input_candidates sorted required_money _
      (ReplaceInv.select_highest hnodup (by rw [hperm.length_eq]; exact hS) (not_lt.mp hlow)) h
    exact ⟨hcard, fun i hi => hperm.mem_iff.mp (hsel i hi), hsum⟩

/-- Three candidates: `0` and `1` have the largest amounts and recent blocks, `2` a smaller
amount from block `1`. -/
def aging_candidates : List InputCandidate := [⟨⟨10⟩, 9⟩, ⟨⟨9⟩, 8⟩, ⟨⟨8⟩, 1⟩]

/-- Two of the three inputs to pay `5`: the first loop takes `0` and `1`, and the replacement
loop swaps the newest, `0`, for the older `2`, then keeps `1` and `2`. -/
theorem select_greedy_aging_spec_older :
    select_greedy_aging aging_candidates ⟨[0, 1, 2], by decide⟩ 2 5 = .ok {1, 2} ∧
      ∃ selectable_inputs_by_amount,
        stable_sort_indices_by_amount aging_candidates [0, 1, 2] = .ok selectable_inputs_by_amount ∧
          ((({1, 2} : Finset ℕ) = ∅ ∧
              (select_highest aging_candidates selectable_inputs_by_amount 2).input_amount_sum < 5) ∨
            (({1, 2} : Finset ℕ).card = 2 ∧ (∀ i ∈ ({1, 2} : Finset ℕ), i ∈ [0, 1, 2]) ∧
              5 ≤ ∑ i ∈ ({1, 2} : Finset ℕ), amount_of aging_candidates i)) := by
  have hsort : stable_sort_indices_by_amount aging_candidates [0, 1, 2] = .ok [2, 1, 0] := by
    decide
  have hhigh : select_highest aging_candidates [2, 1, 0] 2 = ⟨[(8, 1), (9, 0)], 2, {0, 1}, 19⟩ := by
    decide
  -- the replacement, then two turns that keep the input, then the end of the multimap
  have hstep₁ : replace_step aging_candidates [2, 1, 0] 5 ⟨[(8, 1), (9, 0)], 2, {0, 1}, 19⟩ =
      .ok (some ⟨[(1, 2), (8, 1)], 2, {2, 1}, 17⟩) := by
    decide
  have hstep₂ : replace_step aging_candidates [2, 1, 0] 5 ⟨[(1, 2), (8, 1)], 2, {2, 1}, 17⟩ =
      .ok (some ⟨[(1, 2), (8, 1)], 1, {2, 1}, 17⟩) := by
    decide
  have hstep₃ : replace_step aging_candidates [2, 1, 0] 5 ⟨[(1, 2), (8, 1)], 1, {2, 1}, 17⟩ =
      .ok (some ⟨[(1, 2), (8, 1)], 0, {2, 1}, 17⟩) := by
    decide
  have hstep₄ : replace_step aging_candidates [2, 1, 0] 5 ⟨[(1, 2), (8, 1)], 0, {2, 1}, 17⟩ =
      .ok none := by
    decide
  have h : select_greedy_aging aging_candidates ⟨[0, 1, 2], by decide⟩ 2 5 = .ok {1, 2} := by
    rw [select_greedy_aging, if_neg (by decide), if_neg (by decide)]
    dsimp only
    rw [hsort]
    dsimp only [bind, Except.bind]
    rw [hhigh, if_neg (by decide), replace_loop_of_step _ _ _ hstep₁,
      replace_loop_of_step _ _ _ hstep₂, replace_loop_of_step _ _ _ hstep₃,
      replace_loop_of_done _ _ _ hstep₄]
    -- the loop inserted `2` before `1`
    exact congrArg Except.ok (Finset.pair_comm 2 1)
  exact ⟨h, select_greedy_aging_spec (by decide) (by decide) h⟩

/-- The candidates of `select_greedy_aging_throws`: the selectable ones are `0`, the largest,
and the older `5` and `6`, whose amounts `1` and `2` cannot stand in for it. -/
def throwing_candidates : List InputCandidate :=
  [⟨⟨10⟩, 9⟩, ⟨⟨0⟩, 0⟩, ⟨⟨0⟩, 0⟩, ⟨⟨0⟩, 0⟩, ⟨⟨0⟩, 0⟩, ⟨⟨1⟩, 0⟩, ⟨⟨2⟩, 5⟩]

theorem select_greedy_aging_throws :
    select_greedy_aging throwing_candidates ⟨[0, 5, 6], by decide⟩ 1 3 =
      .error "BUG: replaced an input with one of too low amount" := by
  have hsort : stable_sort_indices_by_amount throwing_candidates [0, 5, 6] = .ok [5, 6, 0] := by
    decide
  have hhigh : select_highest throwing_candidates [5, 6, 0] 1 = ⟨[(9, 0)], 1, {0}, 10⟩ := by
    decide
  have hstep : replace_step throwing_candidates [5, 6, 0] 3 ⟨[(9, 0)], 1, {0}, 10⟩ =
      .error "BUG: replaced an input with one of too low amount" := by
    decide
  rw [select_greedy_aging, if_neg (by decide), if_neg (by decide)]
  dsimp only
  rw [hsort]
  dsimp only [bind, Except.bind]
  rw [hhigh, if_neg (by decide), replace_loop]
  -- the first turn replaces `0` by `5` and falls short of the required money
  split <;> rename_i hturn <;> rw [hstep] at hturn <;> cases hturn
  rfl

end Carrot

end Salvium
