import Mathlib
import Salvium.Chain.HardFork

/-!
# Salvium — reorganizing the hard-fork state replays the chain

`reorganize_from_block_height(height)` throws the voting window away, walks the fork index down
to the version the database recorded for the block at `height`, rebuilds the window from the
blocks that end at `height`, and hands every later block to `add` again. On an object that added
its chain block by block this is meant to change nothing. Three facts carry it:

* `add` never reads the database (`add_with_db`), so the replay runs as the first adds did, and
  it writes back the versions already recorded (`add_block_with_db_of_recorded`);
* after `k` accepted blocks the window holds the last `window_size` effective votes among them
  (`versions_add_blocks_take`), which is what the rescan collects;
* the fork index only rises and versions rise strictly along the schedule, so the walk down
  stops at the index in force when the block at `height` was added (`lower_fork_index_eq`). At
  height 0 it walks down to `original_version` instead, and stops at fork 0 only when that
  version is not above the first fork's.

`AddedChain` are the objects a node builds so, and `ChainInv` what such an object knows of its
past. `reorganize_from_block_height_of_added` is the result;
`reorganize_from_block_height_original_version` is a chain where the proviso fails and the
rebuilt window differs.
-/

namespace Salvium

open Histogram

theorem BlockchainDB.set_hard_fork_version_of_get {db : BlockchainDB} {height : UInt64}
    {version : UInt8} (h : db.get_hard_fork_version height = some version) :
    db.set_hard_fork_version height version = db := by
  unfold BlockchainDB.set_hard_fork_version
  rw [Function.update_eq_self_iff.mpr h.symm]

@[simp]
theorem BlockchainDB.blocks_set_hard_fork_version (db : BlockchainDB) (height : UInt64)
    (version : UInt8) : (db.set_hard_fork_version height version).blocks = db.blocks :=
  rfl

@[simp]
theorem BlockchainDB.blocks_add_block (db : BlockchainDB) (b : block)
    (h : db.blocks.length + 1 < 2 ^ 64) : (db.add_block b h).blocks = db.blocks ++ [b] :=
  rfl

namespace HardForkState

attribute [ext] HardForkState

/-! ## `add` does not read the database -/

theorem add_fst (s : HardForkState) (block_version voting_version : UInt8) (height : UInt64) :
    (s.add block_version voting_version height).1 = s.do_check block_version voting_version := by
  by_cases hc : s.do_check block_version voting_version = true
  · rw [add_of_check s hc, hc]
  · rw [add_of_not_check s (Bool.eq_false_iff.mpr hc), Bool.eq_false_iff.mpr hc]

/-- On another database `add` answers and moves the window the same way, and writes the same
version. -/
theorem add_with_db (s : HardForkState) (d : BlockchainDB) (block_version voting_version : UInt8)
    (height : UInt64) :
    ({ s with db := d } : HardForkState).add block_version voting_version height =
      ((s.add block_version voting_version height).1,
        { (s.add block_version voting_version height).2 with
          db := if s.do_check block_version voting_version then
              d.set_hard_fork_version height s.get_current_version
            else d }) := by
  by_cases hc : s.do_check block_version voting_version = true
  · have hc' : ({ s with db := d } : HardForkState).do_check block_version voting_version = true :=
      hc
    rw [add_of_check _ hc', add_of_check s hc, if_pos hc, raise_to_voted_eq, raise_to_voted_eq]
    rfl
  · have hc' : ({ s with db := d } : HardForkState).do_check block_version voting_version = false :=
      Bool.eq_false_iff.mpr hc
    rw [add_of_not_check _ hc', add_of_not_check s (Bool.eq_false_iff.mpr hc), if_neg hc]

/-- An accepted block replayed on a database that already records its version writes nothing
new. -/
theorem add_block_with_db_of_recorded {s : HardForkState} {d : BlockchainDB} {b : block}
    {height : UInt64} (hok : (s.add_block b height).1 = true)
    (hrec : d.get_hard_fork_version height = some s.get_current_version) :
    (({ s with db := d } : HardForkState).add_block b height).2 =
      { (s.add_block b height).2 with db := d } := by
  have hc : s.do_check (get_block_version b) (get_block_vote b) = true :=
    (add_fst s _ _ height).symm.trans hok
  show (({ s with db := d } : HardForkState).add _ _ height).2 = _
  rw [add_with_db, if_pos hc, BlockchainDB.set_hard_fork_version_of_get hrec]
  rfl

theorem raise_to_voted_with_db (s : HardForkState) (d : BlockchainDB) (height : UInt64) :
    ({ s with db := d } : HardForkState).raise_to_voted height =
      { s.raise_to_voted height with db := d } := by
  rw [raise_to_voted_eq, raise_to_voted_eq]
  rfl

/-! ## The loop that re-adds blocks -/

theorem add_blocks_append (s : HardForkState) (l₁ l₂ : List (block × ℕ)) :
    s.add_blocks (l₁ ++ l₂) = (s.add_blocks l₁).add_blocks l₂ := by
  induction l₁ generalizing s with
  | nil => rfl
  | cons p l₁ ih =>
    obtain ⟨b, h⟩ := p
    exact ih _

theorem add_blocks_with_db (s : HardForkState) (d : BlockchainDB) (l : List (block × ℕ)) :
    ∃ d', ({ s with db := d } : HardForkState).add_blocks l = { s.add_blocks l with db := d' } := by
  induction l generalizing s d with
  | nil => exact ⟨d, rfl⟩
  | cons p l ih =>
    obtain ⟨b, h⟩ := p
    obtain ⟨d', hd'⟩ := ih (s.add_block b (UInt64.ofNat h)).2
      (if s.do_check (get_block_version b) (get_block_vote b) then
        d.set_hard_fork_version (UInt64.ofNat h) s.get_current_version else d)
    refine ⟨d', ?_⟩
    show (({ s with db := d } : HardForkState).add _ _ (UInt64.ofNat h)).2.add_blocks l = _
    rw [add_with_db]
    exact hd'

theorem add_blocks_schedule (s : HardForkState) (l : List (block × ℕ)) :
    (s.add_blocks l).schedule = s.schedule ∧ (s.add_blocks l).window_size = s.window_size ∧
      (s.add_blocks l).default_threshold_percent = s.default_threshold_percent := by
  induction l generalizing s with
  | nil => exact ⟨rfl, rfl, rfl⟩
  | cons p l ih =>
    obtain ⟨b, h⟩ := p
    have hrest := ih (s.add_block b (UInt64.ofNat h)).2
    have hstep := s.add_schedule (get_block_version b) (get_block_vote b) (UInt64.ofNat h)
    exact ⟨hrest.1.trans hstep.1, hrest.2.1.trans hstep.2.1, hrest.2.2.trans hstep.2.2⟩

theorem add_blocks_fork_index_le (s : HardForkState) (l : List (block × ℕ)) :
    s.current_fork_index ≤ (s.add_blocks l).current_fork_index := by
  induction l generalizing s with
  | nil => exact le_rfl
  | cons p l ih =>
    obtain ⟨b, h⟩ := p
    exact le_trans (add_fork_index_le _ _ _) (ih _)

theorem add_blocks_take_succ (s : HardForkState) {bs : List block} {k : ℕ} (hk : k < bs.length) :
    s.add_blocks (bs.take (k + 1)).zipIdx =
      ((s.add_blocks (bs.take k).zipIdx).add_block bs[k] (UInt64.ofNat k)).2 := by
  rw [List.take_succ_eq_append_getElem hk, List.zipIdx_append, add_blocks_append, List.length_take,
    min_eq_left hk.le, Nat.zero_add]
  rfl

/-- The states along a chain `bs` lead from the one at `m` to the one at `m + j` by the blocks in
between. -/
theorem add_blocks_take_add (s : HardForkState) {bs : List block} {m : ℕ} (hm : m ≤ bs.length)
    (j : ℕ) :
    s.add_blocks (bs.take (m + j)).zipIdx =
      (s.add_blocks (bs.take m).zipIdx).add_blocks (((bs.drop m).take j).zipIdx m) := by
  rw [List.take_add, List.zipIdx_append, add_blocks_append, List.length_take, min_eq_left hm,
    Nat.zero_add]

theorem get_effective_version_eq_of_schedule {s t : HardForkState} (h : s.schedule = t.schedule) :
    s.get_effective_version = t.get_effective_version := by
  funext v
  unfold get_effective_version max_version heights
  rw [h]

theorem version_lt_of_lt (s : HardForkState) {j k : ℕ} (hjk : j < k) (hk : k < s.heights.length) :
    (s.heights.getD j default).version < (s.heights.getD k default).version := by
  rw [List.getD_eq_getElem _ _ (lt_trans hjk hk), List.getD_eq_getElem _ _ hk]
  exact (List.pairwise_iff_getElem.mp s.schedule.heights_sorted j k (lt_trans hjk hk) hk hjk).1

/-! ## The window after accepted blocks -/

/-- The loop of `add` keeps the newest `window_size - 1` votes. -/
theorem trim_window_fst {window_size : UInt64} (hw : 0 < window_size) :
    ∀ (versions : List UInt8) (last_versions : UInt8 → UInt32),
      (trim_window window_size versions last_versions).1 =
        versions.drop (versions.length + 1 - window_size.toNat)
  | [], _ => List.drop_nil.symm
  | v :: vs, last_versions => by
    have hw0 : 0 < window_size.toNat := UInt64.lt_iff_toNat_lt.mp hw
    rw [trim_window, List.length_cons]
    split_ifs with hlen
    · -- the oldest vote leaves, and the loop goes on with the others
      rw [trim_window_fst hw vs, show vs.length + 1 + 1 - window_size.toNat =
        (vs.length + 1 - window_size.toNat) + 1 by omega, List.drop_succ_cons]
    · rw [show vs.length + 1 + 1 - window_size.toNat = 0 by omega, List.drop_zero]

theorem add_versions_of_check {s : HardForkState} {block_version voting_version : UInt8}
    (hc : s.do_check block_version voting_version = true) (height : UInt64) :
    (s.add block_version voting_version height).2.versions =
      (trim_window s.window_size s.versions s.last_versions).1 ++
        [s.get_effective_version voting_version] := by
  rw [add_of_check s hc, raise_to_voted_eq]
  rfl

/-- The database with no block and no recorded version. -/
def empty_db : BlockchainDB := ⟨[], fun _ => none, Nat.two_pow_pos 64⟩

/-- From an empty window at a valid fork index the counts track the window and the fork index
stays valid through any blocks, whatever the database holds: the invariant holds on the empty
database, and the voting state does not depend on it. -/
theorem tracks_add_blocks {s : HardForkState} (hv : s.versions = [])
    (hlv : s.last_versions = fun _ => 0) (hcfi : s.current_fork_index < s.heights.length)
    (l : List (block × ℕ)) :
    Tracks (s.add_blocks l).last_versions (s.add_blocks l).versions ∧
      (s.add_blocks l).current_fork_index < (s.add_blocks l).heights.length := by
  have hstart : ({ s with db := empty_db } : HardForkState).Inv :=
    { window_le := by
        show s.versions.length ≤ s.window_size.toNat
        rw [hv]
        exact Nat.zero_le _
      tracks := by
        show Tracks s.last_versions s.versions
        rw [hv, hlv]
        exact tracks_nil
      votes_le := by
        intro v hmem
        rw [show ({ s with db := empty_db } : HardForkState).versions = [] from hv] at hmem
        exact absurd hmem List.not_mem_nil
      fork_index_lt := hcfi
      recorded_le := fun _ _ hget => by cases hget }
  obtain ⟨d, hd⟩ := add_blocks_with_db s empty_db l
  have hi := hstart.add_blocks l
  rw [hd] at hi
  exact ⟨hi.tracks, hi.fork_index_lt⟩

/-- The walk down of `reorganize_from_block_height` from `i` stops at `j` when every fork above
`j` up to `i` is above `start_version`, and `j` is not (or is the first fork). -/
theorem lower_fork_index_eq (s : HardForkState) (start_version : UInt8) {j : ℕ} :
    ∀ i, j ≤ i → (j = 0 ∨ (s.heights.getD j default).version ≤ start_version) →
      (∀ k, j < k → k ≤ i → start_version < (s.heights.getD k default).version) →
      s.lower_fork_index start_version i = j
  | 0, hji, _, _ => (Nat.le_zero.mp hji).symm
  | i + 1, hji, hj, habove => by
    rw [lower_fork_index]
    split_ifs with hgt
    · -- the fork at `i + 1` is above the version, so `j` lies further down
      have hji' : j ≤ i := by
        rcases Nat.lt_or_eq_of_le hji with hlt | heq
        · exact Nat.le_of_lt_succ hlt
        · subst heq
          rcases hj with h0 | hle
          · exact absurd h0 (Nat.succ_ne_zero i)
          · exact absurd hgt (UInt8.not_lt.mpr hle)
      exact lower_fork_index_eq s start_version i hji' hj
        fun k hjk hki => habove k hjk (Nat.le_succ_of_le hki)
    · -- the fork at `i + 1` is not above the version, so it is `j`
      by_contra hne
      exact hgt (habove (i + 1) (by omega) le_rfl)

theorem toNat_reorganize_rescan_height {window_size : UInt64} (hw : 0 < window_size)
    (height : UInt64) :
    (reorganize_rescan_height window_size height).toNat = height.toNat + 1 - window_size.toNat := by
  have hw1 := toNat_window_size_sub_one hw
  have hw0 : 0 < window_size.toNat := UInt64.lt_iff_toNat_lt.mp hw
  unfold reorganize_rescan_height
  split_ifs with h
  · have hle := UInt64.le_iff_toNat_le.mp h
    rw [UInt64.toNat_sub_of_le _ _ h, hw1]
    omega
  · have hlt : height.toNat < window_size.toNat - 1 := by
      rw [← hw1]
      exact Nat.lt_of_not_le fun hle => h (UInt64.le_iff_toNat_le.mpr hle)
    rw [UInt64.toNat_zero]
    omega

theorem lower_fork_index_clear_window (s : HardForkState) :
    s.clear_window.lower_fork_index = s.lower_fork_index := by
  funext start_version i
  induction i with
  | zero => rfl
  | succ i ih =>
    rw [lower_fork_index, lower_fork_index, ih]
    rfl

section Chain

variable {s₀ : HardForkState} {bs : List block}

/-- After the first `k` blocks of `bs`, all accepted, from an empty window, the window holds the
last `window_size` of their effective votes. -/
theorem versions_add_blocks_take (hv : s₀.versions = [])
    (haccepted : ∀ k (hk : k < bs.length),
      ((s₀.add_blocks (bs.take k).zipIdx).add_block bs[k] (UInt64.ofNat k)).1 = true) :
    ∀ k ≤ bs.length, (s₀.add_blocks (bs.take k).zipIdx).versions =
      ((bs.take k).map fun b => s₀.get_effective_version (get_block_vote b)).drop
        (k - s₀.window_size.toNat)
  | 0, _ => by
    rw [List.take_zero, List.map_nil, List.drop_nil]
    exact hv
  | k + 1, hk => by
    have hk' : k < bs.length := hk
    have hprev := versions_add_blocks_take hv haccepted k hk'.le
    set T := s₀.add_blocks (bs.take k).zipIdx with hT
    have hc : T.do_check (get_block_version bs[k]) (get_block_vote bs[k]) = true :=
      (add_fst T _ _ (UInt64.ofNat k)).symm.trans (haccepted k hk')
    have hsched := add_blocks_schedule s₀ (bs.take k).zipIdx
    have hw0 : 0 < s₀.window_size.toNat := UInt64.lt_iff_toNat_lt.mp s₀.window_size_pos
    rw [add_blocks_take_succ s₀ hk']
    show (T.add _ _ (UInt64.ofNat k)).2.versions = _
    rw [add_versions_of_check hc, trim_window_fst T.window_size_pos, hprev, hsched.2.1,
      get_effective_version_eq_of_schedule hsched.1, List.drop_drop, List.length_drop,
      List.take_succ_eq_append_getElem hk', List.map_append, List.map_singleton,
      List.drop_append_of_le_length (by rw [List.length_map, List.length_take]; omega),
      List.length_map, List.length_take, min_eq_left hk'.le]
    congr 2
    omega

/-! ## Chains added block by block -/

/-- The objects of a node that started from `start` on an empty chain and added its blocks one
by one: each block enters the database, and `add` accepts it at the height it got there, as
`BlockchainDB::add_block` does. -/
inductive AddedChain (start : HardForkState) : HardForkState → Prop
  | init (hempty : start.db.blocks = []) : AddedChain start start.init.state
  | add {hf : HardForkState} (b : block) (hroom : hf.db.blocks.length + 1 < 2 ^ 64) :
      AddedChain start hf →
      (({ hf with db := hf.db.add_block b hroom } : HardForkState).add_block b hf.db.height).1 =
        true →
      AddedChain start
        (({ hf with db := hf.db.add_block b hroom } : HardForkState).add_block b hf.db.height).2

/-- What an object that added its chain knows of its past, with `s₀` the state it started from:
its voting state is that of `s₀` after adding every block of the chain, the version recorded for
each block is the one in force when it was added, and every block was accepted. -/
structure ChainInv (s₀ hf : HardForkState) : Prop where
  state_eq : hf = { s₀.add_blocks hf.db.blocks.zipIdx with db := hf.db }
  recorded : ∀ k < hf.db.blocks.length, hf.db.get_hard_fork_version (UInt64.ofNat k) =
    some (s₀.add_blocks (hf.db.blocks.take k).zipIdx).get_current_version
  accepted : ∀ k (hk : k < hf.db.blocks.length),
    ((s₀.add_blocks (hf.db.blocks.take k).zipIdx).add_block hf.db.blocks[k]
      (UInt64.ofNat k)).1 = true

/-- On an empty chain `init` rescans nothing. -/
theorem init_state_of_empty {hf : HardForkState} (hempty : hf.db.blocks = []) :
    hf.init.state = hf.init_start := by
  have hheight : hf.db.height = 0 := by
    unfold BlockchainDB.height
    rw [hempty]
    rfl
  have hinit : hf.init_height = 1 := by
    unfold init_height
    rw [if_neg (by rw [hheight]; exact UInt64.not_lt.mpr UInt64.zero_le)]
  rw [init_state_eq, hinit]
  unfold rescan_from_chain_height rescan_from_block_height
  rw [if_neg (by decide), if_pos (by rw [show hf.init_start.db.height = 0 from hheight]; decide)]
  rfl

theorem ChainInv.init_start {start : HardForkState} (hempty : start.db.blocks = []) :
    ChainInv start.init_start start.init_start := by
  have hblocks : start.init_start.db.blocks = [] := hempty
  refine ⟨?_, ?_, ?_⟩
  · rw [hblocks]
    rfl
  · intro k hk
    rw [hblocks] at hk
    exact absurd hk (Nat.not_lt_zero k)
  · intro k hk
    rw [hblocks] at hk
    exact absurd hk (Nat.not_lt_zero k)

theorem ofNat_ne_of_lt {k n : ℕ} (hkn : k < n) (hn : n < 2 ^ 64) :
    UInt64.ofNat k ≠ UInt64.ofNat n := by
  intro h
  have hk : (UInt64.ofNat k).toNat = k := UInt64.toNat_ofNat_of_lt' (lt_trans hkn hn)
  have hn' : (UInt64.ofNat n).toNat = n := UInt64.toNat_ofNat_of_lt' hn
  rw [h, hn'] at hk
  omega

/-- Adding one more accepted block keeps what the object knows of its past. -/
theorem ChainInv.add {hf : HardForkState} (hi : ChainInv s₀ hf) (b : block)
    (hroom : hf.db.blocks.length + 1 < 2 ^ 64)
    (hok : (({ hf with db := hf.db.add_block b hroom } : HardForkState).add_block b
      hf.db.height).1 = true) :
    ChainInv s₀
      (({ hf with db := hf.db.add_block b hroom } : HardForkState).add_block b hf.db.height).2 := by
  set T := s₀.add_blocks hf.db.blocks.zipIdx with hT
  have hS : ({ hf with db := hf.db.add_block b hroom } : HardForkState) =
      { T with db := hf.db.add_block b hroom } := by
    have h := congrArg
      (fun s : HardForkState => ({ s with db := hf.db.add_block b hroom } : HardForkState))
      hi.state_eq
    exact h
  rw [hS] at hok ⊢
  have hc : T.do_check (get_block_version b) (get_block_vote b) = true := by
    have h := hok
    rw [add_block, add_with_db] at h
    exact (add_fst T _ _ hf.db.height).symm.trans h
  rw [add_block, add_with_db, if_pos hc]
  show ChainInv s₀ { (T.add (get_block_version b) (get_block_vote b) hf.db.height).2 with
    db := (hf.db.add_block b hroom).set_hard_fork_version hf.db.height T.get_current_version }
  -- the chain is now `hf.db.blocks ++ [b]`, and the state after it is that after `b`
  have hlen : hf.db.height = UInt64.ofNat hf.db.blocks.length := rfl
  have hT' : s₀.add_blocks (hf.db.blocks ++ [b]).zipIdx = (T.add_block b hf.db.height).2 := by
    rw [List.zipIdx_append, add_blocks_append, Nat.zero_add, hlen]
    rfl
  have htake : ∀ k ≤ hf.db.blocks.length, (hf.db.blocks ++ [b]).take k = hf.db.blocks.take k :=
    fun k hk => List.take_append_of_le_length hk
  refine ⟨?_, ?_, ?_⟩
  · apply HardForkState.ext <;> dsimp only <;>
      rw [BlockchainDB.blocks_set_hard_fork_version, BlockchainDB.blocks_add_block, hT'] <;> rfl
  · intro k hk
    change k < (hf.db.blocks ++ [b]).length at hk
    rw [List.length_append, List.length_singleton] at hk
    show BlockchainDB.get_hard_fork_version
        ((hf.db.add_block b hroom).set_hard_fork_version hf.db.height T.get_current_version)
        (UInt64.ofNat k) =
      some (s₀.add_blocks ((hf.db.blocks ++ [b]).take k).zipIdx).get_current_version
    rw [BlockchainDB.get_hard_fork_version_set_hard_fork_version, htake k (by omega)]
    rcases Nat.lt_or_eq_of_le (Nat.le_of_lt_succ hk) with hlt | heq
    · -- an older block: its entry is untouched
      rw [if_neg (hlen ▸ ofNat_ne_of_lt hlt (by omega))]
      exact hi.recorded k hlt
    · subst heq
      rw [if_pos hlen.symm, List.take_length]
  · intro k hk
    change k < (hf.db.blocks ++ [b]).length at hk
    rw [List.length_append, List.length_singleton] at hk
    show ((s₀.add_blocks ((hf.db.blocks ++ [b]).take k).zipIdx).add_block
      (hf.db.blocks ++ [b])[k] (UInt64.ofNat k)).1 = true
    rw [htake k (by omega)]
    rcases Nat.lt_or_eq_of_le (Nat.le_of_lt_succ hk) with hlt | heq
    · rw [List.getElem_append_left hlt]
      exact hi.accepted k hlt
    · subst heq
      rw [List.getElem_append_right (le_refl _), List.take_length, ← hlen]
      simp only [Nat.sub_self, List.getElem_singleton]
      rw [add_block, add_fst]
      exact hc

theorem AddedChain.chainInv {start hf : HardForkState} (hc : AddedChain start hf) :
    ChainInv start.init_start hf := by
  induction hc with
  | init hempty =>
    rw [init_state_of_empty hempty]
    exact ChainInv.init_start hempty
  | add b hroom _ hok ih => exact ih.add b hroom hok

/-- Replaying the blocks from `m` on over the full database leads through the states adding them
led through, and writes nothing new. -/
theorem ChainInv.replay {hf : HardForkState} (hi : ChainInv s₀ hf) (m : ℕ) :
    ∀ j, m + j ≤ hf.db.blocks.length →
      ({ s₀.add_blocks (hf.db.blocks.take m).zipIdx with db := hf.db } : HardForkState).add_blocks
          (((hf.db.blocks.drop m).take j).zipIdx m) =
        { s₀.add_blocks (hf.db.blocks.take (m + j)).zipIdx with db := hf.db }
  | 0, _ => by
    rw [List.take_zero, Nat.add_zero]
    rfl
  | j + 1, hj => by
    have hk : m + j < hf.db.blocks.length := by omega
    have hjd : j < (hf.db.blocks.drop m).length := by
      rw [List.length_drop]
      omega
    rw [List.take_succ_eq_append_getElem hjd, List.zipIdx_append, add_blocks_append,
      hi.replay m j hk.le, List.length_take, min_eq_left hjd.le, List.getElem_drop,
      ← Nat.add_assoc, add_blocks_take_succ s₀ hk]
    -- one more block, replayed on the database that already records its version
    exact add_block_with_db_of_recorded (hi.accepted _ hk) (hi.recorded _ hk)

/-- The state `reorganize_from_block_height` rebuilds at `height`, once the walk down has found
the fork index in force before the block at `height`, is the one the chain reached after it. -/
theorem ChainInv.rebuild_window {hf : HardForkState} (hi : ChainInv s₀ hf)
    (hv : s₀.versions = []) (hlv : s₀.last_versions = fun _ => 0)
    (hcfi : s₀.current_fork_index < s₀.heights.length) {height : UInt64}
    (hk : height.toNat < hf.db.blocks.length) {start_version : UInt8}
    (hlow : hf.lower_fork_index start_version hf.current_fork_index =
      (s₀.add_blocks (hf.db.blocks.take height.toNat).zipIdx).current_fork_index) :
    hf.rebuild_window start_version height =
      { s₀.add_blocks (hf.db.blocks.take (height.toNat + 1)).zipIdx with db := hf.db } := by
  set k := height.toNat with hkdef
  -- the window and the counts after the block at `height`
  have hversions := versions_add_blocks_take hv (hi.accepted) (k + 1) hk
  have htracks := (tracks_add_blocks hv hlv hcfi (hf.db.blocks.take (k + 1)).zipIdx).1
  rw [add_blocks_take_succ s₀ hk] at hversions htracks ⊢
  set T := s₀.add_blocks (hf.db.blocks.take k).zipIdx with hT
  have hc : T.do_check (get_block_version hf.db.blocks[k]) (get_block_vote hf.db.blocks[k]) = true :=
    (add_fst T _ _ (UInt64.ofNat k)).symm.trans (hi.accepted k hk)
  rw [add_block, add_of_check T hc, raise_to_voted_eq] at hversions htracks
  dsimp only [push_vote] at hversions htracks
  -- the configuration is the starting one all along the chain
  have hfull := congrArg (fun s : HardForkState => (s.schedule, s.window_size,
    s.default_threshold_percent)) hi.state_eq
  simp only [Prod.mk.injEq] at hfull
  have hsched := add_blocks_schedule s₀ hf.db.blocks.zipIdx
  have hTsched := add_blocks_schedule s₀ (hf.db.blocks.take k).zipIdx
  show hf.rebuild_window start_version height = { (T.add _ _ (UInt64.ofNat k)).2 with db := hf.db }
  rw [add_of_check T hc, ← raise_to_voted_with_db, UInt64.ofNat_toNat]
  unfold HardForkState.rebuild_window
  dsimp only
  congr 1
  -- the blocks the rescan reads are the last `window_size` up to `height`
  set L := List.take (height.toNat + 1 - (reorganize_rescan_height hf.clear_window.window_size
    height).toNat) (List.drop (reorganize_rescan_height hf.clear_window.window_size height).toNat
    hf.clear_window.db.blocks) with hL
  have hwin : L.map (fun b => hf.get_effective_version (get_block_vote b)) =
      (trim_window T.window_size T.versions T.last_versions).1 ++
        [T.get_effective_version (get_block_vote hf.db.blocks[k])] := by
    rw [hversions, hL, toNat_reorganize_rescan_height hf.clear_window.window_size_pos,
      show hf.clear_window.window_size = s₀.window_size from hfull.2.1.trans hsched.2.1,
      get_effective_version_eq_of_schedule (hfull.1.trans hsched.1),
      List.map_take, List.map_drop, List.map_take, List.drop_take]
    rfl
  rw [push_votes_eq]
  apply HardForkState.ext
  · rfl
  · exact hfull.2.1.trans (hsched.2.1.trans hTsched.2.1.symm)
  · exact hfull.2.2.trans (hsched.2.2.trans hTsched.2.2.symm)
  · exact hfull.1.trans (hsched.1.trans hTsched.1.symm)
  · show [] ++ L.map (fun b => hf.get_effective_version (get_block_vote b)) = _
    rw [List.nil_append, hwin]
    rfl
  · -- both count the same window
    show (L.map fun b => hf.get_effective_version (get_block_vote b)).foldl inc (fun _ => 0) =
      inc (trim_window T.window_size T.versions T.last_versions).2
        (T.get_effective_version (get_block_vote hf.db.blocks[k]))
    have hP := (tracks_nil (α := UInt8)).append_foldl
      (L.map fun b => hf.get_effective_version (get_block_vote b))
    rw [List.nil_append] at hP
    refine hP.unique ?_
    rw [hwin]
    exact htracks
  · show hf.clear_window.lower_fork_index start_version hf.current_fork_index = T.current_fork_index
    rw [lower_fork_index_clear_window]
    exact hlow

end Chain

/-- Blocks that `add` accepts one by one extend an added chain. -/
theorem AddedChain.add_chain {start s : HardForkState} (hc : AddedChain start s) {bs : List block}
    {s' : HardForkState} (h : s.add_chain bs = some s') : AddedChain start s' :=
  add_chain_rec (fun _ b hroom hs hadd => AddedChain.add b hroom hs hadd) hc h

/-! ## Reorganizing an added chain -/

/-- Reorganizing from any height below the top of a chain that was added block by block returns
`true` and leaves exactly the state the blocks were added into: the same window, counts and fork
index, and the same recorded versions, so `get` answers the same at every height. At height 0
the walk down aims at `original_version`, which must not be above the first fork's version. -/
theorem reorganize_from_block_height_of_added {start hf : HardForkState}
    (hc : AddedChain start hf)
    (horig : ∀ f ∈ hf.heights.head?, hf.original_version ≤ f.version) {height : UInt64}
    (hheight : height < hf.db.height) :
    hf.reorganize_from_block_height height = .ok true hf := by
  have hi := hc.chainInv
  have hv : start.init_start.versions = [] := rfl
  have hlv : start.init_start.last_versions = fun _ => 0 := rfl
  have hk : height.toNat < hf.db.blocks.length := by
    have h := UInt64.lt_iff_toNat_lt.mp hheight
    rwa [BlockchainDB.height, UInt64.toNat_ofNat_of_lt' hf.db.blocks_lt] at h
  have htop : ¬hf.db.height ≤ height := UInt64.not_le.mpr hheight
  -- the schedule and the fork index of the chain's end, and of the state before `height`
  have hcfi_eq := congrArg HardForkState.current_fork_index hi.state_eq
  have hsched_eq := congrArg HardForkState.schedule hi.state_eq
  have hsched := add_blocks_schedule start.init_start hf.db.blocks.zipIdx
  have hTsched := add_blocks_schedule start.init_start (hf.db.blocks.take height.toNat).zipIdx
  have hcfi : hf.current_fork_index < hf.heights.length := by
    have h := (tracks_add_blocks hv hlv (init_start_heights_pos start) hf.db.blocks.zipIdx).2
    unfold heights
    rw [hcfi_eq, hsched_eq]
    exact h
  have hTheights : (start.init_start.add_blocks (hf.db.blocks.take height.toNat).zipIdx).heights =
      hf.heights := by
    unfold heights
    rw [hTsched.1, hsched_eq]
    exact congrArg HardFork.heights hsched.1.symm
  have hTle : (start.init_start.add_blocks (hf.db.blocks.take height.toNat).zipIdx).current_fork_index
      ≤ hf.current_fork_index := by
    have h := add_blocks_take_add start.init_start hk.le (hf.db.blocks.length - height.toNat)
    rw [Nat.add_sub_cancel' hk.le, List.take_length] at h
    rw [hcfi_eq]
    show _ ≤ (start.init_start.add_blocks hf.db.blocks.zipIdx).current_fork_index
    rw [h]
    exact add_blocks_fork_index_le _ _
  -- the version the walk down aims at, and where it stops
  obtain ⟨start_version, hsv, hlow⟩ : ∃ start_version,
      hf.reorganize_start_version height = some start_version ∧
      hf.lower_fork_index start_version hf.current_fork_index =
        (start.init_start.add_blocks (hf.db.blocks.take height.toNat).zipIdx).current_fork_index := by
    by_cases h0 : height = 0
    · -- at height 0: the original version, and the state the chain started from
      refine ⟨hf.original_version, by rw [reorganize_start_version, if_pos h0], ?_⟩
      have hT0 : (start.init_start.add_blocks
          (hf.db.blocks.take height.toNat).zipIdx).current_fork_index = 0 := by
        rw [show height.toNat = 0 by rw [h0]; rfl, List.take_zero]
        rfl
      rw [hT0]
      apply lower_fork_index_eq hf _ _ (Nat.zero_le _) (Or.inl rfl)
      intro j hj hji
      have hne : hf.heights ≠ [] := List.ne_nil_of_length_pos (by omega)
      have h0v : hf.original_version ≤ (hf.heights.getD 0 default).version := by
        obtain ⟨f, fs, hfs⟩ := List.exists_cons_of_ne_nil hne
        rw [hfs]
        exact horig f (by rw [hfs]; rfl)
      exact UInt8.lt_of_le_of_lt h0v (version_lt_of_lt hf hj (by omega))
    · -- above it: the version recorded for the block at `height`
      refine ⟨(start.init_start.add_blocks (hf.db.blocks.take height.toNat).zipIdx).get_current_version,
        ?_, ?_⟩
      · rw [reorganize_start_version, if_neg h0]
        have h := hi.recorded height.toNat hk
        rwa [UInt64.ofNat_toNat] at h
      · apply lower_fork_index_eq hf _ _ hTle
        · right
          rw [← hTheights]
          exact UInt8.le_refl _
        · intro j hj hji
          show ((start.init_start.add_blocks (hf.db.blocks.take height.toNat).zipIdx).heights.getD
            _ default).version < _
          rw [hTheights]
          exact version_lt_of_lt hf hj (lt_of_le_of_lt hji hcfi)
  rw [reorganize_from_block_height_of_some htop hsv,
    hi.rebuild_window hv hlv (init_start_heights_pos start) hk hlow]
  -- the blocks above `height` replay the chain to its end
  have hrep := hi.replay (height.toNat + 1) (hf.db.blocks.length - (height.toNat + 1)) (by omega)
  rw [Nat.add_sub_cancel' (by omega : height.toNat + 1 ≤ hf.db.blocks.length), List.take_length,
    ← hi.state_eq, List.take_of_length_le (show (hf.db.blocks.drop (height.toNat + 1)).length ≤
      hf.db.blocks.length - (height.toNat + 1) by rw [List.length_drop])] at hrep
  exact congrArg (EStateM.Result.ok true) hrep

theorem reorganize_from_block_height_of_added_window_run :
    AddedChain voting_start voting_added ∧
      (∀ f ∈ voting_added.heights.head?, voting_added.original_version ≤ f.version) ∧
      (2 : UInt64) < voting_added.db.height ∧
      voting_added.reorganize_from_block_height 2 = .ok true voting_added := by
  have hc : AddedChain voting_start voting_added :=
    (AddedChain.init rfl).add_chain (Option.eq_some_of_isSome _)
  have horig : ∀ f ∈ voting_added.heights.head?, voting_added.original_version ≤ f.version := by
    decide
  have hheight : (2 : UInt64) < voting_added.db.height := by decide
  exact ⟨hc, horig, hheight, reorganize_from_block_height_of_added hc horig hheight⟩

/-- An object whose original version, 5, is above its first fork's, with a window of one block
and the schedule `add_fork` builds from version 1 at height 0 and version 4 at height 2. -/
def original_above_start : HardForkState where
  db := empty_db
  window_size := 1
  default_threshold_percent := 0
  schedule :=
    (((HardFork.empty 5).add_fork 1 0 0 0).bind fun s => s.add_fork 4 2 0 1).getD
      (HardFork.empty 5)
  versions := []
  last_versions := fun _ => 0
  current_fork_index := 0
  window_size_pos := by decide
  default_threshold_le := by decide

/-- The chain of `original_above_start` after a block of version 1 voting for 1, then one of
version 1 voting for 4, which activates version 4 from height 2. -/
def original_above_chain : HardForkState :=
  let s₁ : HardForkState := (({ original_above_start.init.state with
      db := original_above_start.init.state.db.add_block ⟨1, 1⟩ (by decide) } :
        HardForkState).add_block ⟨1, 1⟩ original_above_start.init.state.db.height).2
  (({ s₁ with db := s₁.db.add_block ⟨1, 4⟩ (by decide) } : HardForkState).add_block ⟨1, 4⟩
    s₁.db.height).2

/-- Without the proviso on `original_version` the rebuilt window differs: reorganizing from
height 0 walks down to the original version 5, which stops nowhere below version 4, so block 1
is added again under version 4, `add` refuses it, and its vote is lost. -/
theorem reorganize_from_block_height_original_version :
    (((HardFork.empty 5).add_fork 1 0 0 0).bind fun s => s.add_fork 4 2 0 1).isSome ∧
      AddedChain original_above_start original_above_chain ∧
      (0 : UInt64) < original_above_chain.db.height ∧
      original_above_chain.versions = [4] ∧
      (original_above_chain.reorganize_from_block_height 0).state.versions = [1] := by
  refine ⟨by decide, ?_, by decide, by decide, by decide⟩
  exact AddedChain.add ⟨1, 4⟩ (by decide)
    (AddedChain.add ⟨1, 1⟩ (by decide) (AddedChain.init rfl) (by decide)) (by decide)

end HardForkState

end Salvium
