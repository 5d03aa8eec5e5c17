import Mathlib
import Salvium.Config
import Salvium.Lib.Histogram
import Salvium.Lib.Sorted

/-!
# Salvium — hard-fork voting (`cryptonote_basic/hardfork.cpp`)

A `HardFork` object decides which fork version the next block must carry. Beside the schedule
that `add_fork` builds it keeps a rolling window of the last `window_size` blocks' votes
(`versions`, a deque), a count of each version in that window (`last_versions`, 256 counters of
type `unsigned int`) and the index of the fork in force (`current_fork_index`). Four methods move
that state: `add` for a new block, `on_block_popped` for blocks taken off the chain,
`reorganize_from_block_height` after a chain switch, and `init` (through
`rescan_from_block_height`) at start-up. Each patches the window and the counts its own way.

The object reads and writes the chain database: `add` records in `hf_versions` the version each
block was added under, and the other methods read blocks and that table back. A read of a height
the table does not hold throws; the object keeps whatever state it had reached, so the methods
that read it return an `EStateM.Result`, which carries the state in both outcomes.

The results are about whole runs. `reachable_inv` shows that every state a node can drive the
object into keeps the window, the counts, the cap on votes and the fork index in step, and
`reorganize_from_block_height_of_added` that after a chain added block by block, reorganizing from
any height below the top rebuilds exactly the state the blocks were added into.
-/

namespace Salvium

open Histogram

/-! ## Blocks and the database -/

/-- The two fields of `cryptonote::block` that `HardFork` reads. -/
structure block where
  major_version : UInt8
  minor_version : UInt8
  deriving DecidableEq, Repr

/-- `get_block_vote`: blocks from before voting carry minor version `0`, which counts as a vote
for version `1`. -/
def get_block_vote (b : block) : UInt8 :=
  if b.minor_version = 0 then 1 else b.minor_version

def get_block_version (b : block) : UInt8 := b.major_version

/-- The part of `BlockchainDB` a `HardFork` uses: the blocks, whose number `height()` returns as a
`uint64_t`, and the `hf_versions` table from a height to the version its block was added under.
Removing a block leaves the table alone, as `BlockchainLMDB::remove_block` does. -/
structure BlockchainDB where
  blocks : List block
  hf_versions : UInt64 → Option UInt8
  blocks_lt : blocks.length < 2 ^ 64

namespace BlockchainDB

def height (db : BlockchainDB) : UInt64 := UInt64.ofNat db.blocks.length

def get_hard_fork_version (db : BlockchainDB) (height : UInt64) : Option UInt8 :=
  db.hf_versions height

def set_hard_fork_version (db : BlockchainDB) (height : UInt64) (version : UInt8) :
    BlockchainDB :=
  { db with hf_versions := Function.update db.hf_versions height (some version) }

def add_block (db : BlockchainDB) (blk : block) (h : db.blocks.length + 1 < 2 ^ 64) :
    BlockchainDB :=
  ⟨db.blocks ++ [blk], db.hf_versions, by rw [List.length_append, List.length_singleton]; exact h⟩

def remove_block (db : BlockchainDB) : BlockchainDB :=
  ⟨db.blocks.dropLast, db.hf_versions, by
    rw [List.length_dropLast]
    exact lt_of_le_of_lt (Nat.sub_le _ _) db.blocks_lt⟩

/-- The message of the exception a missing `hf_versions` entry throws. -/
def missing_version_error (height : UInt64) : String :=
  "Error attempting to retrieve a hard fork version at height " ++ toString height ++
    " from the db: MDB_NOTFOUND: No matching key/data pair found"

theorem get_hard_fork_version_set_hard_fork_version (db : BlockchainDB) (height height' : UInt64)
    (version : UInt8) :
    (db.set_hard_fork_version height version).get_hard_fork_version height' =
      if height' = height then some version else db.get_hard_fork_version height' :=
  Function.update_apply db.hf_versions height (some version) height'

end BlockchainDB

/-! ## The schedule -/

/-- The schedule of a freshly built object: the constructor's `original_version`, no fork yet. -/
def HardFork.empty (original_version : UInt8) : HardFork :=
  ⟨original_version, [], List.Pairwise.nil⟩

theorem HardFork.fork_lt_trans {a b c : hardfork_t}
    (hab : a.version < b.version ∧ a.height < b.height)
    (hbc : b.version < c.version ∧ b.height < c.height) :
    a.version < c.version ∧ a.height < c.height :=
  ⟨UInt8.lt_trans hab.1 hbc.1, UInt64.lt_trans hab.2 hbc.2⟩

/-- `HardFork::add_fork`: a fork is appended only above the last one in version, height and time,
with a non-zero version and a threshold of at most 100; `none` is the source's `false`. -/
def HardFork.add_fork (hf : HardFork) (version : UInt8) (height : UInt64) (threshold : UInt8)
    (time : ℤ) : Option HardFork :=
  if version = 0 then none
  else if hlast : ∀ last ∈ hf.heights.getLast?,
      last.version < version ∧ last.height < height ∧ last.time < time then
    if threshold > 100 then none
    else some ⟨hf.original_version, hf.heights ++ [⟨version, height, threshold, time⟩],
      hf.heights_sorted.append_of_getLast? HardFork.fork_lt_trans
        fun last hl => ⟨(hlast last hl).1, (hlast last hl).2.1⟩⟩
  else none

/-! ## The object -/

/-- A `HardFork` object: the database it was built on, the constructor's window size and default
threshold (the constructor throws unless `0 < window_size` and the threshold is at most 100), the
schedule, and the voting state. The constructor's remaining arguments (`forked_time`,
`update_time`, `original_version_till_height`) are only read by methods not modelled here. -/
structure HardForkState where
  db : BlockchainDB
  window_size : UInt64
  default_threshold_percent : UInt8
  schedule : HardFork
  versions : List UInt8
  last_versions : UInt8 → UInt32
  current_fork_index : ℕ
  window_size_pos : 0 < window_size
  default_threshold_le : default_threshold_percent ≤ 100

namespace HardForkState

/-- The constructor `HardFork::HardFork`. -/
def create (db : BlockchainDB) (original_version : UInt8) (window_size : UInt64)
    (default_threshold_percent : UInt8) : Except String HardForkState :=
  if hw : window_size = 0 then .error "window_size needs to be strictly positive"
  else if ht : default_threshold_percent > 100 then
    .error "default_threshold_percent needs to be between 0 and 100"
  else .ok
    { db, window_size, default_threshold_percent
      schedule := HardFork.empty original_version
      versions := []
      last_versions := fun _ => 0
      current_fork_index := 0
      window_size_pos := UInt64.pos_iff_ne_zero.mpr hw
      default_threshold_le := UInt8.not_lt.mp ht }

variable (hf : HardForkState)

def heights : List hardfork_t := hf.schedule.heights

def original_version : UInt8 := hf.schedule.original_version

def add_fork (version : UInt8) (height : UInt64) (threshold : UInt8) (time : ℤ) :
    Option HardForkState :=
  (hf.schedule.add_fork version height threshold time).map fun schedule => { hf with schedule }

/-- `heights[current_fork_index]`. -/
def current_fork : hardfork_t := hf.heights.getD hf.current_fork_index default

def get_current_version : UInt8 := hf.current_fork.version

/-- `heights.back().version`, the highest version of the schedule. -/
def max_version : UInt8 := (hf.heights.getLastD default).version

/-- `get_effective_version`: a vote above the highest scheduled version counts for it. -/
def get_effective_version (voting_version : UInt8) : UInt8 :=
  if hf.heights ≠ [] ∧ voting_version > hf.max_version then hf.max_version else voting_version

def do_check (block_version voting_version : UInt8) : Bool :=
  block_version == hf.get_current_version && voting_version ≥ hf.get_current_version

/-- The loop of `get_voted_fork_index`, over the forks from the last: the votes for a fork and
every later one are summed in a `uint32_t`, and the first fork, from the top, that has been
reached in height and has its threshold of the window (`uint64_t` arithmetic cut to `uint32_t`)
is the answer; `rest.length` is the fork's index. -/
def voted_fork_index_loop (window_size : UInt64) (last_versions : UInt8 → UInt32) (height : UInt64)
    (current_fork_index : ℕ) : List hardfork_t → UInt32 → ℕ
  | [], _ => current_fork_index
  | f :: rest, accumulated_votes =>
    let accumulated_votes := accumulated_votes + last_versions f.version
    let threshold := ((window_size * f.threshold.toUInt64 + 99) / 100).toUInt32
    if f.height ≤ height ∧ threshold ≤ accumulated_votes then rest.length
    else voted_fork_index_loop window_size last_versions height current_fork_index rest
      accumulated_votes

def get_voted_fork_index (height : UInt64) : ℕ :=
  voted_fork_index_loop hf.window_size hf.last_versions height hf.current_fork_index
    hf.heights.reverse 0

/-- The step shared by `add`, `rescan_from_block_height` and `reorganize_from_block_height`:
`uint8_t voted = get_voted_fork_index(height)`, and the fork index rises to it. -/
def raise_to_voted (height : UInt64) : HardForkState :=
  let voted := hf.get_voted_fork_index height % 256
  if voted > hf.current_fork_index then { hf with current_fork_index := voted } else hf

end HardForkState

/-- The `while (versions.size() >= window_size)` loop of `add`: the oldest votes leave the window
and their counts. -/
def trim_window (window_size : UInt64) :
    List UInt8 → (UInt8 → UInt32) → List UInt8 × (UInt8 → UInt32)
  | [], last_versions => ([], last_versions)
  | v :: vs, last_versions =>
    if window_size.toNat ≤ (v :: vs).length then trim_window window_size vs (dec last_versions v)
    else (v :: vs, last_versions)

namespace HardForkState

variable (hf : HardForkState)

/-- One vote enters the window at the back: `last_versions[v]++; versions.push_back(v)`. -/
def push_vote (v : UInt8) : HardForkState :=
  { hf with versions := hf.versions ++ [v], last_versions := inc hf.last_versions v }

/-- `HardFork::add(block_version, voting_version, height)`. -/
def add (block_version voting_version : UInt8) (height : UInt64) : Bool × HardForkState :=
  if hf.do_check block_version voting_version then
    let db := hf.db.set_hard_fork_version height hf.get_current_version
    let voting_version := hf.get_effective_version voting_version
    let (versions, last_versions) := trim_window hf.window_size hf.versions hf.last_versions
    (true, (({ hf with db, versions, last_versions }).push_vote voting_version).raise_to_voted
      (height + 1))
  else (false, hf)

/-- `add(block, height)`. -/
def add_block (b : block) (height : UInt64) : Bool × HardForkState :=
  hf.add (get_block_version b) (get_block_vote b) height

/-- `versions.clear()` and every `last_versions[n] = 0`. -/
def clear_window : HardForkState :=
  { hf with versions := [], last_versions := fun _ => 0 }

/-- The rescan loops of `rescan_from_block_height` and `reorganize_from_block_height`: each
block's effective vote enters the window. -/
def push_votes (s : HardForkState) : List block → HardForkState
  | [] => s
  | b :: bs => push_votes (s.push_vote (s.get_effective_version (get_block_vote b))) bs

/-- The loop `while (current_fork_index > 0 && heights[current_fork_index].version >
start_version) --current_fork_index` of `reorganize_from_block_height`, from index `i`. -/
def lower_fork_index (s : HardForkState) (start_version : UInt8) : ℕ → ℕ
  | 0 => 0
  | i + 1 =>
    if (s.heights.getD (i + 1) default).version > start_version then
      lower_fork_index s start_version i
    else i + 1

/-- The loop `while (current_fork_index + 1 < heights.size() && heights[current_fork_index].version
!= lastv) ++current_fork_index` of `rescan_from_block_height`, from index `i`. -/
def raise_fork_index (s : HardForkState) (lastv : UInt8) (i : ℕ) : ℕ :=
  if i + 1 < s.heights.length ∧ (s.heights.getD i default).version ≠ lastv then
    raise_fork_index s lastv (i + 1)
  else i
termination_by s.heights.length - i

/-- The loop of `reorganize_from_block_height` that hands each later block to `add`, whose answer
it ignores; the blocks come with their heights. -/
def add_blocks (s : HardForkState) : List (block × ℕ) → HardForkState
  | [] => s
  | (b, h) :: rest => add_blocks (s.add_block b (UInt64.ofNat h)).2 rest

/-- `HardFork::rescan_from_block_height`. -/
def rescan_from_block_height (height : UInt64) : EStateM.Result String HardForkState Bool :=
  if hf.db.height ≤ height then .ok false hf
  else
    -- the votes of the blocks from `height` to the top
    let hf := (hf.clear_window).push_votes (hf.db.blocks.drop height.toNat)
    let top := hf.db.height - 1
    match hf.db.get_hard_fork_version top with
    | none => .error (BlockchainDB.missing_version_error top) hf
    | some lastv =>
      let hf := { hf with current_fork_index := hf.raise_fork_index lastv 0 }
      .ok true (hf.raise_to_voted hf.db.height)

def rescan_from_chain_height (height : UInt64) : EStateM.Result String HardForkState Bool :=
  if height = 0 then .ok false hf else hf.rescan_from_block_height (height - 1)

/-- `HardFork::init`: a schedule without forks gets one for `original_version` at height 0, and
the window is rebuilt from the last `window_size` blocks of the database. -/
def init : EStateM.Result String HardForkState Unit :=
  let hf : HardForkState :=
    if hf.heights = [] then
      { hf with schedule :=
          ⟨hf.original_version, [⟨hf.original_version, 0, 0, 0⟩], List.pairwise_singleton _ _⟩ }
    else hf
  let hf : HardForkState := { hf.clear_window with current_fork_index := 0 }
  let height : UInt64 := hf.db.height
  let height : UInt64 := if height > hf.window_size then height - (hf.window_size - 1) else 1
  match hf.rescan_from_chain_height height with
  | .ok _ hf => .ok () hf
  | .error e hf => .error e hf

/-- `HardFork::reorganize_from_block_height`. -/
def reorganize_from_block_height (height : UInt64) : EStateM.Result String HardForkState Bool :=
  if hf.db.height ≤ height then .ok false hf
  else
    let hf := hf.clear_window
    let rescan_height :=
      if hf.window_size - 1 ≤ height then height - (hf.window_size - 1) else 0
    let start_version :=
      if height = 0 then some hf.original_version else hf.db.get_hard_fork_version height
    match start_version with
    | none => .error (BlockchainDB.missing_version_error height) hf
    | some start_version =>
      let hf := { hf with
        current_fork_index := hf.lower_fork_index start_version hf.current_fork_index }
      -- the votes of the blocks from `rescan_height` to `height`
      let hf := hf.push_votes
        ((hf.db.blocks.drop rescan_height.toNat).take (height.toNat + 1 - rescan_height.toNat))
      let hf := hf.raise_to_voted (height + 1)
      -- the blocks above `height` are added again
      .ok true (hf.add_blocks ((hf.db.blocks.drop (height.toNat + 1)).zipIdx (height.toNat + 1)))

/-- One pass of the loop of `on_block_popped` at `height`: the newest vote leaves the window, and
the version the block at `height` was added under enters it at the front. An empty window
(`versions.back()` on an empty deque) is outside the model. -/
def pop_vote (height : UInt64) : Option (EStateM.Result String HardForkState Unit) :=
  match hf.versions.getLast? with
  | none => none
  | some version =>
    let hf := { hf with versions := hf.versions.dropLast,
                        last_versions := dec hf.last_versions version }
    match hf.db.get_hard_fork_version height with
    | none => some (.error (BlockchainDB.missing_version_error height) hf)
    | some version =>
      some (.ok () { hf with versions := version :: hf.versions,
                             last_versions := inc hf.last_versions version })

/-- The loop of `on_block_popped` over the heights it visits, stopping at an exception. -/
def pop_votes (s : HardForkState) : List UInt64 → Option (EStateM.Result String HardForkState Unit)
  | [] => some (.ok () s)
  | height :: heights =>
    match s.pop_vote height with
    | none => none
    | some (.error e s) => some (.error e s)
    | some (.ok () s) => pop_votes s heights

/-- The closing loop of `on_block_popped`: the last fork from index 1 whose height the chain has
reached, else fork 0, without regard to votes. -/
def fork_index_at_height (new_chain_height : UInt64) : ℕ :=
  match ((hf.heights.zipIdx.drop 1).reverse.find? fun p => p.1.height ≤ new_chain_height) with
  | some p => p.2
  | none => 0

/-- `HardFork::on_block_popped(nblocks)`. Its loop counts `height` down from
`old_chain_height - 1` while `height >= new_chain_height`, in `uint64_t`: at a new chain height of
0 the condition always holds and the loop ends only by an exception, which the model does not
follow (`none`). -/
def on_block_popped (nblocks : UInt64) : Option (EStateM.Result String HardForkState Unit) :=
  if nblocks = 0 then some (.error "nblocks must be greater than 0" hf)
  else
    let new_chain_height := hf.db.height
    let old_chain_height := new_chain_height + nblocks
    if new_chain_height = 0 then none
    else
      let start := old_chain_height - 1
      -- the heights `start`, `start - 1`, ..., `new_chain_height`, if `start` is not below it
      let heights := ((List.range' new_chain_height.toNat
        (start.toNat + 1 - new_chain_height.toNat)).reverse).map UInt64.ofNat
      match hf.pop_votes heights with
      | none => none
      | some (.error e hf) => some (.error e hf)
      | some (.ok () hf) =>
        some (.ok () { hf with current_fork_index := hf.fork_index_at_height new_chain_height })

/-- `HardFork::get(height)`: above the chain the source asserts and answers 255; at the top, the
current version; below it, the version recorded for the block (`none` for a missing entry, which
throws). -/
def get (height : UInt64) : Option UInt8 :=
  if height > hf.db.height then some 255
  else if height = hf.db.height then some hf.get_current_version
  else hf.db.get_hard_fork_version height

/-! ## Named pieces of `init` and `reorganize_from_block_height` -/

/-- The schedule `init` completes: a placeholder fork for `original_version` at height 0 when no
fork was added. -/
def init_schedule : HardFork :=
  if hf.heights = [] then
    ⟨hf.original_version, [⟨hf.original_version, 0, 0, 0⟩], List.pairwise_singleton _ _⟩
  else hf.schedule

/-- The state `init` rescans from: the completed schedule, an empty window, fork index 0. -/
def init_start : HardForkState :=
  { hf with
    schedule := hf.init_schedule
    versions := []
    last_versions := fun _ => 0
    current_fork_index := 0 }

/-- The chain height `init` rescans from. -/
def init_height : UInt64 :=
  if hf.db.height > hf.window_size then hf.db.height - (hf.window_size - 1) else 1

/-- The height `reorganize_from_block_height` rescans from: `window_size - 1` blocks below
`height`, or the first block. -/
def reorganize_rescan_height (window_size height : UInt64) : UInt64 :=
  if window_size - 1 ≤ height then height - (window_size - 1) else 0

/-- The version `reorganize_from_block_height` walks the fork index down to: the original version
at height 0, else the one recorded for the block at `height`. -/
def reorganize_start_version (height : UInt64) : Option UInt8 :=
  if height = 0 then some hf.original_version else hf.db.get_hard_fork_version height

/-- The state `reorganize_from_block_height` rebuilds before it adds the later blocks again: the
fork index walked down to `start_version`, the votes of the blocks up to `height`, and the fork
index raised to the voted one. -/
def rebuild_window (start_version : UInt8) (height : UInt64) : HardForkState :=
  let hf := hf.clear_window
  let rescan_height := reorganize_rescan_height hf.window_size height
  let hf := { hf with current_fork_index := hf.lower_fork_index start_version hf.current_fork_index }
  let hf := hf.push_votes
    ((hf.db.blocks.drop rescan_height.toNat).take (height.toNat + 1 - rescan_height.toNat))
  hf.raise_to_voted (height + 1)

end HardForkState

end Salvium

namespace EStateM.Result

/-- The state a call leaves, whether it returned or threw. -/
def state {ε σ α : Type} : EStateM.Result ε σ α → σ
  | .ok _ s => s
  | .error _ s => s

end EStateM.Result

namespace Salvium

open Histogram

namespace HardForkState

/-! ## What each step changes -/

variable (hf : HardForkState)

/-- `raise_to_voted` moves the fork index up to the voted one, and nothing else. -/
theorem raise_to_voted_eq (height : UInt64) :
    hf.raise_to_voted height =
      { hf with
        current_fork_index := max hf.current_fork_index (hf.get_voted_fork_index height % 256) } := by
  unfold raise_to_voted
  dsimp only
  split_ifs with h
  · rw [max_eq_right (le_of_lt h)]
  · rw [max_eq_left (Nat.le_of_not_lt h)]

theorem add_of_check {block_version voting_version : UInt8}
    (hc : hf.do_check block_version voting_version = true) (height : UInt64) :
    hf.add block_version voting_version height =
      (true, (({ hf with
          db := hf.db.set_hard_fork_version height hf.get_current_version
          versions := (trim_window hf.window_size hf.versions hf.last_versions).1
          last_versions := (trim_window hf.window_size hf.versions hf.last_versions).2 }).push_vote
        (hf.get_effective_version voting_version)).raise_to_voted (height + 1)) := by
  rw [add, if_pos hc]

theorem add_of_not_check {block_version voting_version : UInt8}
    (hc : hf.do_check block_version voting_version = false) (height : UInt64) :
    hf.add block_version voting_version height = (false, hf) := by
  rw [add, if_neg (by rw [hc]; decide)]

/-- `add` leaves the schedule, the window size and the default threshold alone. -/
theorem add_schedule (block_version voting_version : UInt8) (height : UInt64) :
    (hf.add block_version voting_version height).2.schedule = hf.schedule ∧
      (hf.add block_version voting_version height).2.window_size = hf.window_size ∧
      (hf.add block_version voting_version height).2.default_threshold_percent =
        hf.default_threshold_percent := by
  by_cases hc : hf.do_check block_version voting_version = true
  · rw [add_of_check hf hc, raise_to_voted_eq]
    exact ⟨rfl, rfl, rfl⟩
  · rw [add_of_not_check hf (Bool.eq_false_iff.mpr hc)]
    exact ⟨rfl, rfl, rfl⟩

/-! ## Bounds on versions and indices -/

theorem max_version_eq {hf : HardForkState} (hne : hf.heights ≠ []) :
    hf.max_version = (hf.heights.getLast hne).version := by
  rw [max_version, List.getLastD_eq_getLast?, List.getLast?_eq_some_getLast hne, Option.getD_some]

/-- Every fork of the schedule is at most the last one: versions rise along it. -/
theorem version_le_max_version {hf : HardForkState} {f : hardfork_t} (hf_mem : f ∈ hf.heights) :
    f.version ≤ hf.max_version := by
  have hne : hf.heights ≠ [] := List.ne_nil_of_mem hf_mem
  rw [max_version_eq hne]
  rcases hf.schedule.heights_sorted.rel_of_getLast? (List.getLast?_eq_some_getLast hne) hf_mem
    with h | h
  · rw [h]
    exact UInt8.le_refl _
  · exact UInt8.le_of_lt h.1

theorem current_fork_mem {hf : HardForkState} (h : hf.current_fork_index < hf.heights.length) :
    hf.current_fork ∈ hf.heights := by
  rw [current_fork, List.getD_eq_getElem _ _ h]
  exact List.getElem_mem h

theorem get_current_version_le {hf : HardForkState}
    (h : hf.current_fork_index < hf.heights.length) : hf.get_current_version ≤ hf.max_version :=
  version_le_max_version (current_fork_mem h)

theorem get_effective_version_le {hf : HardForkState} (hne : hf.heights ≠ []) (v : UInt8) :
    hf.get_effective_version v ≤ hf.max_version := by
  unfold get_effective_version
  split_ifs with h
  · exact UInt8.le_refl _
  · exact UInt8.not_lt.mp fun hlt => h ⟨hne, hlt⟩

theorem voted_fork_index_loop_lt_or_eq (window_size : UInt64) (last_versions : UInt8 → UInt32)
    (height : UInt64) (current_fork_index : ℕ) :
    ∀ (forks : List hardfork_t) (accumulated_votes : UInt32),
      voted_fork_index_loop window_size last_versions height current_fork_index forks
          accumulated_votes < forks.length ∨
        voted_fork_index_loop window_size last_versions height current_fork_index forks
          accumulated_votes = current_fork_index
  | [], _ => .inr rfl
  | f :: rest, accumulated_votes => by
    rw [voted_fork_index_loop]
    split_ifs
    · exact .inl (Nat.lt_succ_self _)
    · rcases voted_fork_index_loop_lt_or_eq window_size last_versions height current_fork_index
        rest (accumulated_votes + last_versions f.version) with h | h
      · exact .inl (Nat.lt_succ_of_lt h)
      · exact .inr h

/-- The vote count answers with an index of the schedule or leaves the fork index as it is. -/
theorem get_voted_fork_index_lt_or_eq (height : UInt64) :
    hf.get_voted_fork_index height < hf.heights.length ∨
      hf.get_voted_fork_index height = hf.current_fork_index := by
  have h := voted_fork_index_loop_lt_or_eq hf.window_size hf.last_versions height
    hf.current_fork_index hf.heights.reverse 0
  rwa [List.length_reverse] at h

theorem raise_to_voted_lt {hf : HardForkState} (h : hf.current_fork_index < hf.heights.length)
    (height : UInt64) :
    max hf.current_fork_index (hf.get_voted_fork_index height % 256) < hf.heights.length := by
  refine max_lt h ?_
  rcases hf.get_voted_fork_index_lt_or_eq height with hv | hv
  · exact lt_of_le_of_lt (Nat.mod_le _ _) hv
  · rw [hv]
    exact lt_of_le_of_lt (Nat.mod_le _ _) h

/-- The loop of `add` leaves fewer votes than the window holds, a suffix of the old ones, with
their counts. -/
theorem trim_window_spec {window_size : UInt64} (hw : 0 < window_size) :
    ∀ {versions : List UInt8} {last_versions : UInt8 → UInt32},
      Tracks last_versions versions →
      Tracks (trim_window window_size versions last_versions).2
          (trim_window window_size versions last_versions).1 ∧
        (trim_window window_size versions last_versions).1.length < window_size.toNat ∧
        (trim_window window_size versions last_versions).1 <:+ versions
  | [], _, h => ⟨h, UInt64.lt_iff_toNat_lt.mp hw, List.suffix_refl _⟩
  | v :: vs, last_versions, h => by
    rw [trim_window]
    split_ifs with hlen
    · obtain ⟨ht, hl, hs⟩ := trim_window_spec hw h.pop_front
      exact ⟨ht, hl, hs.trans (List.suffix_cons v vs)⟩
    · exact ⟨h, Nat.lt_of_not_le hlen, List.suffix_refl _⟩

/-! ## The invariant -/

/-- The window holds at most `window_size` votes and the counters count them, no vote is above
the schedule's last version, the fork index points into the schedule, and every version the
database recorded is one of the schedule's. -/
structure Inv : Prop where
  window_le : hf.versions.length ≤ hf.window_size.toNat
  tracks : Tracks hf.last_versions hf.versions
  votes_le : ∀ v ∈ hf.versions, v ≤ hf.max_version
  fork_index_lt : hf.current_fork_index < hf.heights.length
  recorded_le : ∀ height v, hf.db.get_hard_fork_version height = some v → v ≤ hf.max_version

variable {hf}

theorem Inv.heights_ne_nil (hi : hf.Inv) : hf.heights ≠ [] :=
  List.ne_nil_of_length_pos (Nat.lt_of_le_of_lt (Nat.zero_le _) hi.fork_index_lt)

/-- The voting state may be cleared and the fork index moved down at any time. -/
theorem Inv.clear_window (hi : hf.Inv) : hf.clear_window.Inv where
  window_le := Nat.zero_le _
  tracks := tracks_nil
  votes_le := fun _ hv => absurd hv List.not_mem_nil
  fork_index_lt := hi.fork_index_lt
  recorded_le := hi.recorded_le

theorem Inv.with_fork_index (hi : hf.Inv) {i : ℕ} (h : i < hf.heights.length) :
    ({ hf with current_fork_index := i } : HardForkState).Inv :=
  { hi with fork_index_lt := h }

theorem Inv.raise_to_voted (hi : hf.Inv) (height : UInt64) : (hf.raise_to_voted height).Inv := by
  rw [raise_to_voted_eq]
  exact hi.with_fork_index (raise_to_voted_lt hi.fork_index_lt height)

/-- A vote enters a window that has room for it. -/
theorem Inv.push_vote (hi : hf.Inv) (hroom : hf.versions.length < hf.window_size.toNat)
    {v : UInt8} (hv : v ≤ hf.max_version) : (hf.push_vote v).Inv where
  window_le := by
    show (hf.versions ++ [v]).length ≤ _
    rw [List.length_append, List.length_singleton]
    exact hroom
  tracks := hi.tracks.push_back v
  votes_le := by
    intro w hw
    rcases List.mem_append.mp hw with hw | hw
    · exact hi.votes_le w hw
    · rw [List.mem_singleton.mp hw]
      exact hv
  fork_index_lt := hi.fork_index_lt
  recorded_le := hi.recorded_le

theorem Inv.push_votes {s : HardForkState} (hi : s.Inv) (bs : List block)
    (hroom : s.versions.length + bs.length ≤ s.window_size.toNat) : (s.push_votes bs).Inv := by
  induction bs generalizing s with
  | nil => exact hi
  | cons b bs ih =>
    rw [List.length_cons] at hroom
    have hpush := hi.push_vote (by omega)
      (get_effective_version_le hi.heights_ne_nil (get_block_vote b))
    refine ih hpush ?_
    show (s.versions ++ [_]).length + bs.length ≤ s.window_size.toNat
    rw [List.length_append, List.length_singleton]
    omega

theorem Inv.set_hard_fork_version (hi : hf.Inv) (height : UInt64) {version : UInt8}
    (hv : version ≤ hf.max_version) :
    ({ hf with db := hf.db.set_hard_fork_version height version } : HardForkState).Inv :=
  { hi with
    recorded_le := fun h v
        (hget : (hf.db.set_hard_fork_version height version).get_hard_fork_version h = some v) => by
      rw [BlockchainDB.get_hard_fork_version_set_hard_fork_version] at hget
      split_ifs at hget
      · rw [← Option.some.inj hget]
        exact hv
      · exact hi.recorded_le h v hget }

/-- The loop of `add` leaves a window with room for one more vote. -/
theorem Inv.trim (hi : hf.Inv) :
    ({ hf with
        versions := (trim_window hf.window_size hf.versions hf.last_versions).1
        last_versions := (trim_window hf.window_size hf.versions hf.last_versions).2 } :
        HardForkState).Inv ∧
      (trim_window hf.window_size hf.versions hf.last_versions).1.length < hf.window_size.toNat := by
  obtain ⟨ht, hl, hs⟩ := trim_window_spec hf.window_size_pos hi.tracks
  exact ⟨{ hi with
    window_le := Nat.le_of_lt hl
    tracks := ht
    votes_le := fun v hv => hi.votes_le v (hs.subset hv) }, hl⟩

/-- `add` keeps the invariant: the version recorded for the block is the current one, the trimmed
window has room for the new vote, and that vote is capped at the last version. -/
theorem Inv.add (hi : hf.Inv) (block_version voting_version : UInt8) (height : UInt64) :
    (hf.add block_version voting_version height).2.Inv := by
  by_cases hc : hf.do_check block_version voting_version = true
  · rw [add_of_check hf hc]
    have hdb := hi.set_hard_fork_version height (get_current_version_le hi.fork_index_lt)
    obtain ⟨htrim, hroom⟩ := hdb.trim
    exact (htrim.push_vote hroom (get_effective_version_le hi.heights_ne_nil voting_version)).raise_to_voted
      (height + 1)
  · rw [add_of_not_check hf (Bool.eq_false_iff.mpr hc)]
    exact hi

theorem Inv.add_blocks {s : HardForkState} (hi : s.Inv) (l : List (block × ℕ)) :
    (s.add_blocks l).Inv := by
  induction l generalizing s with
  | nil => exact hi
  | cons p l ih => exact ih (hi.add _ _ _)

/-! ## Rescans -/

theorem push_votes_eq (s : HardForkState) (bs : List block) :
    s.push_votes bs = { s with
      versions := s.versions ++ bs.map fun b => s.get_effective_version (get_block_vote b)
      last_versions := (bs.map fun b => s.get_effective_version (get_block_vote b)).foldl inc
        s.last_versions } := by
  induction bs generalizing s with
  | nil =>
    rw [push_votes, List.map_nil, List.append_nil, List.foldl_nil]
  | cons b bs ih =>
    rw [push_votes, ih]
    simp only [push_vote, List.map_cons, List.foldl_cons, List.append_assoc, List.singleton_append]
    rfl

theorem lower_fork_index_le (s : HardForkState) (start_version : UInt8) :
    ∀ i, s.lower_fork_index start_version i ≤ i
  | 0 => le_refl 0
  | i + 1 => by
    rw [lower_fork_index]
    split_ifs
    · exact Nat.le_succ_of_le (lower_fork_index_le s start_version i)
    · exact le_refl _

theorem raise_fork_index_lt (s : HardForkState) (lastv : UInt8) {i : ℕ}
    (hi : i < s.heights.length) : s.raise_fork_index lastv i < s.heights.length := by
  fun_induction raise_fork_index s lastv i with
  | case1 i hcond ih => exact ih hcond.1
  | case2 i _ => exact hi

/-- `rescan_from_block_height` keeps the invariant when the blocks from `height` up fit in the
window. -/
theorem Inv.rescan_from_block_height (hi : hf.Inv) (height : UInt64)
    (hroom : hf.db.blocks.length - height.toNat ≤ hf.window_size.toNat) :
    (hf.rescan_from_block_height height).state.Inv := by
  unfold HardForkState.rescan_from_block_height
  split_ifs with htop
  · exact hi
  · have hpush : (hf.clear_window.push_votes (hf.db.blocks.drop height.toNat)).Inv := by
      refine hi.clear_window.push_votes _ ?_
      show 0 + (hf.db.blocks.drop height.toNat).length ≤ hf.window_size.toNat
      rw [List.length_drop, Nat.zero_add]
      exact hroom
    dsimp only
    split
    · exact hpush
    · exact (hpush.with_fork_index
        (raise_fork_index_lt _ _ (List.length_pos_of_ne_nil hpush.heights_ne_nil))).raise_to_voted _

theorem Inv.rescan_from_chain_height (hi : hf.Inv) (height : UInt64)
    (hroom : height ≠ 0 → hf.db.blocks.length - (height - 1).toNat ≤ hf.window_size.toNat) :
    (hf.rescan_from_chain_height height).state.Inv := by
  unfold HardForkState.rescan_from_chain_height
  split_ifs with h0
  · exact hi
  · exact hi.rescan_from_block_height _ (hroom h0)

/-! ## `init` -/

theorem init_state_eq :
    hf.init.state = (hf.init_start.rescan_from_chain_height hf.init_height).state := by
  unfold init init_start init_schedule init_height
  dsimp only
  -- the two schedules agree once the test for an empty schedule is decided
  by_cases h : hf.heights = []
  · rw [if_pos h, if_pos h]
    split <;> rename_i heq <;> exact (congrArg EStateM.Result.state heq).symm
  · rw [if_neg h, if_neg h]
    split <;> rename_i heq <;> exact (congrArg EStateM.Result.state heq).symm

/-- The first height `init` rescans from leaves at most `window_size` blocks above it. -/
theorem init_rescan_room :
    hf.db.blocks.length - (hf.init_height - 1).toNat ≤ hf.window_size.toNat := by
  have hH : hf.db.height.toNat = hf.db.blocks.length := UInt64.toNat_ofNat_of_lt' hf.db.blocks_lt
  have hw0 : 0 < hf.window_size.toNat := UInt64.lt_iff_toNat_lt.mp hf.window_size_pos
  have hw1 : (hf.window_size - 1).toNat = hf.window_size.toNat - 1 :=
    UInt64.toNat_sub_of_le _ _ (UInt64.le_iff_toNat_le.mpr (by rw [UInt64.toNat_one]; omega))
  unfold init_height
  split_ifs with h
  · have hlt : hf.window_size.toNat < hf.db.height.toNat := UInt64.lt_iff_toNat_lt.mp h
    have hsub : (hf.db.height - (hf.window_size - 1)).toNat =
        hf.db.height.toNat - (hf.window_size.toNat - 1) := by
      rw [UInt64.toNat_sub_of_le _ _ (UInt64.le_iff_toNat_le.mpr (by omega)), hw1]
    have hsub1 : (hf.db.height - (hf.window_size - 1) - 1).toNat =
        hf.db.height.toNat - (hf.window_size.toNat - 1) - 1 := by
      rw [UInt64.toNat_sub_of_le _ _ (UInt64.le_iff_toNat_le.mpr (by rw [hsub, UInt64.toNat_one]; omega)),
        hsub, UInt64.toNat_one]
    rw [hsub1]
    omega
  · have hle : hf.db.height.toNat ≤ hf.window_size.toNat :=
      Nat.le_of_not_lt fun hlt => h (UInt64.lt_iff_toNat_lt.mpr hlt)
    rw [show (1 : UInt64) - 1 = 0 from rfl, UInt64.toNat_zero]
    omega

theorem init_start_heights_pos (hf : HardForkState) : 0 < hf.init_start.heights.length := by
  show 0 < hf.init_schedule.heights.length
  unfold init_schedule
  split_ifs with h
  · exact Nat.zero_lt_one
  · exact List.length_pos_of_ne_nil h

/-- `init` starts from a valid state when the database records no version above the last one of
the schedule it completes. -/
theorem Inv.init_start
    (hdb : ∀ height v, hf.db.get_hard_fork_version height = some v → v ≤ hf.init_start.max_version) :
    hf.init_start.Inv where
  window_le := Nat.zero_le _
  tracks := tracks_nil
  votes_le := fun _ hv => absurd hv List.not_mem_nil
  fork_index_lt := hf.init_start_heights_pos
  recorded_le := hdb

theorem Inv.init
    (hdb : ∀ height v, hf.db.get_hard_fork_version height = some v → v ≤ hf.init_start.max_version) :
    hf.init.state.Inv := by
  rw [init_state_eq]
  exact (Inv.init_start hdb).rescan_from_chain_height _ fun _ => init_rescan_room

/-! ## `reorganize_from_block_height` and `on_block_popped` -/

theorem toNat_window_size_sub_one {window_size : UInt64} (hw : 0 < window_size) :
    (window_size - 1).toNat = window_size.toNat - 1 := by
  have hw0 : 0 < window_size.toNat := UInt64.lt_iff_toNat_lt.mp hw
  exact UInt64.toNat_sub_of_le _ _ (UInt64.le_iff_toNat_le.mpr (by rw [UInt64.toNat_one]; omega))

/-- The blocks `reorganize_from_block_height` rescans, from `rescan_height` to `height`, fit in the
window. -/
theorem reorganize_rescan_room {window_size : UInt64} (hw : 0 < window_size) (height : UInt64) :
    height.toNat + 1 - (reorganize_rescan_height window_size height).toNat ≤ window_size.toNat := by
  have hw1 := toNat_window_size_sub_one hw
  have hw0 : 0 < window_size.toNat := UInt64.lt_iff_toNat_lt.mp hw
  unfold reorganize_rescan_height
  split_ifs with h
  · have hle := UInt64.le_iff_toNat_le.mp h
    rw [UInt64.toNat_sub_of_le _ _ h, hw1]
    omega
  · have hlt : height.toNat < window_size.toNat - 1 := by
      rw [← hw1]
      exact Nat.lt_of_not_le fun hle => h (UInt64.le_iff_toNat_le.mpr hle)
    rw [UInt64.toNat_zero]
    omega

theorem reorganize_from_block_height_of_top {height : UInt64} (htop : hf.db.height ≤ height) :
    hf.reorganize_from_block_height height = .ok false hf := by
  rw [reorganize_from_block_height, if_pos htop]

theorem reorganize_from_block_height_of_none {height : UInt64} (htop : ¬hf.db.height ≤ height)
    (hsv : hf.reorganize_start_version height = none) :
    hf.reorganize_from_block_height height =
      .error (BlockchainDB.missing_version_error height) hf.clear_window := by
  have hsv' : (if height = 0 then some hf.clear_window.original_version
      else hf.clear_window.db.get_hard_fork_version height) = none := hsv
  rw [reorganize_from_block_height, if_neg htop]
  dsimp only
  rw [hsv']

theorem reorganize_from_block_height_of_some {height : UInt64} (htop : ¬hf.db.height ≤ height)
    {start_version : UInt8} (hsv : hf.reorganize_start_version height = some start_version) :
    hf.reorganize_from_block_height height =
      .ok true ((hf.rebuild_window start_version height).add_blocks
        (((hf.rebuild_window start_version height).db.blocks.drop (height.toNat + 1)).zipIdx
          (height.toNat + 1))) := by
  have hsv' : (if height = 0 then some hf.clear_window.original_version
      else hf.clear_window.db.get_hard_fork_version height) = some start_version := hsv
  rw [reorganize_from_block_height, if_neg htop]
  dsimp only
  rw [hsv']
  rfl

theorem Inv.rebuild_window (hi : hf.Inv) (start_version : UInt8) (height : UInt64) :
    (hf.rebuild_window start_version height).Inv := by
  have hlow := hi.clear_window.with_fork_index
    (lt_of_le_of_lt (lower_fork_index_le hf.clear_window start_version _) hi.fork_index_lt)
  refine (hlow.push_votes _ ?_).raise_to_voted _
  show 0 + List.length (List.take _ _) ≤ hf.window_size.toNat
  rw [Nat.zero_add, List.length_take]
  exact le_trans (Nat.min_le_left _ _) (reorganize_rescan_room hf.window_size_pos height)

/-- `reorganize_from_block_height` keeps the invariant, also when it throws: the fork index only
moves down before the rescan, the rescanned votes fit in the window, and the later blocks go
through `add`. -/
theorem Inv.reorganize_from_block_height (hi : hf.Inv) (height : UInt64) :
    (hf.reorganize_from_block_height height).state.Inv := by
  by_cases htop : hf.db.height ≤ height
  · rw [reorganize_from_block_height_of_top htop]
    exact hi
  · cases hsv : hf.reorganize_start_version height with
    | none =>
      rw [reorganize_from_block_height_of_none htop hsv]
      exact hi.clear_window
    | some start_version =>
      rw [reorganize_from_block_height_of_some htop hsv]
      exact (hi.rebuild_window start_version height).add_blocks _

/-- The newest vote leaves the window. -/
theorem Inv.pop_back (hi : hf.Inv) {version : UInt8} (hlast : hf.versions.getLast? = some version) :
    ({ hf with versions := hf.versions.dropLast, last_versions := dec hf.last_versions version } :
        HardForkState).Inv ∧
      hf.versions.dropLast.length < hf.window_size.toNat := by
  obtain ⟨ys, hys⟩ := List.getLast?_eq_some_iff.mp hlast
  have hdrop : hf.versions.dropLast = ys := by rw [hys, List.dropLast_concat]
  have hlen : hf.versions.length = ys.length + 1 := by
    rw [hys, List.length_append, List.length_singleton]
  have hwin := hi.window_le
  refine ⟨{ hi with window_le := ?_, tracks := ?_, votes_le := ?_ }, ?_⟩
  · show hf.versions.dropLast.length ≤ hf.window_size.toNat
    rw [hdrop]
    omega
  · show Tracks _ hf.versions.dropLast
    rw [hdrop]
    exact (hys ▸ hi.tracks).pop_back
  · intro v hv
    exact hi.votes_le v (List.mem_of_mem_dropLast hv)
  · rw [hdrop]
    omega

/-- A vote enters the window at the front. -/
theorem Inv.push_front (hi : hf.Inv) (hroom : hf.versions.length < hf.window_size.toNat)
    {v : UInt8} (hv : v ≤ hf.max_version) :
    ({ hf with versions := v :: hf.versions, last_versions := inc hf.last_versions v } :
      HardForkState).Inv :=
  { hi with
    window_le := hroom
    tracks := hi.tracks.push_front v
    votes_le := by
      intro w hw
      rcases List.mem_cons.mp hw with hw | hw
      · rw [hw]
        exact hv
      · exact hi.votes_le w hw }

theorem Inv.pop_vote (hi : hf.Inv) {height : UInt64} {r : EStateM.Result String HardForkState Unit}
    (hr : hf.pop_vote height = some r) : r.state.Inv := by
  unfold HardForkState.pop_vote at hr
  split at hr
  · cases hr
  · rename_i version hlast
    obtain ⟨hpop, hroom⟩ := hi.pop_back hlast
    dsimp only at hr
    split at hr
    · cases hr
      exact hpop
    · rename_i version' hget
      cases hr
      -- the version read back was recorded by this object, so it is one of the schedule's
      exact hpop.push_front hroom (hpop.recorded_le height version' hget)

theorem Inv.pop_votes {s : HardForkState} (hi : s.Inv) {heights : List UInt64}
    {r : EStateM.Result String HardForkState Unit} (hr : s.pop_votes heights = some r) :
    r.state.Inv := by
  induction heights generalizing s with
  | nil =>
    rw [HardForkState.pop_votes] at hr
    cases hr
    exact hi
  | cons height heights ih =>
    rw [HardForkState.pop_votes] at hr
    split at hr
    · cases hr
    · rename_i e s' hpop
      cases hr
      exact hi.pop_vote hpop
    · rename_i s' hpop
      exact ih (hi.pop_vote hpop) hr

theorem fork_index_at_height_lt {s : HardForkState} (hne : s.heights ≠ [])
    (new_chain_height : UInt64) : s.fork_index_at_height new_chain_height < s.heights.length := by
  unfold fork_index_at_height
  split
  · rename_i p hfind
    have hmem : p ∈ s.heights.zipIdx :=
      List.mem_of_mem_drop (List.mem_reverse.mp (List.mem_of_find?_eq_some hfind))
    obtain ⟨f, i⟩ := p
    have hi := (List.mem_zipIdx hmem).2.1
    rwa [Nat.zero_add] at hi
  · exact List.length_pos_of_ne_nil hne

/-- `on_block_popped` keeps the invariant whenever the model follows it: each pass swaps the
newest vote for a recorded version at the front, and the fork index is set from the heights. -/
theorem Inv.on_block_popped (hi : hf.Inv) {nblocks : UInt64}
    {r : EStateM.Result String HardForkState Unit} (hr : hf.on_block_popped nblocks = some r) :
    r.state.Inv := by
  unfold HardForkState.on_block_popped at hr
  dsimp only at hr
  split_ifs at hr with h0 hnew
  · cases hr
    exact hi
  · split at hr
    · cases hr
    · rename_i e s hpop
      cases hr
      exact hi.pop_votes hpop
    · rename_i s hpop
      cases hr
      have hs := hi.pop_votes hpop
      exact hs.with_fork_index (fork_index_at_height_lt hs.heights_ne_nil _)

/-- The database may change under the object as long as the versions it recorded stay. -/
theorem Inv.with_db (hi : hf.Inv) {db : BlockchainDB} (hdb : db.hf_versions = hf.db.hf_versions) :
    ({ hf with db } : HardForkState).Inv :=
  { hi with
    recorded_le := fun height v (hget : db.hf_versions height = some v) => by
      rw [hdb] at hget
      exact hi.recorded_le height v hget }

/-- `add` only ever raises the fork index. -/
theorem add_fork_index_le (block_version voting_version : UInt8) (height : UInt64) :
    hf.current_fork_index ≤ (hf.add block_version voting_version height).2.current_fork_index := by
  by_cases hc : hf.do_check block_version voting_version = true
  · rw [add_of_check hf hc, raise_to_voted_eq]
    exact le_max_left _ _
  · rw [add_of_not_check hf (Bool.eq_false_iff.mpr hc)]

/-! ## Runs -/

/-- The states a node can drive the object into: `init` on an object whose database records no
version above the last one of the schedule `init` completes, then calls of `add`,
`on_block_popped` and `reorganize_from_block_height` in any order and with any arguments, with
blocks added to and taken off the database in between. A call that throws leaves the state it had
reached; an `on_block_popped` the model does not follow (an empty window, or a chain emptied to
height 0) is no step. -/
inductive Reachable : HardForkState → Prop
  | init {hf : HardForkState}
      (hdb : ∀ height v, hf.db.get_hard_fork_version height = some v →
        v ≤ hf.init_start.max_version) :
      Reachable hf.init.state
  | add {hf : HardForkState} (block_version voting_version : UInt8) (height : UInt64) :
      Reachable hf → Reachable (hf.add block_version voting_version height).2
  | on_block_popped {hf : HardForkState} {r : EStateM.Result String HardForkState Unit}
      (nblocks : UInt64) : Reachable hf → hf.on_block_popped nblocks = some r → Reachable r.state
  | reorganize {hf : HardForkState} (height : UInt64) :
      Reachable hf → Reachable (hf.reorganize_from_block_height height).state
  | db_add_block {hf : HardForkState} (b : block) (h : hf.db.blocks.length + 1 < 2 ^ 64) :
      Reachable hf → Reachable { hf with db := hf.db.add_block b h }
  | db_remove_block {hf : HardForkState} :
      Reachable hf → Reachable { hf with db := hf.db.remove_block }

theorem reachable_inv (hr : Reachable hf) : hf.Inv := by
  induction hr with
  | init hdb => exact Inv.init hdb
  | add block_version voting_version height _ ih => exact ih.add block_version voting_version height
  | on_block_popped nblocks _ hpop ih => exact ih.on_block_popped hpop
  | reorganize height _ ih => exact ih.reorganize_from_block_height height
  | db_add_block b h _ ih => exact ih.with_db rfl
  | db_remove_block _ ih => exact ih.with_db rfl

/-- The voting state of every object a node can reach keeps its window, its counts, its votes and
its fork index in step, and `add` never lowers the fork index; the counts are exact as long as the
window is below `2 ^ 32` votes, the range of the `unsigned int` counters. -/
theorem voting_state_invariant (hr : Reachable hf) (hw : hf.window_size.toNat < 2 ^ 32) :
    hf.versions.length ≤ hf.window_size.toNat ∧
      (∀ v, (hf.last_versions v).toNat = hf.versions.count v) ∧
      (∃ last, hf.heights.getLast? = some last ∧ ∀ v ∈ hf.versions, v ≤ last.version) ∧
      hf.current_fork_index < hf.heights.length ∧
      ∀ block_version voting_version height,
        hf.current_fork_index ≤ (hf.add block_version voting_version height).2.current_fork_index := by
  have hi := reachable_inv hr
  refine ⟨hi.window_le, hi.tracks.toNat_eq_count (lt_of_le_of_lt hi.window_le hw), ?_,
    hi.fork_index_lt, add_fork_index_le⟩
  refine ⟨hf.heights.getLast hi.heights_ne_nil, List.getLast?_eq_some_getLast _, fun v hv => ?_⟩
  rw [← max_version_eq]
  exact hi.votes_le v hv

/-- Blocks handed in turn to `BlockchainDB::add_block`, which stores each one and then passes it
to `add` at the height it was stored at; `none` once `add` refuses a block, which the caller
would have rejected before. -/
def add_chain (s : HardForkState) : List block → Option HardForkState
  | [] => some s
  | b :: bs =>
    if hroom : s.db.blocks.length + 1 < 2 ^ 64 then
      let r := ({ s with db := s.db.add_block b hroom } : HardForkState).add_block b s.db.height
      if r.1 then add_chain r.2 bs else none
    else none

/-- The induction rule of `add_chain`: what holds of the object and survives storing a block and
`add` accepting it holds once the whole chain is added. -/
theorem add_chain_rec {P : HardForkState → Prop}
    (step : ∀ (s : HardForkState) (b : block) (hroom : s.db.blocks.length + 1 < 2 ^ 64), P s →
      (({ s with db := s.db.add_block b hroom } : HardForkState).add_block b s.db.height).1 =
        true →
      P (({ s with db := s.db.add_block b hroom } : HardForkState).add_block b s.db.height).2)
    {s : HardForkState} (hs : P s) {bs : List block} {s' : HardForkState}
    (h : s.add_chain bs = some s') : P s' := by
  induction bs generalizing s with
  | nil =>
    cases h
    exact hs
  | cons b bs ih =>
    unfold HardForkState.add_chain at h
    split at h
    · next hroom =>
      dsimp only at h
      split at h
      · next hadd => exact ih (step s b hroom hs hadd) h
      · cases h
    · cases h

/-- A chain added block by block is a run of `db_add_block` and `add` steps. -/
theorem Reachable.add_chain {s : HardForkState} (hr : Reachable s) {bs : List block}
    {s' : HardForkState} (h : s.add_chain bs = some s') : Reachable s' :=
  add_chain_rec (fun _ b hroom hs _ => Reachable.add _ _ _ (Reachable.db_add_block b hroom hs)) hr h

/-- An object with a window of three votes on an empty chain, and the schedule `add_fork`
builds from version 1 at height 0 and version 2 at height 3, which needs 66% of the window. -/
def voting_start : HardForkState where
  db := ⟨[], fun _ => none, by decide⟩
  window_size := 3
  default_threshold_percent := 80
  schedule :=
    (((HardFork.empty 1).add_fork 1 0 0 0).bind fun s => s.add_fork 2 3 66 1).getD
      (HardFork.empty 1)
  versions := []
  last_versions := fun _ => 0
  current_fork_index := 0
  window_size_pos := by decide
  default_threshold_le := by decide

/-- Three blocks of version 1, two of them voting for 2, then two of version 2, the last voting
for a version above the schedule. -/
def voting_blocks : List block := [⟨1, 1⟩, ⟨1, 2⟩, ⟨1, 2⟩, ⟨2, 2⟩, ⟨2, 3⟩]

/-- `voting_start` after `init` and the five blocks: the window is full and version 2 is in
force. -/
def voting_added : HardForkState :=
  (voting_start.init.state.add_chain voting_blocks).get (by decide)

/-- `voting_added` after the top block is popped from the database and `on_block_popped(1)`. -/
def voting_popped : HardForkState :=
  ((({ voting_added with db := voting_added.db.remove_block } : HardForkState).on_block_popped
    1).get (by decide)).state

/-- `voting_popped` after `reorganize_from_block_height(1)`, which rebuilds the window from
the first two blocks and adds the two above them again. -/
def voting_reorganized : HardForkState := (voting_popped.reorganize_from_block_height 1).state

theorem voting_state_invariant_window_run :
    Reachable voting_reorganized ∧ voting_reorganized.window_size.toNat < 2 ^ 32 ∧
      voting_added.versions = [2, 2, 2] ∧ voting_added.current_fork_index = 1 ∧
      voting_reorganized.versions.length ≤ voting_reorganized.window_size.toNat ∧
      (∀ v, (voting_reorganized.last_versions v).toNat = voting_reorganized.versions.count v) ∧
      (∃ last, voting_reorganized.heights.getLast? = some last ∧
        ∀ v ∈ voting_reorganized.versions, v ≤ last.version) ∧
      voting_reorganized.current_fork_index < voting_reorganized.heights.length ∧
      ∀ block_version voting_version height,
        voting_reorganized.current_fork_index ≤
          (voting_reorganized.add block_version voting_version height).2.current_fork_index := by
  -- five blocks fill the window of three and carry the fork to version 2
  have h₁ : Reachable voting_added :=
    (Reachable.init fun _ _ hget => by cases hget).add_chain (Option.eq_some_of_isSome _)
  -- the top block leaves the database, then the window
  have h₂ : Reachable voting_popped :=
    Reachable.on_block_popped 1 (Reachable.db_remove_block h₁) (Option.eq_some_of_isSome _)
  -- the window is rebuilt up to height 1 and the blocks above it are added again
  have h₃ : Reachable voting_reorganized := Reachable.reorganize 1 h₂
  have hw : voting_reorganized.window_size.toNat < 2 ^ 32 := by decide
  exact ⟨h₃, hw, by decide, by decide, voting_state_invariant h₃ hw⟩

end HardForkState

end Salvium
