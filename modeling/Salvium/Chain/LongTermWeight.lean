import Mathlib
import Salvium.Basic
import Salvium.Config

/-!
# Salvium — long-term block weights

Every block gets a *long-term weight* besides its weight. `get_next_long_term_block_weight`
computes it when the block is added and `add_block` stores it. The node also keeps the long-term
weights of the last `m_long_term_block_weights_window` blocks in memory
(`m_long_term_block_weights_cache_rolling_median`) so that the long-term median is cheap; the
cache is refilled from the stored values whenever its tip is not the one asked for, and
`update_next_cumulative_weight_limit` pushes the new tip's value into it after every block.

The pushed value is not the stored one. The stored value is the raw weight below height
`CRYPTONOTE_LONG_TERM_BLOCK_WEIGHT_WINDOW_SIZE` and the weight clamped to
`[LTEM * 10 / 17, LTEM * 17 / 10]` from there on; the pushed value is
`min (weight, LTEM * 17 / 10)` at every height, where `LTEM` is the effective long-term median
the update reads off the cache before it pushes. `handle_block_caches_min_weight` shows, for
every state below that height, that the cache receives the weight cut at `1.7 * LTEM` while the
database keeps the raw weight; `cache_diverges_from_db` runs genesis and a block of weight
`550000` (below the first limit of `2 * 300000`) and gets `510000` in the cache against
`550000` stored.

The rolling median of `epee` is modelled by what it holds, the last `N` values inserted; its
heap only makes the median fast. Heights are `ℕ`: no height here comes near `2^64`.
-/

namespace Salvium

/-! ## `epee` medians -/

/-- `epee::misc_utils::get_mid`: the mean of two values, rounded down, without overflow. -/
def get_mid (a b : UInt64) : UInt64 :=
  a / 2 + b / 2 + ((a - 2 * (a / 2)) + (b - 2 * (b / 2))) / 2

/-- `epee::misc_utils::median`: the middle value, or the mean of the two middle ones. -/
def median (v : List UInt64) : UInt64 :=
  match v with
  | [] => 0
  | [x] => x
  | _ =>
    let n := v.length / 2
    let s := v.mergeSort (· ≤ ·)
    if v.length % 2 = 1 then s.getD n 0 else get_mid (s.getD (n - 1) 0) (s.getD n 0)

/-- `epee::misc_utils::rolling_median_t`, by its contents: the last `N` values inserted,
oldest first. -/
structure rolling_median_t where
  N : ℕ
  items : List UInt64
  length_le : items.length ≤ N

namespace rolling_median_t

def clear (r : rolling_median_t) : rolling_median_t := ⟨r.N, [], Nat.zero_le _⟩

def size (r : rolling_median_t) : ℕ := r.items.length

/-- Insert a value; once `N` values are held the oldest one goes. -/
def insert (r : rolling_median_t) (v : UInt64) : rolling_median_t where
  N := r.N
  items := (r.items ++ [v]).drop (r.items.length + 1 - r.N)
  length_le := by simp only [List.length_drop, List.length_append, List.length_singleton]; omega

def median (r : rolling_median_t) : UInt64 := Salvium.median r.items

@[simp] theorem N_clear (r : rolling_median_t) : r.clear.N = r.N := rfl

@[simp] theorem N_insert (r : rolling_median_t) (v : UInt64) : (r.insert v).N = r.N := rfl

@[simp] theorem N_foldl_insert (vs : List UInt64) (r : rolling_median_t) :
    (vs.foldl insert r).N = r.N := by
  induction vs generalizing r with
  | nil => rfl
  | cons v vs ih => rw [List.foldl_cons, ih, N_insert]

/-- The last value inserted is the newest one held, whenever the window has room for one. -/
theorem getLast?_insert (r : rolling_median_t) (v : UInt64) (hN : 0 < r.N) :
    (r.insert v).items.getLast? = some v := by
  simp only [insert]
  rw [List.getLast?_drop, if_neg (by simp; omega)]
  simp

end rolling_median_t

/-! ## The state the weight code reads -/

/-- The fields of `mdb_block_info` the weight code reads. -/
structure mdb_block_info where
  bi_weight : UInt64
  bi_long_term_block_weight : UInt64
  bi_hash : Crypto.Hash

/-- The part of `Blockchain` (and of its database's `block_info` table, one row per height)
that the long-term weight code reads and writes. -/
structure WeightState where
  blocks : List mdb_block_info
  m_long_term_block_weights_window : ℕ
  m_long_term_block_weights_cache_tip_hash : Crypto.Hash
  m_long_term_block_weights_cache_rolling_median : rolling_median_t
  m_long_term_effective_median_block_weight : UInt64
  m_current_block_cumul_weight_median : UInt64
  m_current_block_cumul_weight_limit : UInt64

def CRYPTONOTE_BLOCK_GRANTED_FULL_REWARD_ZONE_V1 : UInt64 := 20000
def CRYPTONOTE_BLOCK_GRANTED_FULL_REWARD_ZONE_V5 : UInt64 := 300000
def CRYPTONOTE_LONG_TERM_BLOCK_WEIGHT_WINDOW_SIZE : ℕ := 100000
def CRYPTONOTE_SHORT_TERM_BLOCK_WEIGHT_SURGE_FACTOR : UInt64 := 50
def CRYPTONOTE_REWARD_BLOCKS_WINDOW : ℕ := 100

/-- `cryptonote::get_min_block_weight`. -/
def get_min_block_weight (version : UInt8) : UInt64 :=
  if version < 2 then CRYPTONOTE_BLOCK_GRANTED_FULL_REWARD_ZONE_V1
  else CRYPTONOTE_BLOCK_GRANTED_FULL_REWARD_ZONE_V5

namespace WeightState

/-- `BlockchainLMDB::height`. -/
def height (s : WeightState) : ℕ := s.blocks.length

/-- The row at `height`, or the database's `BLOCK_DNE`. -/
def block_info (s : WeightState) (height : ℕ) : Except String mdb_block_info :=
  match s.blocks[height]? with
  | some bi => .ok bi
  | none => .error "Attempt to get block info from height failed -- block info not in db"

def get_block_weight (s : WeightState) (height : ℕ) : Except String UInt64 :=
  (·.bi_weight) <$> s.block_info height

def get_block_long_term_weight (s : WeightState) (height : ℕ) : Except String UInt64 :=
  (·.bi_long_term_block_weight) <$> s.block_info height

def get_block_hash_from_height (s : WeightState) (height : ℕ) : Except String Crypto.Hash :=
  (·.bi_hash) <$> s.block_info height

/-- `BlockchainLMDB::get_block_info_64bit_fields`: the field of the rows
`[start_height, start_height + count)` that exist; the start must exist. -/
def get_block_info_64bit_fields (s : WeightState) (start_height count : ℕ)
    (field : mdb_block_info → UInt64) : Except String (List UInt64) :=
  if start_height ≥ s.height then .error "Height not in blockchain"
  else .ok (((s.blocks.drop start_height).take count).map field)

def get_block_weights (s : WeightState) (start_height count : ℕ) : Except String (List UInt64) :=
  s.get_block_info_64bit_fields start_height count (·.bi_weight)

def get_long_term_block_weights (s : WeightState) (start_height count : ℕ) :
    Except String (List UInt64) :=
  s.get_block_info_64bit_fields start_height count (·.bi_long_term_block_weight)

/-- `Blockchain::get_last_n_blocks_weights`. -/
def get_last_n_blocks_weights (s : WeightState) (count : ℕ) : Except String (List UInt64) :=
  if s.height = 0 then .ok []
  else s.get_block_weights (s.height - min s.height count) count

/-- `Blockchain::get_long_term_block_weight_median`: from the cache when its tip is the
window's tip, by one insertion when the window moved up by one block, and from the database
otherwise. The cache fields are `mutable` in the source, so the state is returned. -/
def get_long_term_block_weight_median (s : WeightState) (start_height count : ℕ) :
    Except String (UInt64 × WeightState) := do
  if count = 0 then throw "count == 0"
  let blockchain_height := s.height
  let tip_height := start_height + count - 1
  let rm := s.m_long_term_block_weights_cache_rolling_median
  let (tip_hash, cached) ←
    if tip_height < blockchain_height ∧ count = rm.size then do
      let tip_hash ← s.get_block_hash_from_height tip_height
      pure (tip_hash, decide (tip_hash = s.m_long_term_block_weights_cache_tip_hash))
    else pure (Crypto.null_hash, false)
  if cached then return (rm.median, s)
  -- the window moved up by one block: one insertion
  if tip_height > 0 ∧ count = rm.size ∧ tip_height < blockchain_height then
    let old_tip_hash ← s.get_block_hash_from_height (tip_height - 1)
    if old_tip_hash = s.m_long_term_block_weights_cache_tip_hash then
      let rm := rm.insert (← s.get_block_long_term_weight tip_height)
      return (rm.median, { s with
        m_long_term_block_weights_cache_tip_hash := tip_hash
        m_long_term_block_weights_cache_rolling_median := rm })
  let weights ← s.get_long_term_block_weights start_height count
  let rm := weights.foldl rolling_median_t.insert rm.clear
  return (rm.median, { s with
    m_long_term_block_weights_cache_tip_hash := tip_hash
    m_long_term_block_weights_cache_rolling_median := rm })

/-- `Blockchain::get_next_long_term_block_weight`: the long-term weight stored for a new
block of weight `block_weight`. -/
def get_next_long_term_block_weight (s : WeightState) (block_weight : UInt64) :
    Except String (UInt64 × WeightState) := do
  let db_height := s.height
  let nblocks := min s.m_long_term_block_weights_window db_height
  if db_height < CRYPTONOTE_LONG_TERM_BLOCK_WEIGHT_WINDOW_SIZE then return (block_weight, s)
  let (long_term_median, s) ← s.get_long_term_block_weight_median (db_height - nblocks) nblocks
  let long_term_effective_median_block_weight :=
    max CRYPTONOTE_BLOCK_GRANTED_FULL_REWARD_ZONE_V5 long_term_median
  let block_weight := max block_weight (long_term_effective_median_block_weight * 10 / 17)
  let short_term_constraint := long_term_effective_median_block_weight
    + long_term_effective_median_block_weight * 7 / 10
  return (min block_weight short_term_constraint, s)

/-- `Blockchain::update_next_cumulative_weight_limit`, after the tip changed; `hf_version` is
the current hard-fork version. -/
def update_next_cumulative_weight_limit (s : WeightState) (hf_version : UInt8) :
    Except String WeightState := do
  let db_height := s.height
  let full_reward_zone := get_min_block_weight hf_version
  let block_weight ← s.get_block_weight (db_height - 1)
  let (long_term_median, s) ←
    if db_height = 1 then pure (CRYPTONOTE_BLOCK_GRANTED_FULL_REWARD_ZONE_V5, s)
    else do
      let nblocks := min s.m_long_term_block_weights_window db_height
      let nblocks := if nblocks = db_height then nblocks - 1 else nblocks
      s.get_long_term_block_weight_median (db_height - nblocks - 1) nblocks
  let long_term_effective := max CRYPTONOTE_BLOCK_GRANTED_FULL_REWARD_ZONE_V5 long_term_median
  let short_term_constraint := long_term_effective + long_term_effective * 7 / 10
  let long_term_block_weight := min block_weight short_term_constraint
  let (long_term_median, s) ←
    if db_height = 1 then pure (long_term_block_weight, s)
    else do
      let tip_hash ← s.get_block_hash_from_height (db_height - 1)
      let rm := s.m_long_term_block_weights_cache_rolling_median.insert long_term_block_weight
      pure (rm.median, { s with
        m_long_term_block_weights_cache_tip_hash := tip_hash
        m_long_term_block_weights_cache_rolling_median := rm })
  let long_term_effective := max CRYPTONOTE_BLOCK_GRANTED_FULL_REWARD_ZONE_V5 long_term_median
  let weights ← s.get_last_n_blocks_weights CRYPTONOTE_REWARD_BLOCKS_WINDOW
  let short_term_median := median weights
  let effective_median_block_weight := min (max long_term_effective short_term_median)
    (CRYPTONOTE_SHORT_TERM_BLOCK_WEIGHT_SURGE_FACTOR * long_term_effective)
  let cumul_median := if effective_median_block_weight ≤ full_reward_zone then full_reward_zone
    else effective_median_block_weight
  return { s with
    m_long_term_effective_median_block_weight := long_term_effective
    m_current_block_cumul_weight_median := cumul_median
    m_current_block_cumul_weight_limit := cumul_median * 2 }

/-- The weight part of `Blockchain::handle_block_to_main_chain`: compute and store the
long-term weight of a block that passed validation, then update the limits. -/
def handle_block_to_main_chain (s : WeightState) (block_weight : UInt64) (blk_hash : Crypto.Hash)
    (hf_version : UInt8) : Except String WeightState := do
  let (long_term_block_weight, s) ← s.get_next_long_term_block_weight block_weight
  let s := { s with blocks := s.blocks ++ [mdb_block_info.mk block_weight long_term_block_weight blk_hash] }
  s.update_next_cumulative_weight_limit hf_version

/-- A node before genesis: an empty cache of the default window. -/
def init : WeightState where
  blocks := []
  m_long_term_block_weights_window := CRYPTONOTE_LONG_TERM_BLOCK_WEIGHT_WINDOW_SIZE
  m_long_term_block_weights_cache_tip_hash := Crypto.null_hash
  m_long_term_block_weights_cache_rolling_median :=
    ⟨CRYPTONOTE_LONG_TERM_BLOCK_WEIGHT_WINDOW_SIZE, [], Nat.zero_le _⟩
  m_long_term_effective_median_block_weight := 0
  m_current_block_cumul_weight_median := 0
  m_current_block_cumul_weight_limit := 0

end WeightState

end Salvium

namespace Salvium.WeightState

/-- What the median lookup may change: the cache, never the database or the window size. -/
theorem get_long_term_block_weight_median_frame {s s' : WeightState} {start_height count : ℕ}
    {m : UInt64} (h : s.get_long_term_block_weight_median start_height count = .ok (m, s')) :
    s'.blocks = s.blocks ∧ s'.m_long_term_block_weights_window = s.m_long_term_block_weights_window
      ∧ s'.m_long_term_block_weights_cache_rolling_median.N
        = s.m_long_term_block_weights_cache_rolling_median.N := by
  simp only [get_long_term_block_weight_median, bind, Except.bind, pure, Except.pure] at h
  repeat' split at h
  -- every branch either throws or returns the state with only its cache fields rewritten
  all_goals cases h
  all_goals exact ⟨rfl, rfl, by simp⟩

/-- Below `CRYPTONOTE_LONG_TERM_BLOCK_WEIGHT_WINDOW_SIZE` the stored long-term weight is the
raw weight, and nothing is looked up. -/
theorem get_next_long_term_block_weight_of_lt {s : WeightState}
    (hh : s.height < CRYPTONOTE_LONG_TERM_BLOCK_WEIGHT_WINDOW_SIZE) (block_weight : UInt64) :
    s.get_next_long_term_block_weight block_weight = .ok (block_weight, s) := by
  simp [get_next_long_term_block_weight, hh, pure, Except.pure]

/-- **What `update_next_cumulative_weight_limit` pushes.** Past the block after genesis, the
value inserted into the cache is the tip's raw weight cut at `1.7` times the effective long-term
median: the median of the long-term weights of the `min window (height - 1)` blocks below the
tip, raised to the full reward zone. -/
theorem update_next_cumulative_weight_limit_pushes {s s' : WeightState} {hf_version : UInt8}
    {w : UInt64} (h2 : 2 ≤ s.height) (hw : s.get_block_weight (s.height - 1) = .ok w)
    (h : s.update_next_cumulative_weight_limit hf_version = .ok s') :
    s'.blocks = s.blocks ∧ ∃ long_term_median s₁,
      s.get_long_term_block_weight_median
          (s.height - 1 - min s.m_long_term_block_weights_window (s.height - 1))
          (min s.m_long_term_block_weights_window (s.height - 1)) = .ok (long_term_median, s₁) ∧
        s'.m_long_term_block_weights_cache_rolling_median =
          s₁.m_long_term_block_weights_cache_rolling_median.insert (min w
            (max CRYPTONOTE_BLOCK_GRANTED_FULL_REWARD_ZONE_V5 long_term_median +
              max CRYPTONOTE_BLOCK_GRANTED_FULL_REWARD_ZONE_V5 long_term_median * 7 / 10)) := by
  simp only [update_next_cumulative_weight_limit, hw, if_neg (by omega : ¬s.height = 1), bind,
    Except.bind, pure, Except.pure] at h
  -- the window the code reads, in closed form
  have hcount : (if min s.m_long_term_block_weights_window s.height = s.height then
      min s.m_long_term_block_weights_window s.height - 1
      else min s.m_long_term_block_weights_window s.height) =
        min s.m_long_term_block_weights_window (s.height - 1) := by
    split <;> omega
  have hstart : s.height - min s.m_long_term_block_weights_window (s.height - 1) - 1 =
      s.height - 1 - min s.m_long_term_block_weights_window (s.height - 1) := by
    omega
  rw [hcount, hstart] at h
  -- peel the three lookups; only the median lookup touches the state, and only its cache
  split at h
  next => cases h
  next v hv =>
    obtain ⟨m, s₁⟩ := v
    obtain ⟨hblocks, -, -⟩ := get_long_term_block_weight_median_frame hv
    split at h
    next => cases h
    next =>
      split at h
      next => cases h
      next =>
        cases h
        exact ⟨hblocks, m, s₁, hv, rfl⟩

/-- **The cache receives the cut weight while the database keeps the raw one.** From every
state past genesis and below `CRYPTONOTE_LONG_TERM_BLOCK_WEIGHT_WINDOW_SIZE`, adding a block of
weight `w` stores `w` as its long-term weight but inserts `min w (1.7 * ltem)` into the cache,
where `ltem` is the effective long-term median of the `min window height` blocks below the new
one, at least the full reward zone: the two differ for every block heavier than that bound. -/
theorem handle_block_caches_min_weight {s s' : WeightState} {block_weight : UInt64}
    {blk_hash : Crypto.Hash} {hf_version : UInt8} (h1 : 1 ≤ s.height)
    (hlt : s.height < CRYPTONOTE_LONG_TERM_BLOCK_WEIGHT_WINDOW_SIZE)
    (hN : 0 < s.m_long_term_block_weights_cache_rolling_median.N)
    (h : s.handle_block_to_main_chain block_weight blk_hash hf_version = .ok s') :
    s'.blocks.getLast?.map (·.bi_long_term_block_weight) = some block_weight ∧
      ∃ long_term_median s₂,
        ({ s with blocks := s.blocks ++ [mdb_block_info.mk block_weight block_weight blk_hash] } :
            WeightState).get_long_term_block_weight_median
          (s.height - min s.m_long_term_block_weights_window s.height)
          (min s.m_long_term_block_weights_window s.height) = .ok (long_term_median, s₂) ∧
        s'.m_long_term_block_weights_cache_rolling_median.items.getLast? =
          some (min block_weight (max CRYPTONOTE_BLOCK_GRANTED_FULL_REWARD_ZONE_V5 long_term_median +
            max CRYPTONOTE_BLOCK_GRANTED_FULL_REWARD_ZONE_V5 long_term_median * 7 / 10)) := by
  simp only [handle_block_to_main_chain, get_next_long_term_block_weight_of_lt hlt, bind,
    Except.bind] at h
  -- the block is stored with its raw weight as long-term weight
  set s₁ : WeightState :=
    { s with blocks := s.blocks ++ [mdb_block_info.mk block_weight block_weight blk_hash] }
  have hh₁ : s₁.height = s.height + 1 := by simp [s₁, height]
  have hw : s₁.get_block_weight (s₁.height - 1) = .ok block_weight := by
    simp [s₁, get_block_weight, block_info, height, Functor.map, Except.map]
  obtain ⟨hblocks, m, s₂, hv, hrm⟩ := update_next_cumulative_weight_limit_pushes (by omega) hw h
  rw [hh₁, Nat.add_sub_cancel] at hv
  -- the lookup keeps the cache's capacity, so the pushed value is the newest
  have hN₂ := (get_long_term_block_weight_median_frame hv).2.2
  refine ⟨by simp [hblocks, s₁], m, s₂, hv, ?_⟩
  rw [hrm]
  exact rolling_median_t.getLast?_insert _ _ (by rw [hN₂]; exact hN)

/-- The state after a genesis block of weight `1000`. -/
def genesis_weights : WeightState :=
  match init.handle_block_to_main_chain 1000 ⟨Vector.replicate 32 1⟩ HF_VERSION_CARROT with
  | .ok s => s
  | .error _ => init

theorem handle_block_caches_min_weight_second :
    ∃ s', genesis_weights.handle_block_to_main_chain 550000 ⟨Vector.replicate 32 2⟩
        HF_VERSION_CARROT = .ok s' ∧
      s'.blocks.getLast?.map (·.bi_long_term_block_weight) = some 550000 ∧
      ∃ long_term_median s₂,
        ({ genesis_weights with
            blocks := genesis_weights.blocks ++ [mdb_block_info.mk 550000 550000
              ⟨Vector.replicate 32 2⟩] } : WeightState).get_long_term_block_weight_median
          (genesis_weights.height - min genesis_weights.m_long_term_block_weights_window
            genesis_weights.height)
          (min genesis_weights.m_long_term_block_weights_window genesis_weights.height) =
            .ok (long_term_median, s₂) ∧
        s'.m_long_term_block_weights_cache_rolling_median.items.getLast? =
          some (min 550000 (max CRYPTONOTE_BLOCK_GRANTED_FULL_REWARD_ZONE_V5 long_term_median +
            max CRYPTONOTE_BLOCK_GRANTED_FULL_REWARD_ZONE_V5 long_term_median * 7 / 10)) := by
  have hok : (genesis_weights.handle_block_to_main_chain 550000 ⟨Vector.replicate 32 2⟩
      HF_VERSION_CARROT).isOk = true := by decide
  cases h : genesis_weights.handle_block_to_main_chain 550000 ⟨Vector.replicate 32 2⟩
      HF_VERSION_CARROT with
  | error e =>
    rw [h] at hok
    cases hok
  | ok s' => exact ⟨s', rfl, handle_block_caches_min_weight (by decide) (by decide) (by decide) h⟩

/-- Genesis of weight `1000`, then a block of weight `550000` (below the first limit of
`2 * 300000`): the database stores `550000` as the block's long-term weight, the cache holds
`510000` for it. -/
theorem cache_diverges_from_db :
    ((init.handle_block_to_main_chain 1000 ⟨Vector.replicate 32 1⟩ HF_VERSION_CARROT) >>= fun s =>
        s.handle_block_to_main_chain 550000 ⟨Vector.replicate 32 2⟩ HF_VERSION_CARROT).map
      (fun s => (s.m_long_term_block_weights_cache_rolling_median.items,
        s.blocks.map (·.bi_long_term_block_weight)))
      = .ok ([1000, 510000], [1000, 550000]) := by
  decide

end Salvium.WeightState
