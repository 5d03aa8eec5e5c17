import Mathlib
import Salvium.Db.Yield

/-!
# Salvium — the yield cache of `Blockchain`

`Blockchain` keeps in memory the yield rows of the last `STAKE_LOCK_PERIOD + 1` blocks
(`m_yield_block_info_cache`), which the payout code reads instead of the database. Two code
paths maintain it:

* `handle_block_to_main_chain`, after the database has appended the new block's row, erases
  the row that left the window (key `new_height - STAKE_LOCK_PERIOD - 2`, computed in
  `uint64_t`: it wraps to `2^64 - 1` when `new_height = STAKE_LOCK_PERIOD + 1`, a key no
  row has) and inserts the new one;
* `pop_block_from_blockchain` removes the top block from the database and rebuilds the
  cache from it (`rebuild_ybi_cache`).

`validate_ybi_cache` checks the cache's size and its two ends.

The state machine `Step` is a block added or popped from any state; `Reachable` is what it
reaches from the empty chain. `reachable_inv` carries `Inv` over every run: the database
invariant of `Salvium.Db.Yield` and `CacheSpec`, which says the cache maps exactly the heights
`[h - min h (L + 1), h)` to their rows. From it: `keys_eq_Ico` and `validate_ybi_cache_eq`.
-/

namespace Salvium

open Window

/-- The fields of `cryptonote::Blockchain` the yield bookkeeping reads and writes. The cache,
a `std::map<uint64_t, yield_block_info>`, is keyed by the key's value. -/
structure Blockchain where
  m_db : BlockchainLMDB
  m_nettype : network_type
  m_yield_block_info_cache : Finmap fun _ : ℕ => yield_block_info

namespace Blockchain

/-- A node on network `nettype` before its genesis block. -/
def init (nettype : network_type) : Blockchain := ⟨⟨[], []⟩, nettype, ∅⟩

/-- The database write and the cache update of `Blockchain::handle_block_to_main_chain`, for a
block that passed validation; the block's yield, audit and slippage totals are what
`BlockchainDB::add_block` sums over its transactions. -/
def handle_block_to_main_chain (bc : Blockchain) (slippage_total yield_total audit_total : UInt64) :
    Except String Blockchain := do
  let (db, new_height, new_ybi) ←
    bc.m_db.add_block slippage_total yield_total audit_total bc.m_nettype
  let yield_lock_period := (← get_config bc.m_nettype).STAKE_LOCK_PERIOD
  let cache := bc.m_yield_block_info_cache
  let cache :=
    if new_height > yield_lock_period then
      let key := (new_height - yield_lock_period - 2).toNat
      if key ∈ cache then cache.erase key else cache
    else cache
  pure { bc with m_db := db, m_yield_block_info_cache := cache.insert new_ybi.block_height.toNat new_ybi }

/-- The loop of `Blockchain::rebuild_ybi_cache`: store the row of each height, and stop with
`false` at the first height whose row is missing. -/
def rebuild_ybi_cache.fill (db : BlockchainLMDB) :
    List ℕ → (Finmap fun _ : ℕ => yield_block_info) → Bool × (Finmap fun _ : ℕ => yield_block_info)
  | [], cache => (true, cache)
  | idx :: rest, cache =>
    match db.get_yield_block_info (UInt64.ofNat idx) with
    | some ybi => rebuild_ybi_cache.fill db rest (cache.insert idx ybi)
    | none => (false, cache)

/-- `Blockchain::rebuild_ybi_cache`: clear the cache and refill it with the last
`min height (STAKE_LOCK_PERIOD + 1)` rows. -/
def rebuild_ybi_cache (bc : Blockchain) : Except String (Bool × Blockchain) := do
  let height : UInt64 := UInt64.ofNat bc.m_db.height
  let yield_lock_period := (← get_config bc.m_nettype).STAKE_LOCK_PERIOD
  let ybi_cache_expected_size := min height (yield_lock_period + 1)
  let (ok, cache) := rebuild_ybi_cache.fill bc.m_db
    (List.range' (height - ybi_cache_expected_size).toNat ybi_cache_expected_size.toNat) ∅
  pure (ok, { bc with m_yield_block_info_cache := cache })

/-- `Blockchain::validate_ybi_cache`. -/
def validate_ybi_cache (bc : Blockchain) : Except String Bool := do
  let height : UInt64 := UInt64.ofNat bc.m_db.height
  let yield_lock_period := (← get_config bc.m_nettype).STAKE_LOCK_PERIOD
  let ybi_cache_expected_size := min height (yield_lock_period + 1)
  if bc.m_yield_block_info_cache.keys.card ≠ ybi_cache_expected_size.toNat then return false
  if (height - 1).toNat ∉ bc.m_yield_block_info_cache then return false
  if (height - ybi_cache_expected_size).toNat ∉ bc.m_yield_block_info_cache then return false
  return true

/-- The yield part of `Blockchain::pop_block_from_blockchain`: the genesis block stays, the
database drops the top block, and the cache is rebuilt (its result is not checked). -/
def pop_block_from_blockchain (bc : Blockchain) : Except String Blockchain := do
  if ¬bc.m_db.height > 1 then throw "Cannot pop the genesis block"
  let db ← bc.m_db.pop_block
  let (_, bc) ← rebuild_ybi_cache { bc with m_db := db }
  pure bc

/-! ## Runs -/

/-- One block added to the main chain, or the top block popped. A run adds at most
`2^64 - 1` blocks, since the height is a `uint64_t`. A call that throws changes nothing and
is not a step. -/
inductive Step : Blockchain → Blockchain → Prop
  | handle_block {bc bc' : Blockchain} (slippage_total yield_total audit_total : UInt64)
      (hroom : bc.m_db.height + 1 < 2 ^ 64)
      (h : bc.handle_block_to_main_chain slippage_total yield_total audit_total = .ok bc') :
      Step bc bc'
  | pop_block {bc bc' : Blockchain} (h : bc.pop_block_from_blockchain = .ok bc') : Step bc bc'

/-- The states a node on `nettype` reaches from the empty chain. -/
inductive Reachable (nettype : network_type) : Blockchain → Prop
  | init : Reachable nettype (init nettype)
  | step {bc bc' : Blockchain} : Reachable nettype bc → Step bc bc' → Reachable nettype bc'

/-! ## The invariant -/

/-- **The cache holds exactly the rows of the last `min h (L + 1)` heights.** -/
def CacheSpec (L : ℕ) (bc : Blockchain) : Prop :=
  ∀ k, bc.m_yield_block_info_cache.lookup k =
    if bc.m_db.height - min bc.m_db.height (L + 1) ≤ k ∧ k < bc.m_db.height
    then some (bc.m_db.row k) else none

/-- The invariant of every reachable state, on a network whose configuration is `cfg`. -/
structure Inv (cfg : config_t) (bc : Blockchain) : Prop where
  config : get_config bc.m_nettype = .ok cfg
  db : bc.m_db.Inv cfg.STAKE_LOCK_PERIOD.toNat
  cache : CacheSpec cfg.STAKE_LOCK_PERIOD.toNat bc

theorem inv_init {nettype : network_type} {cfg : config_t} (hcfg : get_config nettype = .ok cfg) :
    Inv cfg (init nettype) where
  config := hcfg
  db := BlockchainLMDB.inv_empty _
  cache k := by simp [init, BlockchainLMDB.height]

/-! ## `handle_block_to_main_chain` keeps the invariant -/

/-- Erasing a key only when present is erasing it. -/
theorem lookup_erase_if_mem {β : Type} (m : Finmap fun _ : ℕ => β) (a k : ℕ) :
    (if a ∈ m then m.erase a else m).lookup k = if k = a then none else m.lookup k := by
  split_ifs with ha hk hk
  · rw [hk, Finmap.lookup_erase]
  · exact Finmap.lookup_erase_ne hk
  · rw [hk, Finmap.lookup_eq_none.mpr ha]
  · rfl

theorem inv_handle_block {cfg : config_t} {bc bc' : Blockchain} (hinv : Inv cfg bc)
    (hroom : bc.m_db.height + 1 < 2 ^ 64) {slippage_total yield_total audit_total : UInt64}
    (h : bc.handle_block_to_main_chain slippage_total yield_total audit_total = .ok bc') :
    Inv cfg bc' := by
  simp only [handle_block_to_main_chain, BlockchainLMDB.add_block_eq hinv.config hroom,
    hinv.config, bind, Except.bind, pure, Except.pure, Except.ok.injEq] at h
  subst h
  have hh64 : bc.m_db.height < 2 ^ 64 := by omega
  have hL64 := cfg.STAKE_LOCK_PERIOD.toNat_lt
  refine ⟨hinv.config, BlockchainLMDB.inv_append_nextRow hinv.db hroom _ _ _, fun k => ?_⟩
  simp only [BlockchainLMDB.height_append, BlockchainLMDB.nextRow_block_height_toNat hh64]
  by_cases hk : k = bc.m_db.height
  · -- the new row
    subst hk
    rw [Finmap.lookup_insert, if_pos (by omega), BlockchainLMDB.row_append_self]
  · rw [Finmap.lookup_insert_of_ne _ hk]
    -- below the top, the new table's rows are the old ones
    have hrow (hlt : k < bc.m_db.height + 1) :
        (BlockchainLMDB.mk (bc.m_db.yield_blocks ++ [bc.m_db.nextRow cfg.STAKE_LOCK_PERIOD.toNat
          slippage_total yield_total]) (bc.m_db.audit_blocks ++ [⟨UInt64.ofNat bc.m_db.height,
            audit_total⟩])).row k = bc.m_db.row k :=
      BlockchainLMDB.row_append_of_lt (by omega) _ _
    have hold := hinv.cache k
    have hnew : (UInt64.ofNat (bc.m_db.height + 1)).toNat = bc.m_db.height + 1 :=
      UInt64.toNat_ofNat_of_lt' (by simp [UInt64.size]; omega)
    by_cases hgt : UInt64.ofNat (bc.m_db.height + 1) > cfg.STAKE_LOCK_PERIOD
    · -- the erased key is the height that left the window, or `2^64 - 1` when none left
      have hgt' : cfg.STAKE_LOCK_PERIOD.toNat < bc.m_db.height + 1 := by
        rwa [gt_iff_lt, UInt64.lt_iff_toNat_lt, hnew] at hgt
      have hkey : (UInt64.ofNat (bc.m_db.height + 1) - cfg.STAKE_LOCK_PERIOD - 2).toNat
          = (2 ^ 64 - 2 + (2 ^ 64 - cfg.STAKE_LOCK_PERIOD.toNat + (bc.m_db.height + 1)) % 2 ^ 64)
            % 2 ^ 64 := by
        rw [UInt64.toNat_sub, UInt64.toNat_sub, hnew]; rfl
      rw [if_pos hgt, lookup_erase_if_mem, hold, hkey]
      split_ifs <;> first | rfl | omega | (rw [hrow (by omega)])
    · have hgt' : ¬cfg.STAKE_LOCK_PERIOD.toNat < bc.m_db.height + 1 := by
        rwa [gt_iff_lt, UInt64.lt_iff_toNat_lt, hnew] at hgt
      rw [if_neg hgt, hold]
      split_ifs <;> first | rfl | omega | (rw [hrow (by omega)])

/-! ## `pop_block_from_blockchain` keeps the invariant -/

/-- **The rebuild loop fills the whole range.** Over heights `[lo, lo + n)` that all have
rows, the loop succeeds and adds each height's row to the map it started from. -/
theorem fill_range' (db : BlockchainLMDB) (hh : db.height < 2 ^ 64) :
    ∀ (n lo : ℕ) (cache : Finmap fun _ : ℕ => yield_block_info), lo + n ≤ db.height →
      (rebuild_ybi_cache.fill db (List.range' lo n) cache).1 = true ∧
      ∀ k, (rebuild_ybi_cache.fill db (List.range' lo n) cache).2.lookup k =
        if lo ≤ k ∧ k < lo + n then some (db.row k) else cache.lookup k
  | 0, lo, cache, _ => ⟨rfl, fun k => by simp [rebuild_ybi_cache.fill]⟩
  | n + 1, lo, cache, hn => by
    have hlo : db.get_yield_block_info (UInt64.ofNat lo) = some (db.row lo) := by
      have hlo64 : (UInt64.ofNat lo).toNat = lo := UInt64.toNat_ofNat_of_lt' (by
        simp [UInt64.size]; omega)
      rw [BlockchainLMDB.get_yield_block_info_of_lt (by omega), hlo64]
    -- the first height's row goes in; the rest of the range is the loop's tail
    obtain ⟨hok, hrest⟩ := fill_range' db hh n (lo + 1) (cache.insert lo (db.row lo)) (by omega)
    simp only [List.range'_succ, rebuild_ybi_cache.fill, hlo]
    refine ⟨hok, fun k => ?_⟩
    rw [hrest k]
    by_cases hk : k = lo
    · subst hk; simp
    · rw [Finmap.lookup_insert_of_ne _ hk]
      split_ifs <;> first | rfl | omega

theorem inv_pop_block {cfg : config_t} {bc bc' : Blockchain} (hinv : Inv cfg bc)
    (h : bc.pop_block_from_blockchain = .ok bc') : Inv cfg bc' := by
  have hh64 := hinv.db.height_lt
  have hL64 := cfg.STAKE_LOCK_PERIOD.toNat_lt
  have hL := stake_lock_period_le hinv.config
  by_cases hgt : bc.m_db.height > 1
  · simp only [pop_block_from_blockchain, BlockchainLMDB.pop_block, BlockchainLMDB.remove_block,
      rebuild_ybi_cache, hinv.config, hgt, not_true_eq_false, if_false,
      if_neg (by omega : ¬bc.m_db.height = 0), bind, Except.bind, pure, Except.pure,
      Except.ok.injEq] at h
    subst h
    set db' : BlockchainLMDB := ⟨bc.m_db.yield_blocks.dropLast, bc.m_db.audit_blocks.take
      (bc.m_db.height - 1)⟩
    have hdb' : db'.height = bc.m_db.height - 1 := BlockchainLMDB.height_dropLast _ _
    -- the loop's bounds, read back from `uint64_t`
    have hh' : (UInt64.ofNat db'.height).toNat = bc.m_db.height - 1 := by
      rw [UInt64.toNat_ofNat_of_lt' (by simp [UInt64.size]; omega), hdb']
    have hsize : (UInt64.ofNat db'.height ⊓ (cfg.STAKE_LOCK_PERIOD + 1)).toNat
        = min (bc.m_db.height - 1) (cfg.STAKE_LOCK_PERIOD.toNat + 1) := by
      rw [UInt64.toNat_min, hh', UInt64.toNat_add]
      simp only [UInt64.toNat_one]
      rw [Nat.mod_eq_of_lt (by omega)]
    have hle : UInt64.ofNat db'.height ⊓ (cfg.STAKE_LOCK_PERIOD + 1) ≤ UInt64.ofNat db'.height := by
      rw [UInt64.le_iff_toNat_le, hsize, hh']; omega
    have hlo : (UInt64.ofNat db'.height - UInt64.ofNat db'.height ⊓ (cfg.STAKE_LOCK_PERIOD + 1)).toNat
        = bc.m_db.height - 1 - min (bc.m_db.height - 1) (cfg.STAKE_LOCK_PERIOD.toNat + 1) := by
      rw [UInt64.toNat_sub_of_le _ _ hle, hsize, hh']
    have hfill := (fill_range' db' (by omega)
      (min (bc.m_db.height - 1) (cfg.STAKE_LOCK_PERIOD.toNat + 1))
      (bc.m_db.height - 1 - min (bc.m_db.height - 1) (cfg.STAKE_LOCK_PERIOD.toNat + 1)) ∅
      (by omega)).2
    refine ⟨hinv.config, BlockchainLMDB.inv_dropLast hinv.db _, fun k => ?_⟩
    show (rebuild_ybi_cache.fill _ _ _).2.lookup k = _
    rw [hlo, hsize, hfill k, Finmap.lookup_empty]
    simp only [hdb']
    split_ifs <;> first | rfl | omega
  · simp only [pop_block_from_blockchain, hgt, not_false_eq_true, if_true] at h
    cases h

/-! ## Every run -/

theorem inv_step {cfg : config_t} {bc bc' : Blockchain} (hinv : Inv cfg bc) (hstep : Step bc bc') :
    Inv cfg bc' := by
  cases hstep with
  | handle_block _ _ _ hroom h => exact inv_handle_block hinv hroom h
  | pop_block h => exact inv_pop_block hinv h

/-- **The invariant holds in every reachable state.** -/
theorem reachable_inv {nettype : network_type} {cfg : config_t} (hcfg : get_config nettype = .ok cfg)
    {bc : Blockchain} (hreach : Reachable nettype bc) : Inv cfg bc := by
  induction hreach with
  | init => exact inv_init hcfg
  | step _ hstep ih => exact inv_step ih hstep

/-! ## What the cache invariant gives -/

section Cache

variable {L : ℕ} {bc : Blockchain}

theorem keys_eq_Ico (hspec : CacheSpec L bc) :
    bc.m_yield_block_info_cache.keys
      = Finset.Ico (bc.m_db.height - min bc.m_db.height (L + 1)) bc.m_db.height := by
  ext k
  rw [Finmap.mem_keys, ← Finmap.lookup_isSome, hspec k, Finset.mem_Ico]
  split_ifs with hk
  · simp [hk]
  · simp only [Option.isSome_none, Bool.false_eq_true, false_iff]
    exact hk

/-- Every cached row is the row the database stores under that height. -/
theorem lookup_eq_get_yield_block_info (hspec : CacheSpec L bc) (hh : bc.m_db.height < 2 ^ 64)
    {k : ℕ} (hk : k ∈ bc.m_yield_block_info_cache.keys) :
    bc.m_yield_block_info_cache.lookup k = bc.m_db.get_yield_block_info (UInt64.ofNat k) := by
  rw [keys_eq_Ico hspec, Finset.mem_Ico] at hk
  have hk64 : (UInt64.ofNat k).toNat = k := UInt64.toNat_ofNat_of_lt' (by
    simp [UInt64.size]; omega)
  rw [hspec k, if_pos hk, BlockchainLMDB.get_yield_block_info_of_lt (by omega), hk64]

end Cache

/-- **`validate_ybi_cache` accepts every reachable state past genesis.** The cache has the
expected size and holds both ends of the window. -/
theorem validate_ybi_cache_eq {cfg : config_t} {bc : Blockchain} (hinv : Inv cfg bc)
    (h0 : 0 < bc.m_db.height) : bc.validate_ybi_cache = .ok true := by
  have hh64 := hinv.db.height_lt
  have hL := stake_lock_period_le hinv.config
  have hh : (UInt64.ofNat bc.m_db.height).toNat = bc.m_db.height := UInt64.toNat_ofNat_of_lt' (by
    simp [UInt64.size]; omega)
  have hsize : (UInt64.ofNat bc.m_db.height ⊓ (cfg.STAKE_LOCK_PERIOD + 1)).toNat
      = min bc.m_db.height (cfg.STAKE_LOCK_PERIOD.toNat + 1) := by
    rw [UInt64.toNat_min, hh, UInt64.toNat_add]
    simp only [UInt64.toNat_one]
    rw [Nat.mod_eq_of_lt (by omega)]
  have hle : UInt64.ofNat bc.m_db.height ⊓ (cfg.STAKE_LOCK_PERIOD + 1)
      ≤ UInt64.ofNat bc.m_db.height := by
    rw [UInt64.le_iff_toNat_le, hsize, hh]; omega
  have htop : (UInt64.ofNat bc.m_db.height - 1).toNat = bc.m_db.height - 1 := by
    rw [UInt64.toNat_sub_of_le _ _ (by rw [UInt64.le_iff_toNat_le, hh]; simpa), hh]; rfl
  have hbot : (UInt64.ofNat bc.m_db.height - UInt64.ofNat bc.m_db.height ⊓
      (cfg.STAKE_LOCK_PERIOD + 1)).toNat
      = bc.m_db.height - min bc.m_db.height (cfg.STAKE_LOCK_PERIOD.toNat + 1) := by
    rw [UInt64.toNat_sub_of_le _ _ hle, hsize, hh]
  -- the three checks, against the keys the invariant fixes
  have hkeys := keys_eq_Ico hinv.cache
  have hmem (k : ℕ) : k ∈ bc.m_yield_block_info_cache
      ↔ bc.m_db.height - min bc.m_db.height (cfg.STAKE_LOCK_PERIOD.toNat + 1) ≤ k
        ∧ k < bc.m_db.height := by
    rw [← Finmap.mem_keys, hkeys, Finset.mem_Ico]
  have hcard : bc.m_yield_block_info_cache.keys.card
      = min bc.m_db.height (cfg.STAKE_LOCK_PERIOD.toNat + 1) := by
    rw [hkeys, Nat.card_Ico]; omega
  simp only [validate_ybi_cache, hinv.config, bind, Except.bind, pure, Except.pure, hsize, hcard,
    htop, hbot, hmem, ne_eq, not_true_eq_false, if_false]
  simp only [show bc.m_db.height - min bc.m_db.height (cfg.STAKE_LOCK_PERIOD.toNat + 1)
    ≤ bc.m_db.height - 1 by omega, show bc.m_db.height - 1 < bc.m_db.height by omega,
    show bc.m_db.height - min bc.m_db.height (cfg.STAKE_LOCK_PERIOD.toNat + 1) < bc.m_db.height
      by omega, le_refl, and_self, not_true_eq_false, if_false]

/-! ## The yield bookkeeping over every run -/

/-- **What the yield bookkeeping guarantees** in a state of a node whose network has the
configuration `cfg`, writing `L` for its stake lock period and `h` for the chain height. -/
structure YieldBookkeeping (cfg : config_t) (bc : Blockchain) : Prop where
  /-- Every stored tally is the sum of the stakes over `[k - L, k]`, modulo `2^64`. -/
  tally_mod : ∀ k < bc.m_db.height, (bc.m_db.row k).locked_coins_tally.toNat
    = windowSum bc.m_db.lockedThisBlock cfg.STAKE_LOCK_PERIOD.toNat k % 2 ^ 64
  /-- When no window's stake reaches `2^64`: every tally is exactly its window sum, the
  subtraction `add_block` made for height `k` did not wrap, and the stake of a block `m` is
  part of every tally from `m` until it matures. -/
  tally_exact : (∀ k < bc.m_db.height,
      windowSum bc.m_db.lockedThisBlock cfg.STAKE_LOCK_PERIOD.toNat k < 2 ^ 64) →
    (∀ k < bc.m_db.height, (bc.m_db.row k).locked_coins_tally.toNat
        = windowSum bc.m_db.lockedThisBlock cfg.STAKE_LOCK_PERIOD.toNat k)
    ∧ (∀ k < bc.m_db.height, cfg.STAKE_LOCK_PERIOD.toNat < k →
        (bc.m_db.row (k - cfg.STAKE_LOCK_PERIOD.toNat - 1)).locked_coins_this_block.toNat
          ≤ (bc.m_db.row (k - 1)).locked_coins_tally.toNat)
    ∧ (∀ m idx, m < idx → idx ≤ m + cfg.STAKE_LOCK_PERIOD.toNat → idx < bc.m_db.height →
        (bc.m_db.row m).locked_coins_this_block.toNat
          ≤ (bc.m_db.row idx).locked_coins_tally.toNat)
  /-- The cache holds exactly the heights `[h - min h (L + 1), h)`. -/
  cache_keys : bc.m_yield_block_info_cache.keys = Finset.Ico
    (bc.m_db.height - min bc.m_db.height (cfg.STAKE_LOCK_PERIOD.toNat + 1)) bc.m_db.height
  /-- Each cached height maps to the row the database stores for it. -/
  cache_rows : ∀ k ∈ bc.m_yield_block_info_cache.keys,
    bc.m_yield_block_info_cache.lookup k = bc.m_db.get_yield_block_info (UInt64.ofNat k)
  /-- Past genesis, `validate_ybi_cache` accepts the cache. -/
  validate : 0 < bc.m_db.height → bc.validate_ybi_cache = .ok true

theorem yield_bookkeeping_of_reachable {nettype : network_type} {cfg : config_t}
    (hcfg : get_config nettype = .ok cfg) {bc : Blockchain} (hreach : Reachable nettype bc) :
    YieldBookkeeping cfg bc := by
  have hinv := reachable_inv hcfg hreach
  have hdb := hinv.db
  refine ⟨hdb.tally, fun hfit => ⟨?_, ?_, ?_⟩, keys_eq_Ico hinv.cache,
    fun k hk => lookup_eq_get_yield_block_info hinv.cache hdb.height_lt hk,
    validate_ybi_cache_eq hinv⟩
  · intro k hk
    exact BlockchainLMDB.tally_eq_windowSum hdb hk (hfit k hk)
  · -- the matured block's stake lies in the window of the previous row
    intro k hk hL
    exact BlockchainLMDB.locked_le_tally hdb (by omega) (by omega) (by omega) (hfit _ (by omega))
  · intro m idx hm hidx hh
    exact BlockchainLMDB.locked_le_tally hdb (by omega) hm.le hh (hfit idx hh)

/-! ## Runs of calls -/

/-- A call a node makes on its chain: a block, with the slippage, staked and audited totals
`BlockchainDB::add_block` sums over its transactions, or a pop of the top block. -/
inductive ChainCall
  | handle_block (slippage_total yield_total audit_total : UInt64)
  | pop_block
  deriving DecidableEq, Repr

def ChainCall.apply : ChainCall → Blockchain → Except String Blockchain
  | .handle_block slippage_total yield_total audit_total, bc =>
    bc.handle_block_to_main_chain slippage_total yield_total audit_total
  | .pop_block, bc => bc.pop_block_from_blockchain

/-- The calls in turn; the first that throws ends the run. -/
def run_calls : List ChainCall → Blockchain → Except String Blockchain
  | [], bc => .ok bc
  | c :: cs, bc =>
    match c.apply bc with
    | .ok bc' => run_calls cs bc'
    | .error e => .error e

theorem height_handle_block {cfg : config_t} {bc bc' : Blockchain} (hinv : Inv cfg bc)
    (hroom : bc.m_db.height + 1 < 2 ^ 64) {slippage_total yield_total audit_total : UInt64}
    (h : bc.handle_block_to_main_chain slippage_total yield_total audit_total = .ok bc') :
    bc'.m_db.height = bc.m_db.height + 1 := by
  simp only [handle_block_to_main_chain, BlockchainLMDB.add_block_eq hinv.config hroom,
    hinv.config, bind, Except.bind, pure, Except.pure, Except.ok.injEq] at h
  subst h
  exact BlockchainLMDB.height_append _ _ _

theorem height_pop_block {bc bc' : Blockchain} (h : bc.pop_block_from_blockchain = .ok bc') :
    bc'.m_db.height ≤ bc.m_db.height := by
  simp only [pop_block_from_blockchain, BlockchainLMDB.pop_block, BlockchainLMDB.remove_block,
    rebuild_ybi_cache, bind, Except.bind, pure, Except.pure] at h
  -- only the branch that drops the top row returns
  split_ifs at h
  cases hc : get_config bc.m_nettype with
  | error e => simp only [hc, reduceCtorEq] at h
  | ok cfg =>
    simp only [hc, Except.ok.injEq] at h
    subst h
    exact (BlockchainLMDB.height_dropLast _ _).trans_le (Nat.sub_le _ _)

/-- **A run of calls from a reachable state ends in a reachable state**, as long as the blocks
it adds keep the height below `2^64`. -/
theorem Reachable.run_calls {nettype : network_type} {cfg : config_t}
    (hcfg : get_config nettype = .ok cfg) {bc bc' : Blockchain} (hr : Reachable nettype bc)
    {cs : List ChainCall} (h : run_calls cs bc = .ok bc')
    (hroom : bc.m_db.height + cs.length < 2 ^ 64) : Reachable nettype bc' := by
  induction cs generalizing bc with
  | nil =>
    cases h
    exact hr
  | cons c cs ih =>
    rw [List.length_cons] at hroom
    unfold Blockchain.run_calls at h
    split at h
    · next b hc =>
      -- one step, which adds at most one block
      cases c with
      | handle_block slippage_total yield_total audit_total =>
        have hb := height_handle_block (reachable_inv hcfg hr) (by omega) hc
        exact ih (hr.step (.handle_block _ _ _ (by omega) hc)) h (by omega)
      | pop_block =>
        have hb := height_pop_block hc
        exact ih (hr.step (.pop_block hc)) h (by omega)
    · cases h

/-- Twenty-three testnet blocks, block `k` staking `k + 1` atomic units, then a pop. The chain
passes the lock period of 20 blocks, so the first stakes leave the window and the cache. -/
def stakedCalls : List ChainCall :=
  (List.range 23).map (fun k => .handle_block 0 (UInt64.ofNat (k + 1)) 0) ++ [.pop_block]

def stakedTestnet : Blockchain :=
  match run_calls stakedCalls (init .TESTNET) with
  | .ok bc => bc
  | .error _ => init .TESTNET

/-- After the pop the chain has 22 blocks, and the tally of block 21 sums the stakes of blocks
1 to 21: block 0's stake has matured out of it. -/
theorem yield_bookkeeping_stakedTestnet :
    get_config .TESTNET = .ok config_testnet ∧ Reachable .TESTNET stakedTestnet ∧
      stakedTestnet.m_db.height = 22 ∧ (stakedTestnet.m_db.row 21).locked_coins_tally = 252 ∧
      YieldBookkeeping config_testnet stakedTestnet := by
  have hrun : run_calls stakedCalls (init .TESTNET) = .ok stakedTestnet := rfl
  have hr : Reachable .TESTNET stakedTestnet := Reachable.run_calls rfl .init hrun (by decide)
  exact ⟨rfl, hr, by decide, by decide, yield_bookkeeping_of_reachable rfl hr⟩

end Blockchain

end Salvium
