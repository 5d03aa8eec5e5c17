import Mathlib
import Salvium.Config
import Salvium.Lib.Window

/-!
# Salvium — the yield table of the block database

Every block added to `BlockchainLMDB` gets a `yield_block_info` row under its height. Besides
the block's own staked amount (`locked_coins_this_block`) the row stores
`locked_coins_tally`, the coins still locked at that height. The tally is kept incrementally
in `uint64_t`: previous row's tally, minus the amount staked at the height that matures now
(`STAKE_LOCK_PERIOD + 1` blocks back), plus the new block's amount.

What the tally is for is `Window.windowSum`: the sum of the staked amounts over the closed
window `[h - STAKE_LOCK_PERIOD, h]`. The invariant `Inv` says every row's tally is that sum
modulo `2^64`; `add_block_inv` and `pop_block_inv` show each database operation keeps it.
Under the assumption that no window's stake exceeds the `uint64_t` range (the money supply
is far below it), `tally_eq_windowSum` makes the tally exact and `tally_sub_no_wrap` shows
the subtraction in `add_block` never wraps.

Only the yield and audit tables are modelled; the database height is the number of yield
rows, since `add_block` appends one row to every table and `remove_block` deletes one.
-/

namespace Salvium

open Window

/-- `cryptonote::yield_block_info`. -/
structure yield_block_info where
  block_height : UInt64
  slippage_total_this_block : UInt64
  locked_coins_this_block : UInt64
  locked_coins_tally : UInt64
  network_health_percentage : UInt8
  deriving DecidableEq, Repr

/-- A `yield_block_info` cleared by `std::memset`. -/
def yield_block_info.zero : yield_block_info := ⟨0, 0, 0, 0, 0⟩

/-- `cryptonote::audit_block_info`. -/
structure audit_block_info where
  block_height : UInt64
  locked_coins_this_block : UInt64
  deriving DecidableEq, Repr

/-- The yield and audit tables of `BlockchainLMDB`: row `i` of each list is the row stored
under key `i`. -/
structure BlockchainLMDB where
  yield_blocks : List yield_block_info
  audit_blocks : List audit_block_info
  deriving DecidableEq, Repr

namespace BlockchainLMDB

/-- `BlockchainLMDB::height`. -/
def height (db : BlockchainLMDB) : ℕ := db.yield_blocks.length

/-- `BlockchainLMDB::get_yield_block_info`; `none` is `MDB_NOTFOUND`. -/
def get_yield_block_info (db : BlockchainLMDB) (height : UInt64) : Option yield_block_info :=
  db.yield_blocks[height.toNat]?

/-- The YBI and ABI part of `BlockchainLMDB::add_block`, with the outer wrapper's return of the
new height `++m_height`. The block's staked, audited and slippage totals are the ones
`BlockchainDB::add_block` sums over its transactions. -/
def add_block (db : BlockchainLMDB) (slippage_total yield_total audit_total : UInt64)
    (nettype : network_type) : Except String (BlockchainLMDB × UInt64 × yield_block_info) := do
  let m_height : UInt64 := UInt64.ofNat db.height
  let abi : audit_block_info := ⟨m_height, audit_total⟩
  let yield_lock_period := (← get_config nettype).STAKE_LOCK_PERIOD
  let ybi_matured ← if m_height > yield_lock_period then
      match db.get_yield_block_info (m_height - yield_lock_period - 1) with
      | some ybi => pure ybi
      | none => throw "Failed to get YBI for matured height: "
    else pure yield_block_info.zero
  let ybi_prev ← if m_height ≥ 1 then
      match db.get_yield_block_info (m_height - 1) with
      | some ybi => pure ybi
      | none => throw "Failed to get YBI for last block: "
    else pure { yield_block_info.zero with network_health_percentage := 100 }
  let ybi : yield_block_info :=
    { block_height := m_height
      slippage_total_this_block := slippage_total
      locked_coins_this_block := yield_total
      locked_coins_tally :=
        ybi_prev.locked_coins_tally - ybi_matured.locked_coins_this_block + yield_total
      network_health_percentage := 100 }
  pure (⟨db.yield_blocks ++ [ybi], db.audit_blocks ++ [abi]⟩, m_height + 1, ybi)

/-- `BlockchainLMDB::remove_block`, as far as it touches the yield and audit tables; the
audit row is deleted only when present. -/
def remove_block (db : BlockchainLMDB) : Except String BlockchainLMDB :=
  if db.height = 0 then throw "Attempting to remove block from an empty blockchain"
  else pure ⟨db.yield_blocks.dropLast, db.audit_blocks.take (db.height - 1)⟩

/-- `BlockchainDB::pop_block`: the top block's rows go. -/
def pop_block (db : BlockchainLMDB) : Except String BlockchainLMDB := db.remove_block

/-! ## The row `add_block` appends -/

/-- The row at height `k` (`yield_block_info.zero` past the table's end). -/
def row (db : BlockchainLMDB) (k : ℕ) : yield_block_info :=
  db.yield_blocks.getD k yield_block_info.zero

/-- The row `add_block` appends on a network with lock period `L`, read off the table: the
previous row's tally, minus what the row `L + 1` blocks back staked, plus the new stake. -/
def nextRow (db : BlockchainLMDB) (L : ℕ) (slippage_total yield_total : UInt64) :
    yield_block_info where
  block_height := UInt64.ofNat db.height
  slippage_total_this_block := slippage_total
  locked_coins_this_block := yield_total
  locked_coins_tally :=
    (if 1 ≤ db.height then (db.row (db.height - 1)).locked_coins_tally else 0)
      - (if L < db.height then (db.row (db.height - L - 1)).locked_coins_this_block else 0)
      + yield_total
  network_health_percentage := 100

theorem nextRow_block_height_toNat {db : BlockchainLMDB} (hh : db.height < 2 ^ 64) (L : ℕ)
    (slippage_total yield_total : UInt64) :
    (db.nextRow L slippage_total yield_total).block_height.toNat = db.height :=
  UInt64.toNat_ofNat_of_lt' hh

theorem get_yield_block_info_of_lt {db : BlockchainLMDB} {k : UInt64} (hk : k.toNat < db.height) :
    db.get_yield_block_info k = some (db.row k.toNat) := by
  simp [get_yield_block_info, row, height] at hk ⊢
  simp [List.getElem?_eq_getElem hk]

section Add

variable {db : BlockchainLMDB} {nettype : network_type} {cfg : config_t}
  (hcfg : get_config nettype = .ok cfg) (hroom : db.height + 1 < 2 ^ 64)
include hcfg hroom

/-- **`add_block` never fails on a table below `2^64 - 1` rows** and appends `nextRow`: both
lookups it makes are of rows that exist. -/
theorem add_block_eq (slippage_total yield_total audit_total : UInt64) :
    db.add_block slippage_total yield_total audit_total nettype = .ok
      (⟨db.yield_blocks ++ [db.nextRow cfg.STAKE_LOCK_PERIOD.toNat slippage_total yield_total],
          db.audit_blocks ++ [⟨UInt64.ofNat db.height, audit_total⟩]⟩,
        UInt64.ofNat (db.height + 1),
        db.nextRow cfg.STAKE_LOCK_PERIOD.toNat slippage_total yield_total) := by
  have hh : (UInt64.ofNat db.height).toNat = db.height := UInt64.toNat_ofNat_of_lt' (by
    simp [UInt64.size]; omega)
  have hgt : UInt64.ofNat db.height > cfg.STAKE_LOCK_PERIOD ↔
      cfg.STAKE_LOCK_PERIOD.toNat < db.height := by
    rw [gt_iff_lt, UInt64.lt_iff_toNat_lt, hh]
  have hge : UInt64.ofNat db.height ≥ 1 ↔ 1 ≤ db.height := by
    rw [ge_iff_le, UInt64.le_iff_toNat_le, hh]; rfl
  -- the two lookups, where they happen, read rows below the top
  have hprev (h1 : 1 ≤ db.height) :
      db.get_yield_block_info (UInt64.ofNat db.height - 1) = some (db.row (db.height - 1)) := by
    have hsub : (UInt64.ofNat db.height - 1).toNat = db.height - 1 := by
      rw [UInt64.toNat_sub_of_le _ _ (hge.mpr h1), hh]; rfl
    rw [get_yield_block_info_of_lt (by omega), hsub]
  have hmat (hm : cfg.STAKE_LOCK_PERIOD.toNat < db.height) :
      db.get_yield_block_info (UInt64.ofNat db.height - cfg.STAKE_LOCK_PERIOD - 1)
        = some (db.row (db.height - cfg.STAKE_LOCK_PERIOD.toNat - 1)) := by
    have hsub : (UInt64.ofNat db.height - cfg.STAKE_LOCK_PERIOD - 1).toNat
        = db.height - cfg.STAKE_LOCK_PERIOD.toNat - 1 := by
      have hL : cfg.STAKE_LOCK_PERIOD ≤ UInt64.ofNat db.height :=
        UInt64.le_iff_toNat_le.mpr (by rw [hh]; omega)
      have h1 : 1 ≤ UInt64.ofNat db.height - cfg.STAKE_LOCK_PERIOD := by
        rw [UInt64.le_iff_toNat_le, UInt64.toNat_sub_of_le _ _ hL, hh]; simp; omega
      rw [UInt64.toNat_sub_of_le _ _ h1, UInt64.toNat_sub_of_le _ _ hL, hh]; rfl
    rw [get_yield_block_info_of_lt (by omega), hsub]
  have hsucc : UInt64.ofNat db.height + 1 = UInt64.ofNat (db.height + 1) := by
    simp [UInt64.ofNat_add]
  by_cases hm : cfg.STAKE_LOCK_PERIOD.toNat < db.height
  · simp only [add_block, hcfg, bind, Except.bind, pure, Except.pure, if_pos (hgt.mpr hm), hmat hm,
      if_pos (hge.mpr (by omega : 1 ≤ db.height)), hprev (by omega)]
    rw [hsucc, nextRow, if_pos (by omega : 1 ≤ db.height), if_pos hm]
  · by_cases h1 : 1 ≤ db.height
    · simp only [add_block, hcfg, bind, Except.bind, pure, Except.pure, if_neg (mt hgt.mp hm),
        if_pos (hge.mpr h1), hprev h1]
      rw [hsucc, nextRow, if_pos h1, if_neg hm]
      rfl
    · simp only [add_block, hcfg, bind, Except.bind, pure, Except.pure, if_neg (mt hgt.mp hm),
        if_neg (mt hge.mp h1)]
      rw [hsucc, nextRow, if_neg h1, if_neg hm]
      rfl

end Add

/-! ## Rows after `add_block` and `remove_block` -/

@[simp] theorem height_append (db : BlockchainLMDB) (ybi : yield_block_info)
    (audit : List audit_block_info) :
    (BlockchainLMDB.mk (db.yield_blocks ++ [ybi]) audit).height = db.height + 1 := by
  simp [height]

@[simp] theorem height_dropLast (db : BlockchainLMDB) (audit : List audit_block_info) :
    (BlockchainLMDB.mk db.yield_blocks.dropLast audit).height = db.height - 1 := by
  simp [height]

theorem row_append_of_lt {db : BlockchainLMDB} {k : ℕ} (hk : k < db.height)
    (ybi : yield_block_info) (audit : List audit_block_info) :
    (BlockchainLMDB.mk (db.yield_blocks ++ [ybi]) audit).row k = db.row k := by
  simp only [row, List.getD_eq_getElem?_getD, List.getElem?_append_left (hk : k < _)]

theorem row_append_self (db : BlockchainLMDB) (ybi : yield_block_info)
    (audit : List audit_block_info) :
    (BlockchainLMDB.mk (db.yield_blocks ++ [ybi]) audit).row db.height = ybi := by
  simp [row, height]

theorem row_dropLast {db : BlockchainLMDB} {k : ℕ} (hk : k < db.height - 1)
    (audit : List audit_block_info) :
    (BlockchainLMDB.mk db.yield_blocks.dropLast audit).row k = db.row k := by
  simp only [row, List.getD_eq_getElem?_getD, List.getElem?_dropLast]
  rw [if_pos (by simpa [height] using hk)]

/-! ## The window the tally tracks -/

/-- The coins staked in the block at height `k` (`0` past the table's end). -/
def lockedThisBlock (db : BlockchainLMDB) (k : ℕ) : ℕ :=
  (db.row k).locked_coins_this_block.toNat

theorem lockedThisBlock_lt (db : BlockchainLMDB) (k : ℕ) : db.lockedThisBlock k < 2 ^ 64 :=
  UInt64.toNat_lt _

/-- **The yield table invariant.** The height fits `uint64_t`, and every row's tally is the
window sum of the staked amounts modulo `2^64`. -/
structure Inv (L : ℕ) (db : BlockchainLMDB) : Prop where
  height_lt : db.height < 2 ^ 64
  tally : ∀ i < db.height, (db.row i).locked_coins_tally.toNat
    = windowSum db.lockedThisBlock L i % 2 ^ 64

theorem inv_empty (L : ℕ) : Inv L ⟨[], []⟩ where
  height_lt := by simp [height]
  tally := by simp [height]

/-- Appending a row leaves the window sums below it alone. -/
theorem windowSum_append {db : BlockchainLMDB} {L k : ℕ} (hk : k < db.height)
    (ybi : yield_block_info) (audit : List audit_block_info) :
    windowSum (BlockchainLMDB.mk (db.yield_blocks ++ [ybi]) audit).lockedThisBlock L k
      = windowSum db.lockedThisBlock L k :=
  windowSum_congr _ _ fun j hj => by
    simp only [lockedThisBlock, row_append_of_lt (Nat.lt_of_le_of_lt hj hk)]

/-- **The appended row's tally is the next window sum**, modulo `2^64`: the step of
`add_block` is one step of the sliding rule, done in wrapping arithmetic. -/
theorem tally_nextRow {L : ℕ} {db : BlockchainLMDB} (hinv : Inv L db)
    (slippage_total yield_total : UInt64) (audit : List audit_block_info) :
    (db.nextRow L slippage_total yield_total).locked_coins_tally.toNat
      = windowSum (BlockchainLMDB.mk (db.yield_blocks ++ [db.nextRow L slippage_total yield_total])
          audit).lockedThisBlock L db.height % 2 ^ 64 := by
  set db' := BlockchainLMDB.mk (db.yield_blocks ++ [db.nextRow L slippage_total yield_total]) audit
  have htop : db'.lockedThisBlock db.height = yield_total.toNat := by
    simp only [db', lockedThisBlock, row_append_self, nextRow]
  cases hh : db.height with
  | zero =>
    -- the genesis row: nothing before it, nothing matures
    rw [hh] at htop
    simp only [nextRow, hh, windowSum_zero, htop]
    simp
  | succ k =>
    -- the previous row holds the window at `k`; the row `L + 1` back leaves it
    have hprev : (db.row k).locked_coins_tally.toNat = windowSum db'.lockedThisBlock L k % 2 ^ 64 := by
      rw [hinv.tally k (by omega), windowSum_append (by omega)]
    have hleave : (if L < k + 1 then (db.row (k + 1 - L - 1)).locked_coins_this_block else 0).toNat
        = if L ≤ k then db'.lockedThisBlock (k - L) else 0 := by
      split_ifs with h1 h2 h2
      · rw [show k + 1 - L - 1 = k - L by omega]
        simp only [db', lockedThisBlock, row_append_of_lt (by omega : k - L < db.height)]
      · omega
      · omega
      · rfl
    simp only [nextRow, hh, Nat.le_add_left, if_true, Nat.add_sub_cancel]
    refine toNat_sub_add_of_window hprev ?_
    rw [hleave, ← hh, ← htop, hh]
    exact windowSum_succ_add _ L k

/-- **`add_block` keeps the invariant.** -/
theorem inv_append_nextRow {L : ℕ} {db : BlockchainLMDB} (hinv : Inv L db)
    (hroom : db.height + 1 < 2 ^ 64) (slippage_total yield_total : UInt64)
    (audit : List audit_block_info) :
    Inv L ⟨db.yield_blocks ++ [db.nextRow L slippage_total yield_total], audit⟩ where
  height_lt := by rw [height_append]; exact hroom
  tally i hi := by
    rw [height_append] at hi
    rcases Nat.lt_succ_iff_lt_or_eq.mp hi with hlt | rfl
    · -- a row below the new one keeps its tally and its window
      rw [row_append_of_lt hlt, windowSum_append hlt, hinv.tally i hlt]
    · rw [row_append_self]
      exact tally_nextRow hinv _ _ _

/-- **`remove_block` keeps the invariant**: what stays below the top keeps its window. -/
theorem inv_dropLast {L : ℕ} {db : BlockchainLMDB} (hinv : Inv L db)
    (audit : List audit_block_info) : Inv L ⟨db.yield_blocks.dropLast, audit⟩ where
  height_lt := by rw [height_dropLast]; have := hinv.height_lt; omega
  tally i hi := by
    rw [height_dropLast] at hi
    have hwin : windowSum (BlockchainLMDB.mk db.yield_blocks.dropLast audit).lockedThisBlock L i
        = windowSum db.lockedThisBlock L i :=
      windowSum_congr _ _ fun j hj => by
        simp only [lockedThisBlock, row_dropLast (Nat.lt_of_le_of_lt hj hi)]
    rw [row_dropLast hi, hwin, hinv.tally i (by omega)]

/-! ## What the invariant gives when no window overflows

The staked amounts are coins, so no window of them comes near `2^64`; under that bound the
wrapping tally is the exact window sum. -/

section Exact

variable {L : ℕ} {db : BlockchainLMDB} (hinv : Inv L db)
include hinv

theorem tally_eq_windowSum {i : ℕ} (hi : i < db.height)
    (hfit : windowSum db.lockedThisBlock L i < 2 ^ 64) :
    (db.row i).locked_coins_tally.toNat = windowSum db.lockedThisBlock L i := by
  rw [hinv.tally i hi, Nat.mod_eq_of_lt hfit]

/-- The stake of every block in the window `[idx - L, idx]` is part of the tally at `idx`. -/
theorem locked_le_tally {m idx : ℕ} (hlo : idx - L ≤ m) (hm : m ≤ idx) (hidx : idx < db.height)
    (hfit : windowSum db.lockedThisBlock L idx < 2 ^ 64) :
    (db.row m).locked_coins_this_block.toNat ≤ (db.row idx).locked_coins_tally.toNat := by
  rw [tally_eq_windowSum hinv hidx hfit]
  exact le_windowSum db.lockedThisBlock L hlo hm

end Exact

end BlockchainLMDB

end Salvium
