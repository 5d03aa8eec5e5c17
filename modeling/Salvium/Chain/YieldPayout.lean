import Mathlib
import Salvium.Chain.Protocol
import Salvium.Lib.Share

/-!
# Salvium — the yield payouts share out no more than the slippage

`calculate_yield_payouts` pays each matured stake its locked coins and, for every block of its
lock window, its share of that block's slippage in proportion to the coins locked there:
`slippage * locked_coins / locked_coins_tally`, computed in 128 bits and rounded down, cast to
64 bits and added with an overflow check (`add_yield_share`).

When every block of the window is cached and its tally covers the coins of all the matured
stakes (`WindowCovers`), the whole run is known (`calculate_yield_payouts_with_eq`): no stake
gives the source's `false`, the addition check throws exactly when some payout would reach
`2 ^ 64`, and otherwise every stake gets its `expected_payout`. The cast cannot throw, since a
share is at most its block's slippage, and the floors of one block add up to at most its
slippage (`Share.sum_mul_div_le_of_sum_le`). So the payouts exceed the locked coins by at most
the slippage of the window (`calculate_yield_payouts_within_slippage`).
-/

namespace Salvium

namespace Coinbase

namespace ChainView

variable {α : Type}

/-! ## What a stake is owed -/

/-- The share of block `idx`'s slippage that `locked_coins` earn; nothing for a block the cache
lacks, and (by `Nat` division) nothing for a block with no locked coins. -/
def yield_share (cv : ChainView) (idx locked_coins : UInt64) : ℕ :=
  match cv.m_yield_block_info_cache idx with
  | none => 0
  | some ybi =>
    ybi.slippage_total_this_block.toNat * locked_coins.toNat / ybi.locked_coins_tally.toNat

/-- The payout of a stake of `locked_coins` over the blocks `idxs`. -/
def expected_payout (cv : ChainView) (idxs : List UInt64) (locked_coins : UInt64) : ℕ :=
  locked_coins.toNat + (idxs.map fun idx => cv.yield_share idx locked_coins).sum

/-- The slippage of the cached blocks among `idxs`. -/
def slippage_total (cv : ChainView) (idxs : List UInt64) : ℕ :=
  (idxs.map fun idx =>
    ((cv.m_yield_block_info_cache idx).map (·.slippage_total_this_block.toNat)).getD 0).sum

/-- Every block of `idxs` is cached, and its tally covers the coins of all the `entries`. -/
def WindowCovers (cv : ChainView) (locked_coins : α → UInt64) (entries : List α)
    (idxs : List UInt64) : Prop :=
  ∀ idx ∈ idxs, (cv.m_yield_block_info_cache idx).any fun ybi =>
    (entries.map fun e => (locked_coins e).toNat).sum ≤ ybi.locked_coins_tally.toNat

instance (cv : ChainView) (locked_coins : α → UInt64) (entries : List α) (idxs : List UInt64) :
    Decidable (cv.WindowCovers locked_coins entries idxs) :=
  inferInstanceAs (Decidable (∀ idx ∈ idxs, _))

theorem WindowCovers.cons {cv : ChainView} {locked_coins : α → UInt64} {entries : List α}
    {idx : UInt64} {idxs : List UInt64} (h : cv.WindowCovers locked_coins entries (idx :: idxs)) :
    (∃ ybi, cv.m_yield_block_info_cache idx = some ybi ∧
      (entries.map fun e => (locked_coins e).toNat).sum ≤ ybi.locked_coins_tally.toNat) ∧
      cv.WindowCovers locked_coins entries idxs := by
  refine ⟨?_, fun i hi => h i (List.mem_cons_of_mem idx hi)⟩
  obtain ⟨ybi, hybi, hle⟩ := (Option.any_eq_true _ _).mp (h idx List.mem_cons_self)
  exact ⟨ybi, hybi, of_decide_eq_true hle⟩

/-! ## The shares stay within the slippage -/

/-- The shares of one covered block add up to at most its slippage. -/
theorem sum_yield_share_le {cv : ChainView} {locked_coins : α → UInt64} {entries : List α}
    {idx : UInt64} {ybi : yield_block_info} (hybi : cv.m_yield_block_info_cache idx = some ybi)
    (hle : (entries.map fun e => (locked_coins e).toNat).sum ≤ ybi.locked_coins_tally.toNat) :
    (entries.map fun e => cv.yield_share idx (locked_coins e)).sum ≤
      ybi.slippage_total_this_block.toNat := by
  simp only [yield_share, hybi]
  exact Share.sum_mul_div_le_of_sum_le hle

/-- The shares of a covered window add up to at most its slippage. -/
theorem sum_yield_shares_le {cv : ChainView} {locked_coins : α → UInt64} {entries : List α} :
    ∀ {idxs : List UInt64}, cv.WindowCovers locked_coins entries idxs →
      (entries.map fun e => (idxs.map fun idx => cv.yield_share idx (locked_coins e)).sum).sum ≤
        cv.slippage_total idxs
  | [], _ => by simp [slippage_total]
  | idx :: idxs, hcover => by
    obtain ⟨⟨ybi, hybi, hle⟩, hrest⟩ := hcover.cons
    have hblock := sum_yield_share_le hybi hle
    have ih := sum_yield_shares_le hrest
    simp only [List.map_cons, List.sum_cons, List.sum_map_add, slippage_total, hybi,
      Option.map_some, Option.getD_some] at ih ⊢
    omega

/-! ## One share, one block, the whole window -/

/-- **One share**: with the stake's coins within the tally the cast cannot throw, and the
addition throws exactly when the sum reaches `2 ^ 64`. -/
theorem add_yield_share_eq {slippage locked_total locked_coins amount : UInt64}
    (hle : locked_coins.toNat ≤ locked_total.toNat) :
    add_yield_share slippage locked_total locked_coins amount =
      if 2 ^ 64 ≤ amount.toNat + slippage.toNat * locked_coins.toNat / locked_total.toNat then
        .error "uint64_t addition overflow"
      else .ok (UInt64.ofNat (amount.toNat +
        slippage.toNat * locked_coins.toNat / locked_total.toNat)) := by
  have hshare := @Share.mul_div_le_of_le slippage.toNat _ _ hle
  have hs := slippage.toNat_lt
  have ha := amount.toNat_lt
  generalize hy : slippage.toNat * locked_coins.toNat / locked_total.toNat = y at hshare ⊢
  have hcast : (UInt64.ofNat y).toNat = y := by
    rw [UInt64.toNat_ofNat']
    exact Nat.mod_eq_of_lt (by omega)
  unfold add_yield_share
  rw [hy, if_neg (by omega)]
  dsimp only
  -- the source's test `amount + yield_u64 < amount` is the wrap of the 64-bit sum
  have hwrap : amount + UInt64.ofNat y < amount ↔ 2 ^ 64 ≤ amount.toNat + y := by
    rw [UInt64.lt_iff_toNat_lt, UInt64.toNat_add, hcast]
    omega
  by_cases hover : 2 ^ 64 ≤ amount.toNat + y
  · rw [if_pos (hwrap.mpr hover), if_pos hover]
    rfl
  · rw [if_neg (mt hwrap.mp hover), if_neg hover]
    congr 1
    apply UInt64.toNat_inj.mp
    rw [UInt64.toNat_add, hcast, UInt64.toNat_ofNat', Nat.mod_eq_of_lt (by omega)]

/-- **One block**: over a cached block whose tally covers the stakes, every payout gains its
share, unless one of them would reach `2 ^ 64`. -/
theorem accrue_block_eq {cv : ChainView} {locked_coins : α → UInt64} {entries : List α}
    {idx : UInt64} {ybi : yield_block_info} (hybi : cv.m_yield_block_info_cache idx = some ybi)
    (hle : (entries.map fun e => (locked_coins e).toNat).sum ≤ ybi.locked_coins_tally.toNat)
    (v : α → UInt64) :
    cv.accrue_block locked_coins idx (entries.map fun e => (e, v e)) =
      if ∃ e ∈ entries, 2 ^ 64 ≤ (v e).toNat + cv.yield_share idx (locked_coins e) then
        .error "uint64_t addition overflow"
      else .ok (some (entries.map fun e =>
        (e, UInt64.ofNat ((v e).toNat + cv.yield_share idx (locked_coins e))))) := by
  have hshare : ∀ e, cv.yield_share idx (locked_coins e) =
      ybi.slippage_total_this_block.toNat * (locked_coins e).toNat /
        ybi.locked_coins_tally.toNat := by
    intro e
    simp only [yield_share, hybi]
  have hmem : ∀ e ∈ entries, (locked_coins e).toNat ≤ ybi.locked_coins_tally.toNat := by
    intro e he
    exact (List.le_sum_of_mem (List.mem_map_of_mem he)).trans hle
  unfold accrue_block
  rw [hybi]
  dsimp only
  by_cases hzero : ybi.slippage_total_this_block = 0 ∨ ybi.locked_coins_tally = 0
  · rw [if_pos hzero]
    -- a block without slippage or locked coins adds a share of `0`
    have hnone : ∀ e, cv.yield_share idx (locked_coins e) = 0 := by
      intro e
      rw [hshare e]
      rcases hzero with hs | ht
      · simp [hs]
      · simp [ht]
    simp only [hnone, Nat.add_zero, UInt64.ofNat_toNat]
    rw [if_neg]
    · rfl
    · rintro ⟨e, -, he⟩
      exact absurd (v e).toNat_lt (not_lt.mpr he)
  · rw [if_neg hzero, Except.mapM_eq_ite (P := fun p : α × UInt64 =>
        2 ^ 64 ≤ p.2.toNat + cv.yield_share idx (locked_coins p.1))
      (g := fun p => (p.1, UInt64.ofNat (p.2.toNat + cv.yield_share idx (locked_coins p.1))))]
    · simp only [List.mem_map, exists_exists_and_eq_and, List.map_map]
      split_ifs <;> rfl
    · -- each step is one share of `add_yield_share_eq`
      intro p hp
      obtain ⟨e, he, rfl⟩ := List.mem_map.mp hp
      rw [add_yield_share_eq (hmem e he), ← hshare e]
      split_ifs <;> rfl

/-- **The whole window**: over blocks that are all cached and cover the stakes, the run throws
exactly when some payout would reach `2 ^ 64`, and otherwise pays each stake its shares. The
induction is on the blocks, the payouts so far being any `v`: the shares only add, so a payout
that reaches `2 ^ 64` at the end first reaches it at some block. -/
theorem accrue_blocks_eq {cv : ChainView} {locked_coins : α → UInt64} {entries : List α} :
    ∀ {idxs : List UInt64}, cv.WindowCovers locked_coins entries idxs → ∀ v : α → UInt64,
      cv.accrue_blocks locked_coins idxs (entries.map fun e => (e, v e)) =
        if ∃ e ∈ entries, 2 ^ 64 ≤ (v e).toNat +
            (idxs.map fun idx => cv.yield_share idx (locked_coins e)).sum then
          .error "uint64_t addition overflow"
        else .ok (some (entries.map fun e => (e, UInt64.ofNat ((v e).toNat +
          (idxs.map fun idx => cv.yield_share idx (locked_coins e)).sum))))
  | [], _, v => by
    simp only [accrue_blocks, List.map_nil, List.sum_nil, Nat.add_zero, UInt64.ofNat_toNat]
    rw [if_neg]
    · rfl
    · rintro ⟨e, -, he⟩
      exact absurd (v e).toNat_lt (not_lt.mpr he)
  | idx :: idxs, hcover, v => by
    obtain ⟨⟨ybi, hybi, hle⟩, hrest⟩ := hcover.cons
    simp only [accrue_blocks]
    rw [accrue_block_eq hybi hle v]
    simp only [List.map_cons, List.sum_cons]
    by_cases hover : ∃ e ∈ entries, 2 ^ 64 ≤ (v e).toNat + cv.yield_share idx (locked_coins e)
    · -- this block throws, and the window's total is larger still
      have hover' : ∃ e ∈ entries, 2 ^ 64 ≤ (v e).toNat + (cv.yield_share idx (locked_coins e) +
          (idxs.map fun idx => cv.yield_share idx (locked_coins e)).sum) := by
        obtain ⟨e, he, hge⟩ := hover
        exact ⟨e, he, by omega⟩
      rw [if_pos hover, if_pos hover']
      rfl
    · rw [if_neg hover]
      dsimp only [bind, Except.bind]
      rw [accrue_blocks_eq hrest]
      -- the payouts after this block are below `2 ^ 64`, so the cast keeps them
      have hkeep : ∀ e ∈ entries, (UInt64.ofNat ((v e).toNat +
          cv.yield_share idx (locked_coins e))).toNat =
            (v e).toNat + cv.yield_share idx (locked_coins e) := by
        intro e he
        rw [UInt64.toNat_ofNat']
        exact Nat.mod_eq_of_lt (not_le.mp fun hge => hover ⟨e, he, hge⟩)
      have hex : (∃ e ∈ entries, 2 ^ 64 ≤ (UInt64.ofNat ((v e).toNat +
          cv.yield_share idx (locked_coins e))).toNat +
            (idxs.map fun idx => cv.yield_share idx (locked_coins e)).sum) ↔
          ∃ e ∈ entries, 2 ^ 64 ≤ (v e).toNat + (cv.yield_share idx (locked_coins e) +
            (idxs.map fun idx => cv.yield_share idx (locked_coins e)).sum) := by
        constructor
        · rintro ⟨e, he, hge⟩
          rw [hkeep e he] at hge
          exact ⟨e, he, by omega⟩
        · rintro ⟨e, he, hge⟩
          refine ⟨e, he, ?_⟩
          rw [hkeep e he]
          omega
      have hmap : (entries.map fun e => (e, UInt64.ofNat ((UInt64.ofNat ((v e).toNat +
          cv.yield_share idx (locked_coins e))).toNat +
            (idxs.map fun idx => cv.yield_share idx (locked_coins e)).sum))) =
          entries.map fun e => (e, UInt64.ofNat ((v e).toNat + (cv.yield_share idx (locked_coins e) +
            (idxs.map fun idx => cv.yield_share idx (locked_coins e)).sum))) := by
        apply List.map_congr_left
        intro e he
        rw [hkeep e he, Nat.add_assoc]
      rw [if_congr hex rfl rfl, hmap]

/-! ## The payouts -/

theorem start_payouts_nil (tx_hash : α → Crypto.Hash) (locked_coins : α → UInt64)
    (entries : List α) :
    start_payouts tx_hash locked_coins [] entries = entries.map fun e => (e, locked_coins e) := by
  simp [start_payouts]

/-- **The run of `calculate_yield_payouts`** over a covered window: no stake gives the source's
`false`, the addition check throws exactly when some payout would reach `2 ^ 64`, and otherwise
each stake gets its `expected_payout`. -/
theorem calculate_yield_payouts_with_eq {cv : ChainView} {tx_hash : α → Crypto.Hash}
    {locked_coins : α → UInt64} {yield_entries : List α} {start_height : UInt64} {cfg : config_t}
    (hcfg : get_config cv.m_nettype = .ok cfg)
    (hcover : cv.WindowCovers locked_coins yield_entries
      (yield_block_range start_height cfg.STAKE_LOCK_PERIOD)) :
    cv.calculate_yield_payouts_with tx_hash locked_coins yield_entries start_height =
      if yield_entries = [] then .ok none
      else if ∃ e ∈ yield_entries, 2 ^ 64 ≤ cv.expected_payout
          (yield_block_range start_height cfg.STAKE_LOCK_PERIOD) (locked_coins e) then
        .error "uint64_t addition overflow"
      else .ok (some (yield_entries.map fun e => (e, UInt64.ofNat (cv.expected_payout
        (yield_block_range start_height cfg.STAKE_LOCK_PERIOD) (locked_coins e))))) := by
  unfold calculate_yield_payouts_with
  by_cases hnil : yield_entries = []
  · subst hnil
    rfl
  · rw [if_neg (by simpa using hnil), if_neg hnil, hcfg]
    dsimp only [bind, Except.bind]
    rw [start_payouts_nil, accrue_blocks_eq hcover]
    rfl

/-- The payout the run gives a stake is its `expected_payout`, when none reaches `2 ^ 64`. -/
theorem map_toNat_of_lt {cv : ChainView} {locked_coins : α → UInt64} {entries : List α}
    {idxs : List UInt64} (hlt : ∀ e ∈ entries, cv.expected_payout idxs (locked_coins e) < 2 ^ 64) :
    ((entries.map fun e => (e, UInt64.ofNat (cv.expected_payout idxs (locked_coins e)))).map
        fun p => (p.1, p.2.toNat)) =
      entries.map fun e => (e, cv.expected_payout idxs (locked_coins e)) := by
  rw [List.map_map]
  apply List.map_congr_left
  intro e he
  simp only [Function.comp_apply, UInt64.toNat_ofNat']
  rw [Nat.mod_eq_of_lt (hlt e he)]

/-- A payout is at most all the locked coins and all the slippage of a covered window. -/
theorem expected_payout_le {cv : ChainView} {locked_coins : α → UInt64} {entries : List α}
    {idxs : List UInt64} (hcover : cv.WindowCovers locked_coins entries idxs) {e : α}
    (he : e ∈ entries) :
    cv.expected_payout idxs (locked_coins e) ≤
      (entries.map fun e => (locked_coins e).toNat).sum + cv.slippage_total idxs := by
  have hone : (idxs.map fun idx => cv.yield_share idx (locked_coins e)).sum ≤
      cv.slippage_total idxs :=
    (List.le_sum_of_mem (List.mem_map_of_mem (f := fun e =>
      (idxs.map fun idx => cv.yield_share idx (locked_coins e)).sum) he)).trans
        (sum_yield_shares_le hcover)
  have hlocked : (locked_coins e).toNat ≤ (entries.map fun e => (locked_coins e).toNat).sum :=
    List.le_sum_of_mem (List.mem_map_of_mem he)
  unfold expected_payout
  omega

/-- **The payouts share out no more than the slippage.** Over a window whose every block is
cached with a tally that covers the matured stakes: a run that returns pays each stake its
locked coins and the floor of its share of every block, which all together exceed the locked
coins by at most the window's slippage; the cast to 64 bits never throws; and when there are
stakes and their locked coins and the slippage add up below `2 ^ 64`, the run returns `true`
with exactly these payouts. Both overloads of the source are instances:
`calculate_yield_payouts` and `calculate_carrot_yield_payouts`. -/
theorem calculate_yield_payouts_within_slippage (cv : ChainView) (tx_hash : α → Crypto.Hash)
    (locked_coins : α → UInt64) (yield_entries : List α) (start_height : UInt64) {cfg : config_t}
    (hcfg : get_config cv.m_nettype = .ok cfg)
    (hcover : cv.WindowCovers locked_coins yield_entries
      (yield_block_range start_height cfg.STAKE_LOCK_PERIOD)) :
    (∀ payouts, cv.calculate_yield_payouts_with tx_hash locked_coins yield_entries start_height =
        .ok (some payouts) →
      payouts.map (fun p => (p.1, p.2.toNat)) = yield_entries.map (fun e =>
          (e, cv.expected_payout (yield_block_range start_height cfg.STAKE_LOCK_PERIOD)
            (locked_coins e))) ∧
        (payouts.map fun p => p.2.toNat - (locked_coins p.1).toNat).sum ≤
          cv.slippage_total (yield_block_range start_height cfg.STAKE_LOCK_PERIOD)) ∧
      cv.calculate_yield_payouts_with tx_hash locked_coins yield_entries start_height ≠
        .error "bad numeric conversion: positive overflow" ∧
      (yield_entries ≠ [] →
        (yield_entries.map fun e => (locked_coins e).toNat).sum +
          cv.slippage_total (yield_block_range start_height cfg.STAKE_LOCK_PERIOD) < 2 ^ 64 →
        cv.calculate_yield_payouts_with tx_hash locked_coins yield_entries start_height =
          .ok (some (yield_entries.map fun e => (e, UInt64.ofNat (cv.expected_payout
            (yield_block_range start_height cfg.STAKE_LOCK_PERIOD) (locked_coins e)))))) := by
  have hshares := sum_yield_shares_le hcover
  rw [calculate_yield_payouts_with_eq hcfg hcover]
  refine ⟨?_, ?_, ?_⟩
  · intro payouts h
    split_ifs at h with hnil hover
    · cases h
    · cases h
      have hlt : ∀ e ∈ yield_entries, cv.expected_payout
          (yield_block_range start_height cfg.STAKE_LOCK_PERIOD) (locked_coins e) < 2 ^ 64 :=
        fun e he => not_le.mp fun hge => hover ⟨e, he, hge⟩
      have hpay := map_toNat_of_lt hlt
      refine ⟨hpay, ?_⟩
      -- what each payout adds to its locked coins is the sum of its shares
      have hgain : (((yield_entries.map fun e => (e, UInt64.ofNat (cv.expected_payout
          (yield_block_range start_height cfg.STAKE_LOCK_PERIOD) (locked_coins e)))).map
            fun p => p.2.toNat - (locked_coins p.1).toNat)) =
          yield_entries.map fun e => ((yield_block_range start_height cfg.STAKE_LOCK_PERIOD).map
            fun idx => cv.yield_share idx (locked_coins e)).sum := by
        rw [List.map_map]
        apply List.map_congr_left
        intro e he
        simp only [Function.comp_apply, UInt64.toNat_ofNat']
        rw [Nat.mod_eq_of_lt (hlt e he), expected_payout, Nat.add_sub_cancel_left]
      rw [hgain]
      exact hshares
  · split_ifs <;> simp
  · intro hne hfit
    -- no payout reaches `2 ^ 64`, so the addition check never throws
    have hover : ¬∃ e ∈ yield_entries, 2 ^ 64 ≤ cv.expected_payout
        (yield_block_range start_height cfg.STAKE_LOCK_PERIOD) (locked_coins e) := by
      rintro ⟨e, he, hge⟩
      have hle := expected_payout_le hcover he
      omega
    rw [if_neg hne, if_neg hover]

/-- Two Carrot stakes made at height `1089` on testnet. -/
def windowStake (locked_coins : UInt64) (tag : UInt8) : yield_tx_info_carrot where
  block_height := 1089
  tx_hash := ⟨Vector.replicate 32 tag⟩
  locked_coins := locked_coins
  return_address := ⟨Vector.replicate 32 tag⟩
  return_pubkey := ⟨Vector.replicate 32 tag⟩
  return_view_tag := ⟨Vector.replicate 3 tag⟩
  return_anchor_enc := ⟨Vector.replicate 16 tag⟩

/-- The testnet chain whose blocks `1090` to `1109` each have a slippage of `7` over `100`
locked coins, the stakes of `60` and `40` of height `1089`: each block pays them `4` and `2`. -/
def testnetStakeWindow : ChainView where
  m_nettype := .TESTNET
  m_hardfork := HardFork.testnet
  m_yield_block_info_cache h :=
    if 1089 ≤ h ∧ h ≤ 1109 then some ⟨h, 7, if h = 1089 then 100 else 0, 100, 100⟩ else none
  get_audit_block_info _ := none
  get_yield_tx_info _ := []
  get_carrot_yield_tx_info h := if h = 1089 then [windowStake 60 1, windowStake 40 2] else []
  get_audit_tx_info _ := []

/-- The window of the stakes of height `1089`, blocks `1090` to `1109`, is covered. -/
theorem testnetStakeWindow_covers : testnetStakeWindow.WindowCovers (·.locked_coins)
    (testnetStakeWindow.get_carrot_yield_tx_info 1089)
    (yield_block_range 1089 config_testnet.STAKE_LOCK_PERIOD) := by
  intro idx hidx
  have hrange : yield_block_range 1089 config_testnet.STAKE_LOCK_PERIOD =
      (List.range' 1090 20).map UInt64.ofNat := by
    decide
  rw [hrange] at hidx
  obtain ⟨k, hk, rfl⟩ := List.mem_map.mp hidx
  rw [List.mem_range'_1] at hk
  have hk64 : (UInt64.ofNat k).toNat = k := by
    rw [UInt64.toNat_ofNat']
    exact Nat.mod_eq_of_lt (by omega)
  have hin : 1089 ≤ UInt64.ofNat k ∧ UInt64.ofNat k ≤ 1109 := by
    rw [UInt64.le_iff_toNat_le, UInt64.le_iff_toNat_le, hk64]
    exact ⟨by simp; omega, by simp; omega⟩
  simp only [testnetStakeWindow, if_pos hin, Option.any_some]
  simp [windowStake]

theorem calculate_yield_payouts_within_slippage_testnet :
    get_config testnetStakeWindow.m_nettype = .ok config_testnet ∧
      testnetStakeWindow.WindowCovers (·.locked_coins)
        (testnetStakeWindow.get_carrot_yield_tx_info 1089)
        (yield_block_range 1089 config_testnet.STAKE_LOCK_PERIOD) ∧
      ((∀ payouts, testnetStakeWindow.calculate_yield_payouts_with (·.tx_hash) (·.locked_coins)
          (testnetStakeWindow.get_carrot_yield_tx_info 1089) 1089 = .ok (some payouts) →
        payouts.map (fun p => (p.1, p.2.toNat)) =
            (testnetStakeWindow.get_carrot_yield_tx_info 1089).map (fun e =>
              (e, testnetStakeWindow.expected_payout
                (yield_block_range 1089 config_testnet.STAKE_LOCK_PERIOD) e.locked_coins)) ∧
          (payouts.map fun p => p.2.toNat - p.1.locked_coins.toNat).sum ≤
            testnetStakeWindow.slippage_total
              (yield_block_range 1089 config_testnet.STAKE_LOCK_PERIOD)) ∧
        testnetStakeWindow.calculate_yield_payouts_with (·.tx_hash) (·.locked_coins)
            (testnetStakeWindow.get_carrot_yield_tx_info 1089) 1089 ≠
          .error "bad numeric conversion: positive overflow" ∧
        (testnetStakeWindow.get_carrot_yield_tx_info 1089 ≠ [] →
          ((testnetStakeWindow.get_carrot_yield_tx_info 1089).map
              fun e => e.locked_coins.toNat).sum +
            testnetStakeWindow.slippage_total
              (yield_block_range 1089 config_testnet.STAKE_LOCK_PERIOD) < 2 ^ 64 →
          testnetStakeWindow.calculate_yield_payouts_with (·.tx_hash) (·.locked_coins)
            (testnetStakeWindow.get_carrot_yield_tx_info 1089) 1089 =
            .ok (some ((testnetStakeWindow.get_carrot_yield_tx_info 1089).map fun e =>
              (e, UInt64.ofNat (testnetStakeWindow.expected_payout
                (yield_block_range 1089 config_testnet.STAKE_LOCK_PERIOD) e.locked_coins)))))) ∧
      testnetStakeWindow.get_carrot_yield_tx_info 1089 ≠ [] ∧
      ((testnetStakeWindow.get_carrot_yield_tx_info 1089).map fun e => e.locked_coins.toNat).sum +
          testnetStakeWindow.slippage_total
            (yield_block_range 1089 config_testnet.STAKE_LOCK_PERIOD) < 2 ^ 64 ∧
      (testnetStakeWindow.get_carrot_yield_tx_info 1089).map (fun e =>
          testnetStakeWindow.expected_payout
            (yield_block_range 1089 config_testnet.STAKE_LOCK_PERIOD) e.locked_coins) =
        [140, 80] := by
  have hrange : yield_block_range 1089 config_testnet.STAKE_LOCK_PERIOD =
      (List.range' 1090 20).map UInt64.ofNat := by
    decide
  have hfit : ((testnetStakeWindow.get_carrot_yield_tx_info 1089).map
      fun e => e.locked_coins.toNat).sum + testnetStakeWindow.slippage_total
        (yield_block_range 1089 config_testnet.STAKE_LOCK_PERIOD) < 2 ^ 64 := by
    rw [hrange]
    decide
  have hpay : (testnetStakeWindow.get_carrot_yield_tx_info 1089).map (fun e =>
      testnetStakeWindow.expected_payout
        (yield_block_range 1089 config_testnet.STAKE_LOCK_PERIOD) e.locked_coins) = [140, 80] := by
    rw [hrange]
    decide
  exact ⟨rfl, testnetStakeWindow_covers,
    @calculate_yield_payouts_within_slippage yield_tx_info_carrot testnetStakeWindow (·.tx_hash)
      (·.locked_coins) (testnetStakeWindow.get_carrot_yield_tx_info 1089) 1089 config_testnet rfl
      testnetStakeWindow_covers, by decide, hfit, hpay⟩

end ChainView

end Coinbase

end Salvium
