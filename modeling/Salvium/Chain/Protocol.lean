import Mathlib
import Salvium.Db.Yield
import Salvium.Lib.Except
import Salvium.Tx.Coinbase

/-!
# Salvium — protocol-transaction payouts, the block template and the block checks

A stake locks coins for `STAKE_LOCK_PERIOD` blocks; the block that matures it must carry, in
its protocol transaction, one output paying the stake back with its share of the slippage of
every block it was locked over (`calculate_yield_payouts`). Audits mature the same way at the
lock period of their audit fork (`calculate_audit_payouts`). `create_block_template` turns the
matured payouts into `protocol_data_entry`s and calls `construct_protocol_tx`;
`prevalidate_protocol_transaction` and `validate_protocol_transaction` check a received block's
protocol transaction against the same payouts.

What the chain provides is a `ChainView`: the network, the hard-fork schedule, the yield-info
cache, and the rows of the audit and stake tables that the payout code reads. The payout
arithmetic over the cache is modelled as the source computes it.

Two results are about the check and the builder together. From the Carrot fork on, the check
compares outputs only against Carrot yield payouts, so while the matured stake height is still
before the fork, the protocol transaction is accepted whatever its outputs pay, once their
number is right (`validate_protocol_transaction_counts_only`). And the builder stores a single
ephemeral key for two Carrot payouts with equal return keys, where the check insists on
additional keys for every transaction with more than one output, so the node rejects the
protocol transaction it built itself (`validate_rejects_shared_return_pubkey`).
-/

namespace Salvium

namespace Coinbase

open RCTType txout_target_v

/-! ## The chain as the payout code reads it -/

/-- `yield_tx_info`, without `P_change`, which only reaches fields of `protocol_data_entry`
that `construct_protocol_tx` does not read. -/
structure yield_tx_info where
  block_height : UInt64
  tx_hash : Crypto.Hash
  locked_coins : UInt64
  return_address : Crypto.public_key
  return_pubkey : Crypto.public_key
  deriving DecidableEq, Repr

/-- `yield_tx_info_carrot`, without the unread `version`. -/
structure yield_tx_info_carrot where
  block_height : UInt64
  tx_hash : Crypto.Hash
  locked_coins : UInt64
  return_address : Crypto.public_key
  return_pubkey : Crypto.public_key
  return_view_tag : Carrot.view_tag_t
  return_anchor_enc : Carrot.encrypted_janus_anchor_t
  deriving DecidableEq, Repr

/-- What the protocol-transaction code reads of `Blockchain` and its database:
`m_yield_block_info_cache` as `validate_ybi_cache` leaves it (on a reachable chain, the last
`STAKE_LOCK_PERIOD + 1` rows of the yield table, see `Salvium.Chain.YieldCache`),
`get_audit_block_info`, and the stake and audit rows `get_yield_tx_info`,
`get_carrot_yield_tx_info` and `get_audit_tx_info` return for a height. -/
structure ChainView where
  m_nettype : network_type
  m_hardfork : HardFork
  m_yield_block_info_cache : UInt64 → Option yield_block_info
  get_audit_block_info : UInt64 → Option audit_block_info
  get_yield_tx_info : UInt64 → List yield_tx_info
  get_carrot_yield_tx_info : UInt64 → List yield_tx_info_carrot
  get_audit_tx_info : UInt64 → List yield_tx_info

namespace ChainView

/-- `Blockchain::get_ybi_entry`: the cache row, once the cache is valid. -/
def get_ybi_entry (cv : ChainView) (height : UInt64) : Option yield_block_info :=
  cv.m_yield_block_info_cache height

/-- `Blockchain::get_abi_entry`. -/
def get_abi_entry (cv : ChainView) (height : UInt64) : Option audit_block_info :=
  cv.get_audit_block_info height

/-! ## Payouts -/

/-- The entries that survive a blacklist of transaction hashes, each paired with its locked
coins as the starting payout. -/
def start_payouts {α : Type} (tx_hash : α → Crypto.Hash) (locked_coins : α → UInt64)
    (txs_blacklist : List String) (entries : List α) : List (α × UInt64) :=
  (entries.filter fun e => Crypto.pod_to_hex (tx_hash e).data ∉ txs_blacklist).map fun e => (e, locked_coins e)

/-- One entry's share of a block's slippage, `slippage * locked / tally` in 128 bits, then
`numeric_cast<uint64_t>` and the checked addition: the two throws of the inner loop. -/
def add_yield_share (slippage locked_total locked_coins amount : UInt64) : Except String UInt64 :=
  let yield_128 := slippage.toNat * locked_coins.toNat / locked_total.toNat
  if yield_128 > 2 ^ 64 - 1 then throw "bad numeric conversion: positive overflow"
  else
    let yield_u64 := UInt64.ofNat yield_128
    if amount + yield_u64 < amount then throw "uint64_t addition overflow"
    else pure (amount + yield_u64)

/-- One block `idx` of the accumulation loop: `none` when the cache lacks it (the source returns
`false`), the payouts unchanged for a block without slippage or locked coins, and otherwise
every payout plus its share. -/
def accrue_block {α : Type} (cv : ChainView) (locked_coins : α → UInt64) (idx : UInt64)
    (container : List (α × UInt64)) : Except String (Option (List (α × UInt64))) :=
  match cv.m_yield_block_info_cache idx with
  | none => pure none
  | some ybi =>
    if ybi.slippage_total_this_block = 0 ∨ ybi.locked_coins_tally = 0 then pure (some container)
    else some <$> container.mapM fun p =>
      (p.1, ·) <$> add_yield_share ybi.slippage_total_this_block ybi.locked_coins_tally
        (locked_coins p.1) p.2

/-- The accumulation loop over the blocks `idxs`, stopping at the first one the cache lacks. -/
def accrue_blocks {α : Type} (cv : ChainView) (locked_coins : α → UInt64) :
    List UInt64 → List (α × UInt64) → Except String (Option (List (α × UInt64)))
  | [], container => pure (some container)
  | idx :: idxs, container => do
    match ← cv.accrue_block locked_coins idx container with
    | none => pure none
    | some container => cv.accrue_blocks locked_coins idxs container

/-- The heights the loop `for (idx = start_height+1; idx <= start_height + yield_lock_period;
++idx)` visits, both ends computed in `uint64_t`: none when the first is past the last. When the
last is `2 ^ 64 - 1` the source's condition never fails and its loop goes round past it; the
list stops there. -/
def yield_block_range (start_height yield_lock_period : UInt64) : List UInt64 :=
  let first := start_height + 1
  let last := start_height + yield_lock_period
  if first ≤ last then (List.range' first.toNat (last.toNat + 1 - first.toNat)).map UInt64.ofNat
  else []

/-- The body both overloads of `Blockchain::calculate_yield_payouts` share: no stake rows is a
failure, the (empty) blacklist is applied, and the slippage of every block the stakes were
locked over is shared out. `.error` is a throw, `.ok none` the source's `return false`. -/
def calculate_yield_payouts_with {α : Type} (cv : ChainView) (tx_hash : α → Crypto.Hash)
    (locked_coins : α → UInt64) (yield_entries : List α) (start_height : UInt64) :
    Except String (Option (List (α × UInt64))) :=
  if yield_entries.isEmpty then pure none
  else do
    let yield_lock_period := (← get_config cv.m_nettype).STAKE_LOCK_PERIOD
    cv.accrue_blocks locked_coins (yield_block_range start_height yield_lock_period)
      (start_payouts tx_hash locked_coins [] yield_entries)

/-- `Blockchain::calculate_yield_payouts` for pre-Carrot stakes. -/
def calculate_yield_payouts (cv : ChainView) (start_height : UInt64) :
    Except String (Option (List (yield_tx_info × UInt64))) :=
  cv.calculate_yield_payouts_with (·.tx_hash) (·.locked_coins) (cv.get_yield_tx_info start_height)
    start_height

/-- `Blockchain::calculate_yield_payouts` for Carrot stakes. -/
def calculate_carrot_yield_payouts (cv : ChainView) (start_height : UInt64) :
    Except String (Option (List (yield_tx_info_carrot × UInt64))) :=
  cv.calculate_yield_payouts_with (·.tx_hash) (·.locked_coins)
    (cv.get_carrot_yield_tx_info start_height) start_height

/-- `Blockchain::calculate_audit_payouts`: the audited coins come back as they went in, except
for the one blacklisted audit transaction. -/
def calculate_audit_payouts (cv : ChainView) (start_height : UInt64) :
    Option (List (yield_tx_info × UInt64)) :=
  let audit_entries := cv.get_audit_tx_info start_height
  if audit_entries.isEmpty then none
  else some (start_payouts (·.tx_hash) (·.locked_coins)
    ["017a79539e69ce16e91d9aa2267c102f336678c41636567c1129e3e72149499a"] audit_entries)

/-- The audit loop `create_block_template` and `validate_protocol_transaction` both run: the
first audit fork (in key order) that was in force at `height - audit_lock_period - 1`. It gives
that height, the fork's asset types and the matured payouts, or `none` when no audit matures. -/
def matured_audit_payouts (cv : ChainView) (height : UInt64) :
    Except String (Option (UInt64 × (String × String) × List (yield_tx_info × UInt64))) := do
  let audit_hard_forks := (← get_config cv.m_nettype).AUDIT_HARD_FORKS
  go audit_hard_forks
where
  go : List (UInt8 × UInt64 × String × String) →
      Except String (Option (UInt64 × (String × String) × List (yield_tx_info × UInt64)))
    | [] => pure none
    | (audit_hf, audit_lock_period, audit_asset_types) :: rest =>
      let matured_audit_height := height - audit_lock_period - 1
      if cv.m_hardfork.get_ideal_version matured_audit_height = audit_hf then
        match cv.get_abi_entry matured_audit_height with
        | none => throw ("Block at height: " ++ toString height ++
            " - failed to obtain audit block information - aborting")
        | some abi_matured =>
          if abi_matured.locked_coins_this_block = 0 then
            pure (some (matured_audit_height, audit_asset_types, []))
          else match cv.calculate_audit_payouts matured_audit_height with
            | none => throw ("Block at height: " ++ toString height ++
                " - Failed to obtain audit payout information - aborting")
            | some audit_payouts => pure (some (matured_audit_height, audit_asset_types, audit_payouts))
      else go rest

/-- The audit payouts of `matured_audit_payouts`, none when no audit matures. -/
def audit_payouts (a : Option (UInt64 × (String × String) × List (yield_tx_info × UInt64))) :
    List (yield_tx_info × UInt64) :=
  (a.map fun x => x.2.2).getD []

/-! ## The block template's protocol entries -/

/-- The entry `create_block_template` makes of a Carrot yield payout. -/
def carrot_yield_entry (hf_submitted : UInt8) (yield_entry : yield_tx_info_carrot × UInt64) :
    protocol_data_entry where
  return_address := yield_entry.1.return_address
  amount_burnt := yield_entry.2
  destination_asset := if hf_submitted ≥ HF_VERSION_SALVIUM_ONE_PROOFS then "SAL1" else "SAL"
  type := .STAKE
  return_pubkey := yield_entry.1.return_pubkey
  return_view_tag := yield_entry.1.return_view_tag
  return_anchor_enc := yield_entry.1.return_anchor_enc
  is_carrot := true

/-- The entry `create_block_template` makes of a pre-Carrot yield payout. The source leaves the
view tag and anchor unset; they are never read for a non-Carrot entry. -/
def yield_entry (hf_submitted : UInt8) (yield_entry : yield_tx_info × UInt64) :
    protocol_data_entry where
  return_address := yield_entry.1.return_address
  amount_burnt := yield_entry.2
  destination_asset := if hf_submitted ≥ HF_VERSION_SALVIUM_ONE_PROOFS then "SAL1" else "SAL"
  type := .STAKE
  return_pubkey := yield_entry.1.return_pubkey
  return_view_tag := ⟨Vector.replicate 3 0⟩
  return_anchor_enc := ⟨Vector.replicate 16 0⟩
  is_carrot := false

/-- The entry `create_block_template` makes of an audit payout. -/
def audit_entry (destination_asset : String) (audit_entry : yield_tx_info × UInt64) :
    protocol_data_entry where
  return_address := audit_entry.1.return_address
  amount_burnt := audit_entry.2
  destination_asset := destination_asset
  type := .AUDIT
  return_pubkey := audit_entry.1.return_pubkey
  return_view_tag := ⟨Vector.replicate 3 0⟩
  return_anchor_enc := ⟨Vector.replicate 16 0⟩
  is_carrot := false

/-- The yield entries of `create_block_template`: none when the matured row is missing or
locked nothing, else the Carrot or pre-Carrot payouts by the version at `start_height`. The
source computes both lists and uses the Carrot one when it is not empty; only one of them is
ever computed. -/
def stake_entries (cv : ChainView) (start_height : UInt64) :
    Except String (List protocol_data_entry) :=
  match cv.get_ybi_entry start_height with
  | none => pure []
  | some ybi_matured =>
    if ybi_matured.locked_coins_this_block > 0 then
      let hf_submitted := cv.m_hardfork.get_ideal_version start_height
      if hf_submitted ≥ HF_VERSION_CARROT then do
        match ← cv.calculate_carrot_yield_payouts start_height with
        | none => throw "Failed to obtain yield payout information - aborting"
        | some carrot_yield_payouts => pure (carrot_yield_payouts.map (carrot_yield_entry hf_submitted))
      else do
        match ← cv.calculate_yield_payouts start_height with
        | none => throw "Failed to obtain yield payout information - aborting"
        | some yield_payouts => pure (yield_payouts.map (yield_entry hf_submitted))
    else pure []

/-- The audit entries of `create_block_template`: each matured audit payout in the
destination asset of its audit fork. -/
def audit_entries (a : Option (UInt64 × (String × String) × List (yield_tx_info × UInt64))) :
    List protocol_data_entry :=
  match a with
  | none => []
  | some (_, audit_asset_types, payouts) => payouts.map (audit_entry audit_asset_types.2)

/-- The `protocol_entries` of `Blockchain::create_block_template`. -/
def create_block_template_protocol_entries (cv : ChainView) (height : UInt64) :
    Except String (List protocol_data_entry) := do
  let yield_lock_period := (← get_config cv.m_nettype).STAKE_LOCK_PERIOD
  let start_height := if height > yield_lock_period then height - yield_lock_period - 1 else 0
  let yield_entries ← cv.stake_entries start_height
  pure (yield_entries ++ audit_entries (← cv.matured_audit_payouts height))

/-- The protocol transaction of `create_block_template` for a block of `major_version`;
`txkey_pub` is the legacy path's random transaction key. -/
def create_block_template_protocol_tx (cv : ChainView) (height : UInt64) (major_version : UInt8)
    (txkey_pub : Crypto.public_key) : Except String transaction := do
  let protocol_entries ← cv.create_block_template_protocol_entries height
  match construct_protocol_tx height protocol_entries major_version txkey_pub with
  | none => throw "Failed to construct protocol tx"
  | some tx => pure tx

end ChainView

/-! ## The block checks -/

/-- `CHECK_AND_ASSERT_MES(expr, false, message)`: the check fails with the message it logs. -/
def CHECK_AND_ASSERT_MES (expr : Bool) (message : String) : Except String Unit :=
  if expr then pure () else throw message

@[simp] theorem CHECK_AND_ASSERT_MES_true (message : String) :
    CHECK_AND_ASSERT_MES true message = .ok () := rfl

theorem CHECK_AND_ASSERT_MES_eq_ok {expr : Bool} {message : String} :
    CHECK_AND_ASSERT_MES expr message = .ok () ↔ expr = true := by
  cases expr <;> simp [CHECK_AND_ASSERT_MES, throw, throwThe, MonadExceptOf.throw, pure, Except.pure]

/-- The genesis exception both checks share. -/
def check_genesis_protocol_tx (tx : transaction) : Except String Unit := do
  CHECK_AND_ASSERT_MES (tx.version = 1) "Invalid genesis protocol transaction version"
  CHECK_AND_ASSERT_MES (tx.vin.length = 0) "genesis protocol transaction in the block has inputs"
  CHECK_AND_ASSERT_MES (tx.vout.length = 0) "genesis protocol transaction in the block has outputs"

namespace ChainView

/-- `Blockchain::prevalidate_protocol_transaction(b, height, hf_version)` for
`b.protocol_tx = tx`. -/
def prevalidate_protocol_transaction (cv : ChainView) (tx : transaction) (height : UInt64)
    (hf_version : UInt8) : Except String Unit :=
  if height = 0 then check_genesis_protocol_tx tx
  else do
    CHECK_AND_ASSERT_MES (tx.vin.length = 1) "coinbase protocol transaction in the block has no inputs"
    match tx.vin with
    | [.txin_gen gen_height] =>
      CHECK_AND_ASSERT_MES (tx.version > 1) "Invalid coinbase protocol transaction version"
      -- the version at the matured stake height decides the outputs' version and types
      let stake_lock_period := (← get_config cv.m_nettype).STAKE_LOCK_PERIOD
      let hf_version_submitted ←
        if hf_version ≥ HF_VERSION_CARROT then do
          let hf_version_submitted :=
            cv.m_hardfork.get_ideal_version (height - stake_lock_period - 1)
          if hf_version_submitted ≥ HF_VERSION_CARROT ∨ tx.vout.length = 0 then
            CHECK_AND_ASSERT_MES (tx.version = TRANSACTION_VERSION_CARROT)
              "protocol transaction has wrong version"
          else CHECK_AND_ASSERT_MES (tx.version = 2) "protocol transaction has wrong version"
          CHECK_AND_ASSERT_MES (tx.type = .PROTOCOL) "protocol transaction has wrong type"
          pure hf_version_submitted
        else pure hf_version
      if hf_version ≥ HF_VERSION_REJECT_SIGS_IN_COINBASE ∧ tx.version ≥ 2 then
        CHECK_AND_ASSERT_MES (tx.rct_type = RCTTypeNull)
          "RingCT signatures not allowed in coinbase protocol transactions"
      CHECK_AND_ASSERT_MES (gen_height = height.toNat)
        ("The protocol transaction in block has invalid height: " ++ toString gen_height ++
          ", expected: " ++ toString height)
      CHECK_AND_ASSERT_MES (check_outs_overflow tx) "protocol transaction has money overflow in block"
      CHECK_AND_ASSERT_MES (check_output_types tx hf_version_submitted)
        "protocol transaction has invalid output type(s) in block"
    | _ => throw "coinbase protocol transaction in the block has the wrong type"

/-- The checks of the Carrot loop for the payout at `output_idx` and its output `out`. An output
without a key fails the key comparison (the source compares an unset key); a non-Carrot output
makes `boost::get` throw. -/
def check_carrot_payout (tx : transaction) (output_idx : ℕ)
    (payout : yield_tx_info_carrot × UInt64) (out : tx_out) : Except String Unit := do
  CHECK_AND_ASSERT_MES (get_output_public_key out = some payout.1.return_address)
    "Incorrect output key detected in protocol_tx"
  if tx.vout.length > 1 then do
    let additional_pubkeys := get_additional_tx_pub_keys_from_extra tx.extra
    CHECK_AND_ASSERT_MES (additional_pubkeys.length > output_idx)
      "Missing return pubkey detected in protocol_tx"
    CHECK_AND_ASSERT_MES (additional_pubkeys[output_idx]? = some payout.1.return_pubkey)
      "Incorrect return pubkey detected in protocol_tx"
  else
    CHECK_AND_ASSERT_MES (get_tx_pub_key_from_extra tx.extra 0 = payout.1.return_pubkey)
      "Incorrect return pubkey detected in protocol_tx"
  CHECK_AND_ASSERT_MES (out.amount = payout.2)
    ("Incorrect output amount detected in protocol_tx. expected_amount: " ++ toString payout.2)
  CHECK_AND_ASSERT_MES ((get_output_asset_type out).getD "" = "SAL1")
    "Incorrect output asset_type (!= SAL1) detected in protocol_tx"
  match out.target with
  | txout_to_carrot_v1 _ _ view_tag encrypted_janus_anchor => do
    CHECK_AND_ASSERT_MES (view_tag = payout.1.return_view_tag)
      "Incorrect view tag detected in protocol_tx"
    CHECK_AND_ASSERT_MES (encrypted_janus_anchor = payout.1.return_anchor_enc)
      "Incorrect anchor detected in protocol_tx"
  | _ => throw "boost::bad_get: failed value get using boost::get"

/-- The Carrot loop: payout `i` against output `i`. The count check before the loop makes the
outputs at least as many as the payouts, so the loop ends with the payouts. -/
def check_carrot_payouts (tx : transaction) :
    ℕ → List (yield_tx_info_carrot × UInt64) → List tx_out → Except String Unit
  | output_idx, payout :: payouts, out :: outs => do
    check_carrot_payout tx output_idx payout out
    check_carrot_payouts tx (output_idx + 1) payouts outs
  | _, _, _ => pure ()

/-- The checks of the pre-Carrot loop for one payout and its output; the asset type follows the
version at the stake's own height. -/
def check_payout (cv : ChainView) (payout : yield_tx_info × UInt64) (out : tx_out) :
    Except String Unit := do
  CHECK_AND_ASSERT_MES (get_output_public_key out = some payout.1.return_address)
    "Incorrect output key detected in protocol_tx"
  CHECK_AND_ASSERT_MES (out.amount = payout.2)
    ("Incorrect output amount detected in protocol_tx. expected_amount: " ++ toString payout.2)
  let out_asset_type := (get_output_asset_type out).getD ""
  if cv.m_hardfork.get_ideal_version payout.1.block_height ≥ HF_VERSION_SALVIUM_ONE_PROOFS then
    CHECK_AND_ASSERT_MES (out_asset_type = "SAL1")
      "Incorrect output asset_type (!= SAL1) detected in protocol_tx"
  else
    CHECK_AND_ASSERT_MES (out_asset_type = "SAL")
      "Incorrect output asset_type (!= SAL) detected in protocol_tx"
  CHECK_AND_ASSERT_MES (get_output_unlock_time out = some CRYPTONOTE_MINED_MONEY_UNLOCK_WINDOW)
    "Invalid output unlock time on protocol_tx output"

/-- The pre-Carrot loop over the yield payouts followed by the audit payouts. -/
def check_payouts (cv : ChainView) :
    List (yield_tx_info × UInt64) → List tx_out → Except String Unit
  | payout :: payouts, out :: outs => do
    cv.check_payout payout out
    cv.check_payouts payouts outs
  | _, _ => pure ()

/-- The stake payouts `validate_protocol_transaction` expects for the stakes matured at
`matured_height`: pre-Carrot or Carrot ones by the version at that height, none when the row
locked nothing. A missing row is a rejection. -/
def matured_stake_payouts (cv : ChainView) (height matured_height : UInt64) :
    Except String (List (yield_tx_info × UInt64) × List (yield_tx_info_carrot × UInt64)) :=
  match cv.get_ybi_entry matured_height with
  | none => throw ("Block at height: " ++ toString height ++
      " - Failed to obtain yield block information - aborting")
  | some ybi_matured =>
    if ybi_matured.locked_coins_this_block = 0 then pure ([], [])
    else if cv.m_hardfork.get_ideal_version matured_height ≥ HF_VERSION_CARROT then do
      match ← cv.calculate_carrot_yield_payouts matured_height with
      | none => throw ("Block at height: " ++ toString height ++
          " - Failed to obtain carrot yield payout information - aborting")
      | some carrot_yield_payouts => pure ([], carrot_yield_payouts)
    else do
      match ← cv.calculate_yield_payouts matured_height with
      | none => throw ("Block at height: " ++ toString height ++
          " - Failed to obtain yield payout information - aborting")
      | some yield_payouts => pure (yield_payouts, [])

/-- `Blockchain::validate_protocol_transaction(b, height, hf_version)` for
`b.protocol_tx = tx`. -/
def validate_protocol_transaction (cv : ChainView) (tx : transaction) (height : UInt64)
    (hf_version : UInt8) : Except String Unit :=
  if height = 0 then check_genesis_protocol_tx tx
  else do
    CHECK_AND_ASSERT_MES (tx.vin.length = 1) "coinbase protocol transaction in the block has no inputs"
    let stake_lock_period := (← get_config cv.m_nettype).STAKE_LOCK_PERIOD
    if height ≤ stake_lock_period then
      CHECK_AND_ASSERT_MES (tx.vout.length = 0) "protocol transaction in the block has outputs"
    else do
      let (yield_payouts, carrot_yield_payouts) ←
        cv.matured_stake_payouts height (height - stake_lock_period - 1)
      let audit_payouts := audit_payouts (← cv.matured_audit_payouts height)
      CHECK_AND_ASSERT_MES
        (tx.vout.length = yield_payouts.length + audit_payouts.length + carrot_yield_payouts.length)
        "Invalid number of outputs in protocol_tx - aborting"
      -- from the Carrot fork on only the Carrot payouts are compared with the outputs
      if hf_version ≥ HF_VERSION_CARROT then check_carrot_payouts tx 0 carrot_yield_payouts tx.vout
      else cv.check_payouts (yield_payouts ++ audit_payouts) tx.vout

/-! ## The builder's entries are the checker's payouts -/

/-- Before the Carrot fork the matured stakes give no Carrot payouts. -/
theorem matured_stake_payouts_carrot_nil {cv : ChainView} {height m : UInt64}
    {ys : List (yield_tx_info × UInt64)} {cs : List (yield_tx_info_carrot × UInt64)}
    (hpre : cv.m_hardfork.get_ideal_version m < HF_VERSION_CARROT)
    (h : cv.matured_stake_payouts height m = .ok (ys, cs)) : cs = [] := by
  unfold matured_stake_payouts at h
  split at h
  · cases h
  · split_ifs at h with h0 hc
    · cases h
      rfl
    · exact absurd hc (UInt8.not_le.mpr hpre)
    · obtain ⟨r, -, hr⟩ := Except.bind_eq_ok_iff.mp h
      rcases r with _ | l
      · cases hr
      · cases hr
        rfl

/-- **The block template pays what the check expects.** Whenever the check computes the matured
stake payouts, `stake_entries` at the same height makes one entry of each, in order: the
builder and the check read the same row and run the same calculation. -/
theorem stake_entries_of_matured_stake_payouts {cv : ChainView} {height m : UInt64}
    {ys : List (yield_tx_info × UInt64)} {cs : List (yield_tx_info_carrot × UInt64)}
    (h : cv.matured_stake_payouts height m = .ok (ys, cs)) :
    cv.stake_entries m = .ok (ys.map (yield_entry (cv.m_hardfork.get_ideal_version m)) ++
      cs.map (carrot_yield_entry (cv.m_hardfork.get_ideal_version m))) := by
  unfold matured_stake_payouts at h
  unfold stake_entries
  split at h
  · cases h
  · rename_i ybi _
    split_ifs at h with h0 hc
    · -- nothing locked at the matured height: neither side pays
      cases h
      have hnot : ¬ybi.locked_coins_this_block > 0 := by simp [h0]
      simp [hnot, pure, Except.pure]
    · obtain ⟨r, hcalc, hr⟩ := Except.bind_eq_ok_iff.mp h
      rcases r with _ | l
      · cases hr
      · cases hr
        simp [UInt64.pos_iff_ne_zero.mpr h0, hc, hcalc, bind, Except.bind, pure, Except.pure]
    · obtain ⟨r, hcalc, hr⟩ := Except.bind_eq_ok_iff.mp h
      rcases r with _ | l
      · cases hr
      · cases hr
        simp [UInt64.pos_iff_ne_zero.mpr h0, hc, hcalc, bind, Except.bind, pure, Except.pure]

theorem audit_entries_eq_nil {a : Option (UInt64 × (String × String) × List (yield_tx_info × UInt64))}
    (h : audit_payouts a = []) : audit_entries a = [] := by
  rcases a with _ | ⟨_, _, payouts⟩
  · rfl
  · simp only [audit_payouts, Option.map_some, Option.getD_some] at h
    simp [audit_entries, h]

/-- The template's entries after the lock period: the matured stake payouts, then the audit
payouts, with the versions read at the matured height. -/
theorem create_block_template_protocol_entries_eq {cv : ChainView} {height : UInt64}
    {cfg : config_t} {ys : List (yield_tx_info × UInt64)}
    {cs : List (yield_tx_info_carrot × UInt64)}
    {a : Option (UInt64 × (String × String) × List (yield_tx_info × UInt64))}
    (hcfg : get_config cv.m_nettype = .ok cfg) (hh : cfg.STAKE_LOCK_PERIOD < height)
    (hstake : cv.matured_stake_payouts height (height - cfg.STAKE_LOCK_PERIOD - 1) = .ok (ys, cs))
    (haudit : cv.matured_audit_payouts height = .ok a) :
    cv.create_block_template_protocol_entries height = .ok
      (ys.map (yield_entry (cv.m_hardfork.get_ideal_version (height - cfg.STAKE_LOCK_PERIOD - 1))) ++
        cs.map (carrot_yield_entry
          (cv.m_hardfork.get_ideal_version (height - cfg.STAKE_LOCK_PERIOD - 1))) ++
        audit_entries a) := by
  simp [create_block_template_protocol_entries, hcfg, hh,
    stake_entries_of_matured_stake_payouts hstake, haudit, bind, Except.bind, pure, Except.pure]

/-! ## What the check compares from the Carrot fork on -/

/-- **From the Carrot fork on, pre-Carrot payouts are only counted.** At a height past the lock
period whose matured stakes predate the fork, `validate_protocol_transaction` at a Carrot
version accepts a protocol transaction exactly when it has one input and as many outputs as
there are yield and audit payouts: no output's key, amount, asset type or unlock time is
compared with the payout it stands for. -/
theorem validate_protocol_transaction_counts_only {cv : ChainView} {tx : transaction}
    {height : UInt64} {hf_version : UInt8} {cfg : config_t} {ys : List (yield_tx_info × UInt64)}
    {cs : List (yield_tx_info_carrot × UInt64)}
    {a : Option (UInt64 × (String × String) × List (yield_tx_info × UInt64))}
    (hcfg : get_config cv.m_nettype = .ok cfg) (hh : cfg.STAKE_LOCK_PERIOD < height)
    (hv : HF_VERSION_CARROT ≤ hf_version)
    (hpre : cv.m_hardfork.get_ideal_version (height - cfg.STAKE_LOCK_PERIOD - 1) < HF_VERSION_CARROT)
    (hstake : cv.matured_stake_payouts height (height - cfg.STAKE_LOCK_PERIOD - 1) = .ok (ys, cs))
    (haudit : cv.matured_audit_payouts height = .ok a) :
    cv.validate_protocol_transaction tx height hf_version = .ok () ↔
      tx.vin.length = 1 ∧ tx.vout.length = ys.length + (audit_payouts a).length := by
  obtain rfl := matured_stake_payouts_carrot_nil hpre hstake
  have h0 : height ≠ 0 := UInt64.pos_iff_ne_zero.mp (UInt64.lt_of_le_of_lt UInt64.zero_le hh)
  simp only [validate_protocol_transaction, if_neg h0, hcfg, UInt64.not_le.mpr hh, hstake, haudit, hv,
    bind, Except.bind, check_carrot_payouts, CHECK_AND_ASSERT_MES, pure, Except.pure, throw,
    throwThe, MonadExceptOf.throw, if_false, if_true]
  -- what is left are the two checks the Carrot branch keeps: one input, and the count
  by_cases hvin : tx.vin.length = 1 <;>
    by_cases hcount : tx.vout.length = ys.length + (audit_payouts a).length <;> simp [hvin, hcount]

/-- **The node rejects its own protocol transaction for two payouts with one return key.** When
the stakes matured at a Carrot height are exactly two, with equal return public keys, and no
audit matures, the template's protocol transaction is built (one shared `tx_pub_key`, as the
Carrot writer stores it for two equal ephemeral keys) and `validate_protocol_transaction`
rejects it: with two outputs it looks for additional keys, and there are none. -/
theorem validate_rejects_shared_return_pubkey {cv : ChainView} {height : UInt64}
    {major_version : UInt8} {cfg : config_t} {p₁ p₂ : yield_tx_info_carrot × UInt64}
    {a : Option (UInt64 × (String × String) × List (yield_tx_info × UInt64))}
    (txkey_pub : Crypto.public_key)
    (hcfg : get_config cv.m_nettype = .ok cfg) (hh : cfg.STAKE_LOCK_PERIOD < height)
    (hv : HF_VERSION_CARROT ≤ major_version)
    (hstake : cv.matured_stake_payouts height (height - cfg.STAKE_LOCK_PERIOD - 1) =
      .ok ([], [p₁, p₂]))
    (haudit : cv.matured_audit_payouts height = .ok a) (hnoaudit : audit_payouts a = [])
    (hkey : p₁.1.return_pubkey = p₂.1.return_pubkey) :
    ∃ tx, cv.create_block_template_protocol_tx height major_version txkey_pub = .ok tx ∧
      cv.validate_protocol_transaction tx height major_version =
        .error "Missing return pubkey detected in protocol_tx" := by
  set entries := [p₁, p₂].map
    (carrot_yield_entry (cv.m_hardfork.get_ideal_version (height - cfg.STAKE_LOCK_PERIOD - 1)))
  -- the builder: both entries are Carrot ones, so the Carrot path writes the transaction
  have hentries : cv.create_block_template_protocol_entries height = .ok entries := by
    rw [create_block_template_protocol_entries_eq hcfg hh hstake haudit,
      audit_entries_eq_nil hnoaudit]
    simp [entries]
  have htx : construct_protocol_tx height entries major_version txkey_pub =
      some (carrot_protocol_tx height entries) :=
    construct_protocol_tx_carrot txkey_pub (by simp [entries, carrot_yield_entry]) hv
      (by simp [entries])
  refine ⟨carrot_protocol_tx height entries, ?_, ?_⟩
  · simp [create_block_template_protocol_tx, hentries, htx, bind, Except.bind, pure, Except.pure]
  -- the check: two outputs, so it asks for additional keys, and the writer stored none
  have hshared : use_shared_ephemeral_pubkey (entries.map (·.to_enote height)) = true := by
    simp [use_shared_ephemeral_pubkey, entries, hkey, protocol_data_entry.to_enote,
      carrot_yield_entry]
  have hadd : get_additional_tx_pub_keys_from_extra (carrot_protocol_tx height entries).extra = [] := by
    rw [(carrot_protocol_tx_readers height entries).2]
    exact ((store_carrot_ephemeral_pubkeys_to_extra_readers _ _ rfl).1 hshared).2
  simp only [entries, List.map_cons, List.map_nil, carrot_yield_entry] at hadd
  have h0 : height ≠ 0 := UInt64.pos_iff_ne_zero.mp (UInt64.lt_of_le_of_lt UInt64.zero_le hh)
  simp [validate_protocol_transaction, h0, hcfg, UInt64.not_le.mpr hh, hstake, haudit, hnoaudit, hv,
    check_carrot_payouts, check_carrot_payout, hadd, entries, CHECK_AND_ASSERT_MES,
    get_output_public_key, carrot_yield_entry, bind, Except.bind, pure, Except.pure, throw, throwThe,
    MonadExceptOf.throw]

/-! ## Two testnet blocks after the Carrot fork

The testnet schedule puts the Carrot fork at height `1100` and locks stakes for `20` blocks.
Each chain below holds the yield-info cache of the last `21` blocks and the stake rows of its
matured height; no audit matures (the audit forks' matured heights fall at version `9`). -/

/-- A pre-Carrot stake of `100` made at height `1089`, before the fork. -/
def transitionStake : yield_tx_info where
  block_height := 1089
  tx_hash := ⟨Vector.replicate 32 0x11⟩
  locked_coins := 100
  return_address := ⟨Vector.replicate 32 0xAA⟩
  return_pubkey := ⟨Vector.replicate 32 0x55⟩

/-- The testnet chain at height `1110`: block `1110` matures the stake of height `1089`, and no
block it was locked over had slippage. -/
def testnetCarrotTransition : ChainView where
  m_nettype := .TESTNET
  m_hardfork := HardFork.testnet
  m_yield_block_info_cache h :=
    if 1089 ≤ h ∧ h ≤ 1109 then some ⟨h, 0, if h = 1089 then 100 else 0, 100, 100⟩ else none
  get_audit_block_info _ := none
  get_yield_tx_info h := if h = 1089 then [transitionStake] else []
  get_carrot_yield_tx_info _ := []
  get_audit_tx_info _ := []

/-- A protocol transaction for block `1110` whose one output pays `999` to a key that is not
the stake's return address. -/
def misdirectedProtocolTx : transaction :=
  { transaction.set_null with
    version := 2
    type := .PROTOCOL
    vin := [.txin_gen 1110]
    vout := [⟨999, txout_to_key ⟨Vector.replicate 32 0xBB⟩ "SAL1" CRYPTONOTE_MINED_MONEY_UNLOCK_WINDOW⟩]
    extra := [.tx_extra_pub_key ⟨Vector.replicate 32 0x01⟩,
      .tx_extra_additional_pub_keys [⟨Vector.replicate 32 0x55⟩]] }

theorem validate_accepts_misdirected_payout :
    testnetCarrotTransition.calculate_yield_payouts 1089 = .ok (some [(transitionStake, 100)]) ∧
      testnetCarrotTransition.prevalidate_protocol_transaction misdirectedProtocolTx 1110 10 = .ok () ∧
      testnetCarrotTransition.validate_protocol_transaction misdirectedProtocolTx 1110 10 = .ok () := by
  refine ⟨by decide, by decide, ?_⟩
  -- only the count is checked: one payout, one output
  exact (@validate_protocol_transaction_counts_only testnetCarrotTransition misdirectedProtocolTx 1110 10
    config_testnet [(transitionStake, 100)] [] none rfl (by decide) (by decide) (by decide)
    (by decide) (by decide)).mpr ⟨rfl, rfl⟩

/-- Two Carrot stakes of `100` made at height `1179`, with different return addresses and one
return public key. -/
def sharedKeyStake (return_address : Crypto.public_key) (tag : UInt8) : yield_tx_info_carrot where
  block_height := 1179
  tx_hash := ⟨Vector.replicate 32 tag⟩
  locked_coins := 100
  return_address := return_address
  return_pubkey := ⟨Vector.replicate 32 0xDD⟩
  return_view_tag := ⟨Vector.replicate 3 tag⟩
  return_anchor_enc := ⟨Vector.replicate 16 tag⟩

/-- The testnet chain at height `1200`: block `1200` matures the two stakes of height `1179`. -/
def testnetSharedReturnKey : ChainView where
  m_nettype := .TESTNET
  m_hardfork := HardFork.testnet
  m_yield_block_info_cache h :=
    if 1179 ≤ h ∧ h ≤ 1199 then some ⟨h, 0, if h = 1179 then 200 else 0, 200, 100⟩ else none
  get_audit_block_info _ := none
  get_yield_tx_info _ := []
  get_carrot_yield_tx_info h :=
    if h = 1179 then [sharedKeyStake ⟨Vector.replicate 32 0xA1⟩ 1, sharedKeyStake ⟨Vector.replicate 32 0xA2⟩ 2]
    else []
  get_audit_tx_info _ := []

/-- The protocol transaction the Carrot path builds for the two payouts. -/
def sharedKeyTemplateTx : transaction :=
  carrot_protocol_tx 1200 ([sharedKeyStake ⟨Vector.replicate 32 0xA1⟩ 1,
    sharedKeyStake ⟨Vector.replicate 32 0xA2⟩ 2].map fun s => carrot_yield_entry 10 (s, 100))

theorem template_protocol_tx_rejected :
    testnetSharedReturnKey.create_block_template_protocol_tx 1200 10 Crypto.null_pkey =
        .ok sharedKeyTemplateTx ∧
      testnetSharedReturnKey.prevalidate_protocol_transaction sharedKeyTemplateTx 1200 10 = .ok () ∧
      testnetSharedReturnKey.validate_protocol_transaction sharedKeyTemplateTx 1200 10 =
        .error "Missing return pubkey detected in protocol_tx" := by
  obtain ⟨tx, hbuild, hcheck⟩ := @validate_rejects_shared_return_pubkey testnetSharedReturnKey 1200 10
    config_testnet (sharedKeyStake ⟨Vector.replicate 32 0xA1⟩ 1, 100)
    (sharedKeyStake ⟨Vector.replicate 32 0xA2⟩ 2, 100) none Crypto.null_pkey rfl (by decide)
    (by decide) (by decide) (by decide) rfl rfl
  have htx : tx = sharedKeyTemplateTx := by
    have hrun : testnetSharedReturnKey.create_block_template_protocol_tx 1200 10 Crypto.null_pkey =
        .ok sharedKeyTemplateTx := by
      -- the entries are computed; the Carrot writer's bytes are then taken by its lemma
      have hentries : testnetSharedReturnKey.create_block_template_protocol_entries 1200 =
          .ok ([sharedKeyStake ⟨Vector.replicate 32 0xA1⟩ 1,
            sharedKeyStake ⟨Vector.replicate 32 0xA2⟩ 2].map fun s => carrot_yield_entry 10 (s, 100)) := by
        decide
      rw [create_block_template_protocol_tx, hentries]
      simp only [bind, Except.bind]
      rw [construct_protocol_tx_carrot _ (by simp [carrot_yield_entry]) (by decide) (by simp)]
      rfl
    exact Except.ok.inj (hbuild.symm.trans hrun)
  subst htx
  exact ⟨hbuild, by decide, hcheck⟩

end ChainView

end Coinbase

end Salvium
