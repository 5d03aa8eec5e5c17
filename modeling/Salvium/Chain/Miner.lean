import Mathlib
import Salvium.Chain.LongTermWeight
import Salvium.Difficulty
import Salvium.Chain.Protocol

/-!
# Salvium — the miner transaction: block reward, builder and block checks

A block's miner transaction claims the block reward (`get_block_reward`) plus the fees. From
the first Salvium fork on, a fifth of that sum is not paid out but burnt into the stakers' pot
(`amount_burnt`), and at the treasury heights of the Carrot era one extra output of
`TREASURY_SAL1_MINT_AMOUNT` pays the treasury, with keys fixed in the configuration.
`construct_miner_tx` builds the transaction, `prevalidate_miner_transaction` checks its form
and `validate_miner_transaction` its amounts.

The cryptography the builder calls — the Carrot enote derivation for the miner's address, the
legacy path's key derivation and the random transaction key and anchor — is not modelled: its
results are the fields of `MinerOutputKeys`, with whether the legacy path's
`generate_key_derivation` and `derive_public_key` returned `true`; the theorems that build on the
legacy path name that success as a hypothesis (`MinerOutputKeys.legacy_derives`).

`miner_tx_builder_validator_agree` proves that the two sides agree: the built transaction burns
`(reward + fee) / 5`, pays the rest to the miner, carries the treasury output exactly at the
treasury heights, and passes both checks. It needs the treasury heights to be Carrot heights:
the builder adds the treasury output on its Carrot path only, while the check looks for it at
every treasury height (`legacy_miner_tx_rejected_at_treasury_height`).
-/

namespace Salvium

namespace Coinbase

open RCTType txout_target_v

/-! ## Emission -/

def MONEY_SUPPLY : UInt64 := 18440000000000000
def EMISSION_SPEED_FACTOR_PER_MINUTE : UInt64 := 21
def FINAL_SUBSIDY_PER_MINUTE : UInt64 := 30000000
def DIFFICULTY_TARGET_V2 : UInt64 := 120
def PREMINE_AMOUNT : UInt64 := 2210000000000000
def TREASURY_SAL1_MINT_AMOUNT : UInt64 := 130000000000000
def HF_VERSION_BULLETPROOF_PLUS : UInt8 := 1
def HF_VERSION_VIEW_TAGS : UInt8 := 1

/-- `div128_64`, by its result: the 128-bit quotient of `(dividend_hi, dividend_lo)` by the
divisor, as `(quotient_hi, quotient_lo)`. -/
def div128_64 (dividend_hi dividend_lo divisor : UInt64) : UInt64 × UInt64 :=
  let quotient := (dividend_hi.toNat * 2 ^ 64 + dividend_lo.toNat) / divisor.toNat
  (UInt64.ofNat (quotient / 2 ^ 64), UInt64.ofNat quotient)

/-- `cryptonote::get_block_reward`; `none` is a block too heavy for the median. -/
def get_block_reward (median_weight current_block_weight already_generated_coins : UInt64)
    (version : UInt8) : Option UInt64 :=
  let target_minutes := DIFFICULTY_TARGET_V2 / 60
  let emission_speed_factor := EMISSION_SPEED_FACTOR_PER_MINUTE - (target_minutes - 1)
  let base_reward := (MONEY_SUPPLY - already_generated_coins) >>> emission_speed_factor
  let base_reward := if base_reward < FINAL_SUBSIDY_PER_MINUTE * target_minutes then
    FINAL_SUBSIDY_PER_MINUTE * target_minutes else base_reward
  let full_reward_zone := get_min_block_weight version
  -- the genesis block pays the premine
  if already_generated_coins = 0 then some PREMINE_AMOUNT
  else
    let median_weight := if median_weight < full_reward_zone then full_reward_zone else median_weight
    if current_block_weight ≤ median_weight then some base_reward
    else if current_block_weight > 2 * median_weight then none
    else
      -- the penalty: base_reward * (2M - W) * W / M / M in 128 bits
      let multiplicand := (2 * median_weight - current_block_weight) * current_block_weight
      let (product_lo, product_hi) := mul128 base_reward multiplicand
      let (reward_hi, reward_lo) := div128_64 product_hi product_lo median_weight
      let (_, reward_lo) := div128_64 reward_hi reward_lo median_weight
      some reward_lo

/-! ## The builder -/

/-- What `construct_miner_tx` takes from the cryptography it calls: the fields of the miner's
Carrot enote (`get_coinbase_output_proposal_v1` with a random anchor), and on the legacy path
the random transaction key, the derived one-time key and its view tag. -/
structure MinerOutputKeys where
  onetime_address : Crypto.public_key
  view_tag : Carrot.view_tag_t
  anchor_enc : Carrot.encrypted_janus_anchor_t
  enote_ephemeral_pubkey : Crypto.public_key
  txkey_pub : Crypto.public_key
  /-- `generate_key_derivation(miner view key, txkey.sec)` returned `true`; it fails for a view
  key that is not a curve point. -/
  generate_key_derivation_ok : Bool
  /-- `derive_public_key(derivation, 0, miner spend key)` returned `true`. -/
  derive_public_key_ok : Bool
  out_eph_public_key : Crypto.public_key
  legacy_view_tag : Crypto.view_tag

/-- The legacy path's key derivation succeeds. -/
def MinerOutputKeys.legacy_derives (keys : MinerOutputKeys) : Prop :=
  keys.generate_key_derivation_ok = true ∧ keys.derive_public_key_ok = true

/-- The treasury row of `TREASURY_SAL1_MINT_OUTPUT_DATA` for a height, if there is one. -/
def treasury_payout_data (cfg : config_t) (height : UInt64) :
    Option (String × String × String × String) :=
  cfg.TREASURY_SAL1_MINT_OUTPUT_DATA.lookup height

/-- The treasury enote `construct_miner_tx` decodes from a treasury row; each field that does
not decode throws. -/
def treasury_enote (height : UInt64) (data : String × String × String × String) :
    Except String CarrotCoinbaseEnoteV1 := do
  let (tx_public_key_str, onetime_address_str, anchor_enc_str, view_tag_str) := data
  let some tx_public_key := Crypto.hex_to_pod 32 tx_public_key_str
    | throw "fail to deserialize treasury tx public key"
  let some onetime_address := Crypto.hex_to_pod 32 onetime_address_str
    | throw "fail to deserialize treasury tx onetime address"
  let some anchor_enc := Crypto.hex_to_pod 16 anchor_enc_str
    | throw "fail to deserialize treasury tx anchor_enc"
  let some view_tag := Crypto.hex_to_pod 3 view_tag_str
    | throw "fail to deserialize treasury tx view_tag"
  pure {
    onetime_address := ⟨onetime_address⟩
    amount := TREASURY_SAL1_MINT_AMOUNT
    asset_type := "SAL1"
    view_tag := ⟨view_tag⟩
    anchor_enc := ⟨anchor_enc⟩
    block_index := height
    enote_ephemeral_pubkey := ⟨tx_public_key⟩ }

/-- The miner's Carrot enote for a payout of `amount`. -/
def miner_enote (height amount : UInt64) (keys : MinerOutputKeys) : CarrotCoinbaseEnoteV1 where
  onetime_address := keys.onetime_address
  amount := amount
  asset_type := "SAL1"
  view_tag := keys.view_tag
  anchor_enc := keys.anchor_enc
  block_index := height
  enote_ephemeral_pubkey := keys.enote_ephemeral_pubkey

/-- The enotes of the Carrot path: the miner's, and at a treasury height the treasury's, the two
swapped when the miner's one-time address is the greater. -/
def carrot_miner_enotes (height amount : UInt64) (keys : MinerOutputKeys)
    (treasury : Option (String × String × String × String)) :
    Except String (List CarrotCoinbaseEnoteV1) :=
  match treasury with
  | none => pure [miner_enote height amount keys]
  | some data => do
    let t ← treasury_enote height data
    -- sort enotes by K_o
    if t.onetime_address < (miner_enote height amount keys).onetime_address then
      pure [t, miner_enote height amount keys]
    else pure [miner_enote height amount keys, t]

/-- The legacy path: one key output for the miner, a fifth of the reward burnt for the stakers
(the genesis block pays the premine instead). The versions the source lists are
`HF_VERSION_BULLETPROOF_PLUS` to `HF_VERSION_CARROT`; for another version its `assert` is
compiled out and nothing is burnt. -/
def construct_legacy_miner_tx (height block_reward : UInt64) (keys : MinerOutputKeys)
    (extra_nonce : List UInt8) (max_outs : ℕ) (hard_fork_version : UInt8) :
    Except String transaction := do
  let extra := Blob.add_tx_pub_key_to_extra [] keys.txkey_pub
  let extra ← if extra_nonce.isEmpty then pure extra
    else match Blob.add_extra_nonce_to_tx_extra extra extra_nonce with
      | none => throw "extra nonce could be 255 bytes max"
      | some extra => pure extra
  -- `sort_tx_extra` parses the bytes again; the source returns `false` after its warning
  let some extra := Blob.sort_tx_extra extra false
    | throw "failed to deserialize extra field"
  CHECK_AND_ASSERT_MES (1 ≤ max_outs) "max_out must be non-zero"
  CHECK_AND_ASSERT_MES keys.generate_key_derivation_ok
    "while creating outs: failed to generate_key_derivation"
  CHECK_AND_ASSERT_MES keys.derive_public_key_ok "while creating outs: failed to derive_public_key"
  let use_view_tags := hard_fork_version ≥ HF_VERSION_VIEW_TAGS
  let (amount_burnt, out) :=
    if height ≠ 0 then
      let amount_burnt :=
        if HF_VERSION_BULLETPROOF_PLUS ≤ hard_fork_version ∧ hard_fork_version ≤ HF_VERSION_CARROT then
          block_reward / 5
        else 0
      let asset_type := if hard_fork_version ≥ HF_VERSION_SALVIUM_ONE_PROOFS then "SAL1" else "SAL"
      (amount_burnt, set_tx_out (block_reward - amount_burnt) asset_type
        CRYPTONOTE_MINED_MONEY_UNLOCK_WINDOW keys.out_eph_public_key use_view_tags keys.legacy_view_tag)
    else
      (0, set_tx_out PREMINE_AMOUNT "SAL" CRYPTONOTE_MINED_MONEY_UNLOCK_WINDOW keys.out_eph_public_key
        use_view_tags keys.legacy_view_tag)
  pure { transaction.set_null with
    type := .MINER
    extra := (Blob.parse_tx_extra extra).2
    amount_burnt := amount_burnt
    vout := [out]
    version := 2
    vin := [.txin_gen height.toNat] }

/-- `cryptonote::construct_miner_tx`. An exception of the Carrot path is caught and reported. -/
def construct_miner_tx (height median_weight already_generated_coins current_block_weight fee : UInt64)
    (keys : MinerOutputKeys) (nettype : network_type) (extra_nonce : List UInt8) (max_outs : ℕ)
    (hard_fork_version : UInt8) : Except String transaction := do
  let cfg ← get_config nettype
  let treasury := treasury_payout_data cfg height
  let some block_reward := get_block_reward median_weight current_block_weight
      already_generated_coins hard_fork_version
    | throw "Block is too big"
  let block_reward := block_reward + fee
  if hard_fork_version ≥ HF_VERSION_CARROT then
    let stake_reward := block_reward / 5
    let built := do
      let enotes ← carrot_miner_enotes height (block_reward - stake_reward) keys treasury
      store_carrot_to_coinbase_transaction_v1 enotes extra_nonce .MINER height
    match built with
    | .error e => throw ("Failed to construct Carrot coinbase transaction: " ++ e)
    | .ok tx => pure { tx with amount_burnt := stake_reward }
  else construct_legacy_miner_tx height block_reward keys extra_nonce max_outs hard_fork_version

/-! ## The block checks -/

/-- `are_transaction_output_pubkeys_sorted`: every output has a key, and the keys increase
strictly from `null_pkey`. The loop is a fold of `List.strictStep`, which carries the last key
and fails on an output without a key or with one not above the last. -/
def are_transaction_output_pubkeys_sorted (tx : transaction) : Bool :=
  (tx.vout.foldlM (List.strictStep get_output_public_key) Crypto.null_pkey).isSome

/-- `Blockchain::prevalidate_miner_transaction(b, height, hf_version)` for `b.miner_tx = tx`. -/
def prevalidate_miner_transaction (tx : transaction) (height : UInt64) (hf_version : UInt8) :
    Except String Unit := do
  CHECK_AND_ASSERT_MES (tx.vin.length = 1) "coinbase transaction in the block has no inputs"
  match tx.vin with
  | [.txin_gen gen_height] =>
    CHECK_AND_ASSERT_MES (tx.version > 1) "Invalid coinbase transaction version"
    if hf_version ≥ HF_VERSION_CARROT then
      CHECK_AND_ASSERT_MES (tx.version = TRANSACTION_VERSION_CARROT) "miner transaction has wrong version"
      CHECK_AND_ASSERT_MES (tx.type = .MINER) "miner transaction has wrong type"
    if hf_version ≥ HF_VERSION_REJECT_SIGS_IN_COINBASE ∧ tx.version ≥ 2 then
      CHECK_AND_ASSERT_MES (tx.rct_type = RCTTypeNull)
        "RingCT signatures not allowed in coinbase transactions"
    CHECK_AND_ASSERT_MES (gen_height = height.toNat)
      ("The miner transaction in block has invalid height: " ++ toString gen_height ++
        ", expected: " ++ toString height)
    CHECK_AND_ASSERT_MES (check_outs_overflow tx) "miner transaction has money overflow in block"
    CHECK_AND_ASSERT_MES (check_output_types tx hf_version)
      "miner transaction has invalid output type(s) in block"
    -- from Carrot, output keys must be sorted
    let tx_is_carrot := match tx.vout with
      | o :: _ => o.target.which = 4
      | [] => false
    if hf_version > HF_VERSION_CARROT ∨ tx_is_carrot = true then
      CHECK_AND_ASSERT_MES (are_transaction_output_pubkeys_sorted tx)
        "miner transaction outputs are not sorted in block"
  | _ => throw "coinbase transaction in the block has the wrong type"

/-- Whether an output is a Carrot output whose key prints as `onetime_address`. -/
def is_treasury_output (onetime_address : String) (o : tx_out) : Bool :=
  match o.target with
  | txout_to_carrot_v1 key .. => Crypto.pod_to_hex key.data = onetime_address
  | _ => false

/-- `Blockchain::validate_treasury_payout`: the index of the first Carrot output whose key is the
treasury's, once its amount and asset type are the treasury's. -/
def validate_treasury_payout (tx : transaction) (treasury_data : String × String × String × String) :
    Except String ℕ := do
  let (_, onetime_address, _, _) := treasury_data
  match tx.vout.findIdx? (is_treasury_output onetime_address) with
  | none => throw "Miner transaction does not contain treasury output"
  | some idx =>
    match tx.vout[idx]? with
    | none => throw "Miner transaction does not contain treasury output"
    | some output =>
      CHECK_AND_ASSERT_MES (output.amount = TREASURY_SAL1_MINT_AMOUNT)
        "Miner transaction contains treasury output with invalid amount"
      match output.target with
      | txout_to_carrot_v1 _ asset_type _ _ =>
        CHECK_AND_ASSERT_MES (asset_type = "SAL1")
          "Miner transaction contains treasury output with invalid asset_type"
        pure idx
      | _ => throw "Miner transaction contains treasury output with invalid target type"

/-- The sum, wrapping at `2^64`, of the output amounts other than the one at `skip`. -/
def money_in_use_of (vout : List tx_out) (skip : Option ℕ) : UInt64 :=
  ((vout.zipIdx.filter fun p => some p.2 ≠ skip).map (·.1.amount)).foldl (· + ·) 0

/-- The treasury step of `validate_miner_transaction`: at a treasury height, the index of the
treasury output, which must be valid. -/
def miner_tx_treasury_index (tx : transaction)
    (treasury : Option (String × String × String × String)) : Except String (Option ℕ) :=
  match treasury with
  | none => pure none
  | some data =>
    match validate_treasury_payout tx data with
    | .error _ => throw "Miner transaction treasury output was invalid"
    | .ok idx => pure (some idx)

/-- The money `validate_miner_transaction` counts: the outputs but the treasury's, and for the
versions `HF_VERSION_BULLETPROOF_PLUS` to `HF_VERSION_CARROT` the burnt stake share, which must be
a fifth of the total once coins exist. -/
def miner_tx_money_in_use (tx : transaction) (treasury_index : Option ℕ)
    (already_generated_coins : UInt64) (version : UInt8) : Except String UInt64 := do
  let money_in_use := money_in_use_of tx.vout treasury_index
  if HF_VERSION_BULLETPROOF_PLUS ≤ version ∧ version ≤ HF_VERSION_CARROT then
    let money_in_use ← if tx.amount_burnt > 0 then do
        CHECK_AND_ASSERT_MES (money_in_use + tx.amount_burnt > money_in_use)
          "miner transaction is overflowed by amount_burnt"
        pure (money_in_use + tx.amount_burnt)
      else pure money_in_use
    if already_generated_coins ≠ 0 then
      CHECK_AND_ASSERT_MES (money_in_use / 5 = tx.amount_burnt)
        "miner_transaction has incorrect amount_burnt amount"
    pure money_in_use
  else pure money_in_use

/-- `Blockchain::validate_miner_transaction(b, cumulative_block_weight, fee, base_reward,
already_generated_coins, partial_block_reward, version)` for `b.miner_tx = tx`, with the median
weight the source reads from `m_current_block_cumul_weight_median`; the result is
`base_reward`. -/
def validate_miner_transaction (nettype : network_type) (tx : transaction)
    (cumulative_block_weight fee already_generated_coins median_weight : UInt64) (version : UInt8) :
    Except String UInt64 := do
  let height ← match tx.vin with
    | .txin_gen h :: _ => pure (UInt64.ofNat h)
    | _ => throw "boost::bad_get: failed value get using boost::get"
  let cfg ← get_config nettype
  -- the treasury output, if any, is not part of the reward
  let treasury_index ← miner_tx_treasury_index tx (treasury_payout_data cfg height)
  let money_in_use ← miner_tx_money_in_use tx treasury_index already_generated_coins version
  let some base_reward := get_block_reward median_weight cumulative_block_weight
      already_generated_coins version
    | throw ("block weight " ++ toString cumulative_block_weight ++
        " is bigger than allowed for this blockchain")
  if base_reward + fee < money_in_use then throw "coinbase transaction spend too much money"
  if base_reward + fee ≠ money_in_use then
    throw "coinbase transaction doesn't use full amount of block reward"
  pure base_reward

/-! ## The treasury rows -/

/-- What a treasury row must satisfy for the miner transaction to be built and accepted: each
field decodes, and the one-time address is not null and prints back as the row's text. -/
def treasury_row_ok (data : String × String × String × String) : Bool :=
  (Crypto.hex_to_pod 32 data.1).isSome && (Crypto.hex_to_pod 16 data.2.2.1).isSome &&
    (Crypto.hex_to_pod 3 data.2.2.2).isSome &&
    match Crypto.hex_to_pod 32 data.2.1 with
    | some onetime_address =>
      Crypto.pod_to_hex onetime_address = data.2.1 && onetime_address ≠ Crypto.null_pkey.data
    | none => false

theorem config_mainnet_treasury_rows_ok :
    config_mainnet.TREASURY_SAL1_MINT_OUTPUT_DATA.all (fun row => treasury_row_ok row.2) = true := by
  decide +kernel

theorem config_testnet_treasury_rows_ok :
    config_testnet.TREASURY_SAL1_MINT_OUTPUT_DATA.all (fun row => treasury_row_ok row.2) = true := by
  decide +kernel

/-- Every treasury row of mainnet and testnet (and of the fake chain, which runs on the mainnet
configuration) is well formed. Stagenet's rows are not: their anchors and view tags are the
one-byte text "00". -/
theorem treasury_rows_ok {nettype : network_type} {cfg : config_t} {height : UInt64}
    {data : String × String × String × String} (hcfg : get_config nettype = .ok cfg)
    (hnet : nettype ≠ .STAGENET) (hdata : treasury_payout_data cfg height = some data) :
    treasury_row_ok data = true := by
  obtain ⟨l₁, l₂, hl, -⟩ := List.lookup_eq_some_iff.mp hdata
  have hmem : (height, data) ∈ cfg.TREASURY_SAL1_MINT_OUTPUT_DATA := by simp [hl]
  have hall : cfg.TREASURY_SAL1_MINT_OUTPUT_DATA.all (fun row => treasury_row_ok row.2) = true := by
    cases nettype with
    | MAINNET | FAKECHAIN =>
      obtain rfl : cfg = config_mainnet := by simpa [get_config] using hcfg.symm
      exact config_mainnet_treasury_rows_ok
    | TESTNET =>
      obtain rfl : cfg = config_testnet := by simpa [get_config] using hcfg.symm
      exact config_testnet_treasury_rows_ok
    | STAGENET => exact absurd rfl hnet
    | UNDEFINED => simp [get_config] at hcfg
  exact List.all_eq_true.mp hall (height, data) hmem

/-- A well-formed row decodes to a treasury enote that pays `TREASURY_SAL1_MINT_AMOUNT` of `SAL1`
to a non-null key printing as the row's text. -/
theorem treasury_enote_of_row_ok (height : UInt64) {data : String × String × String × String}
    (h : treasury_row_ok data = true) :
    ∃ t, treasury_enote height data = .ok t ∧ t.amount = TREASURY_SAL1_MINT_AMOUNT ∧
      t.asset_type = "SAL1" ∧ Crypto.pod_to_hex t.onetime_address.data = data.2.1 ∧
      t.onetime_address ≠ Crypto.null_pkey := by
  obtain ⟨tx_public_key_str, onetime_address_str, anchor_enc_str, view_tag_str⟩ := data
  simp only [treasury_row_ok, Bool.and_eq_true, Option.isSome_iff_exists] at h
  obtain ⟨⟨⟨⟨D_e, hD_e⟩, ⟨anchor, hanchor⟩⟩, ⟨tag, htag⟩⟩, hK⟩ := h
  cases hK_o : Crypto.hex_to_pod 32 onetime_address_str with
  | none => simp [hK_o] at hK
  | some K_o =>
    simp only [hK_o, Bool.and_eq_true, decide_eq_true_eq] at hK
    have hnull : (⟨K_o⟩ : Crypto.public_key) ≠ Crypto.null_pkey :=
      fun h => hK.2 (congrArg Crypto.public_key.data h)
    refine ⟨{ onetime_address := ⟨K_o⟩
              amount := TREASURY_SAL1_MINT_AMOUNT
              asset_type := "SAL1"
              view_tag := ⟨tag⟩
              anchor_enc := ⟨anchor⟩
              block_index := height
              enote_ephemeral_pubkey := ⟨D_e⟩ }, ?_, rfl, rfl, hK.1, hnull⟩
    simp [treasury_enote, hD_e, hK_o, hanchor, htag, pure, Except.pure]

/-! ## What the checks accept -/

/-- Adding `a` to `m` wraps exactly when the true sum reaches `2^64`. -/
theorem add_wraps_iff (a m : UInt64) : m > a + m ↔ 2 ^ 64 ≤ m.toNat + a.toNat := by
  rw [gt_iff_lt, UInt64.lt_iff_toNat_lt, UInt64.toNat_add]
  have ha := UInt64.toNat_lt a
  have hm := UInt64.toNat_lt m
  omega

/-- The fold of `check_outs_overflow` from a running total `money` succeeds exactly when the
total and the amounts sum below `2^64`. -/
theorem check_outs_overflow_fold_isSome_iff (vout : List tx_out) (money : UInt64) :
    (vout.foldlM (fun (money : UInt64) o =>
      if money > o.amount + money then none else some (money + o.amount)) money).isSome ↔
      money.toNat + (vout.map (·.amount.toNat)).sum < 2 ^ 64 := by
  induction vout generalizing money with
  | nil => simpa using UInt64.toNat_lt money
  | cons o vout ih =>
    by_cases hwrap : money > o.amount + money
    · -- the running total wraps at `o`
      have hge := (add_wraps_iff o.amount money).mp hwrap
      simp only [List.foldlM_cons, hwrap, if_true, Option.bind_eq_bind, Option.bind_none,
        Option.isSome_none, Bool.false_eq_true, false_iff, not_lt, List.map_cons, List.sum_cons]
      omega
    · have hlt := not_le.mp (mt (add_wraps_iff o.amount money).mpr hwrap)
      have hsum : (money + o.amount).toNat = money.toNat + o.amount.toNat := by
        rw [UInt64.toNat_add]
        exact Nat.mod_eq_of_lt hlt
      simp only [List.foldlM_cons, hwrap, if_false, Option.bind_eq_bind, Option.bind_some, ih,
        hsum, List.map_cons, List.sum_cons]
      omega

/-- `check_outs_overflow` accepts exactly the transactions whose amounts sum below `2^64`. -/
theorem check_outs_overflow_iff (tx : transaction) :
    check_outs_overflow tx = true ↔ (tx.vout.map (·.amount.toNat)).sum < 2 ^ 64 := by
  have h := check_outs_overflow_fold_isSome_iff tx.vout 0
  rw [UInt64.toNat_zero, Nat.zero_add] at h
  exact h

/-- The output a Carrot coinbase enote is stored as. -/
def carrot_enote_out (e : CarrotCoinbaseEnoteV1) : tx_out :=
  ⟨e.amount, txout_to_carrot_v1 e.onetime_address e.asset_type e.view_tag e.anchor_enc⟩

@[simp] theorem get_output_public_key_carrot_enote_out (e : CarrotCoinbaseEnoteV1) :
    get_output_public_key (carrot_enote_out e) = some e.onetime_address := rfl

theorem mapM_get_output_public_key_carrot (enotes : List CarrotCoinbaseEnoteV1) :
    (enotes.map carrot_enote_out).mapM get_output_public_key =
      some (enotes.map (·.onetime_address)) := by
  induction enotes with
  | nil => rfl
  | cons e enotes ih =>
    simp only [List.map_cons, List.mapM_cons, get_output_public_key_carrot_enote_out, ih]
    rfl

/-- The outputs of Carrot enotes pass the sortedness check exactly when their one-time addresses
increase strictly from the null key. -/
theorem are_transaction_output_pubkeys_sorted_carrot {tx : transaction}
    {enotes : List CarrotCoinbaseEnoteV1} (hvout : tx.vout = enotes.map carrot_enote_out) :
    are_transaction_output_pubkeys_sorted tx = true ↔
      (Crypto.null_pkey :: enotes.map (·.onetime_address)).IsChain (· < ·) := by
  rw [are_transaction_output_pubkeys_sorted, hvout, List.foldlM_strictStep_isSome_iff,
    mapM_get_output_public_key_carrot]
  simp

/-- From Carrot, a miner transaction of `SAL1` Carrot outputs passes `check_output_types`. -/
theorem check_output_types_carrot_miner {tx : transaction} {enotes : List CarrotCoinbaseEnoteV1}
    {hf_version : UInt8} (hv : HF_VERSION_CARROT ≤ hf_version) (htype : tx.type = .MINER)
    (hvout : tx.vout = enotes.map carrot_enote_out) (hasset : ∀ e ∈ enotes, e.asset_type = "SAL1") :
    check_output_types tx hf_version = true := by
  have hsal1 : ¬ hf_version < HF_VERSION_SALVIUM_ONE_PROOFS :=
    UInt8.not_lt.mpr (UInt8.le_trans (by decide) hv)
  unfold check_output_types
  rw [hvout]
  cases enotes with
  | nil => simp [htype]
  | cons e enotes =>
    simp only [htype, reduceCtorEq, or_self, false_and, if_false, List.map_cons, List.all_cons,
      List.all_map, Bool.and_eq_true, List.all_eq_true, Function.comp_apply]
    have hout : ∀ e' ∈ e :: enotes, output_type_ok tx hf_version (carrot_enote_out e')
        (carrot_enote_out e) = true ∧ output_asset_ok tx hf_version (carrot_enote_out e') = true := by
      intro e' he'
      simp [output_type_ok, output_asset_ok, get_output_asset_type, carrot_enote_out, hv, hsal1,
        htype, hasset e' he', txout_target_v.which]
    exact ⟨hout e (by simp), fun e' he' => hout e' (by simp [he'])⟩

/-- A Carrot miner transaction of `SAL1` outputs whose amounts sum below `2^64` and whose keys
increase from the null key passes `prevalidate_miner_transaction` from the Carrot fork on. -/
theorem prevalidate_carrot_miner_tx {tx : transaction} {height : UInt64} {v : UInt8}
    {enotes : List CarrotCoinbaseEnoteV1} (hv : HF_VERSION_CARROT ≤ v)
    (hvin : tx.vin = [.txin_gen height.toNat]) (hver : tx.version = TRANSACTION_VERSION_CARROT)
    (htype : tx.type = .MINER) (hrct : tx.rct_type = RCTTypeNull)
    (hvout : tx.vout = enotes.map carrot_enote_out) (hasset : ∀ e ∈ enotes, e.asset_type = "SAL1")
    (hsum : (enotes.map (·.amount.toNat)).sum < 2 ^ 64)
    (hsorted : (Crypto.null_pkey :: enotes.map (·.onetime_address)).IsChain (· < ·)) :
    prevalidate_miner_transaction tx height v = .ok () := by
  have hover : check_outs_overflow tx = true := by
    rw [check_outs_overflow_iff, hvout, List.map_map]
    exact hsum
  have htypes := check_output_types_carrot_miner hv htype hvout hasset
  have hsort := (are_transaction_output_pubkeys_sorted_carrot hvout).mpr hsorted
  have hrej : HF_VERSION_REJECT_SIGS_IN_COINBASE ≤ v := UInt8.le_trans (by decide) hv
  simp [prevalidate_miner_transaction, hvin, hver, htype, hrct, hover, htypes, hsort, hv, hrej,
    TRANSACTION_VERSION_CARROT, bind, Except.bind, pure, Except.pure]

/-! ## The reward split -/

theorem toNat_fifth (B : UInt64) : (B / 5).toNat = B.toNat / 5 := by
  simp [UInt64.toNat_div]

theorem fifth_le (B : UInt64) : B / 5 ≤ B := by
  rw [UInt64.le_iff_toNat_le, toNat_fifth]
  omega

theorem toNat_sub_fifth (B : UInt64) : (B - B / 5).toNat = B.toNat - B.toNat / 5 := by
  rw [UInt64.toNat_sub_of_le _ _ (fifth_le B), toNat_fifth]

/-- Adding the burnt fifth back to the payout does not wrap: the validator's overflow check on
`amount_burnt` passes. -/
theorem sub_fifth_lt (B : UInt64) (h : 0 < B / 5) : B - B / 5 < B - B / 5 + B / 5 := by
  rw [UInt64.sub_add_cancel, UInt64.lt_iff_toNat_lt, toNat_sub_fifth]
  rw [UInt64.lt_iff_toNat_lt, toNat_fifth] at h
  simp only [UInt64.toNat_zero] at h
  omega

/-- The miner's payout and the treasury's together stay below `2^64`. -/
theorem payout_add_treasury_lt (B : UInt64) :
    (B - B / 5).toNat + TREASURY_SAL1_MINT_AMOUNT.toNat < 2 ^ 64 := by
  rw [toNat_sub_fifth]
  have hB := UInt64.toNat_lt B
  simp only [TREASURY_SAL1_MINT_AMOUNT, UInt64.reduceToNat]
  omega

theorem money_in_use_of_none (vout : List tx_out) :
    money_in_use_of vout none = (vout.map (·.amount)).foldl (· + ·) 0 := by
  have hfst : (vout.zipIdx.map (·.1.amount)) = vout.map (·.amount) := by
    rw [show (fun p : tx_out × ℕ => p.1.amount) = (·.amount) ∘ Prod.fst from rfl, ← List.map_map,
      List.zipIdx_map_fst]
  simp only [money_in_use_of, ne_eq, reduceCtorEq, not_false_eq_true, decide_true,
    List.filter_true, hfst]

/-- When the outputs but the treasury's pay `B - B / 5` and `B / 5` is burnt, the validator counts
`B`, for every version from `HF_VERSION_BULLETPROOF_PLUS` to `HF_VERSION_CARROT`. -/
theorem miner_tx_money_in_use_split {tx : transaction} {idx : Option ℕ}
    {already_generated_coins B : UInt64} {v : UInt8}
    (hv : HF_VERSION_BULLETPROOF_PLUS ≤ v ∧ v ≤ HF_VERSION_CARROT)
    (hm : money_in_use_of tx.vout idx = B - B / 5) (hb : tx.amount_burnt = B / 5) :
    miner_tx_money_in_use tx idx already_generated_coins v = .ok B := by
  have hsum : B - B / 5 + B / 5 = B := UInt64.sub_add_cancel _ _
  unfold miner_tx_money_in_use
  rw [hm, hb, if_pos hv]
  by_cases hpos : B / 5 > 0
  · -- the burnt share is added back after the overflow check
    have hlt : B - B / 5 < B := by simpa [hsum] using sub_fifth_lt B hpos
    simp [hpos, hlt, hsum, bind, Except.bind, pure, Except.pure]
  · -- nothing is burnt: the payout is all of `B`
    have h0 : B / 5 = 0 := by
      rw [gt_iff_lt, UInt64.pos_iff_ne_zero, not_not] at hpos
      exact hpos
    simp [h0, bind, Except.bind, pure, Except.pure]

/-- `validate_miner_transaction` returns the block reward once the treasury step and the money
count pass and the counted money is the reward plus the fee. -/
theorem validate_miner_transaction_of_parts {nettype : network_type} {cfg : config_t}
    {tx : transaction} {height W fee g M R : UInt64} {idx : Option ℕ} {v : UInt8}
    (hvin : tx.vin = [.txin_gen height.toNat]) (hcfg : get_config nettype = .ok cfg)
    (hidx : miner_tx_treasury_index tx (treasury_payout_data cfg height) = .ok idx)
    (hmoney : miner_tx_money_in_use tx idx g v = .ok (R + fee))
    (hR : get_block_reward M W g v = some R) :
    validate_miner_transaction nettype tx W fee g M v = .ok R := by
  simp [validate_miner_transaction, hvin, hcfg, hidx, hmoney, hR, bind, Except.bind, pure,
    Except.pure]

/-- At a treasury height, the outputs of the miner's enote `m` and the treasury's enote `t`, in
either order, give the treasury's index, and what the validator counts is the miner's payout. -/
theorem miner_tx_treasury_index_pair {tx : transaction} {m t : CarrotCoinbaseEnoteV1}
    {enotes : List CarrotCoinbaseEnoteV1} {data : String × String × String × String}
    (hvout : tx.vout = enotes.map carrot_enote_out) (hord : enotes = [t, m] ∨ enotes = [m, t])
    (ht : Crypto.pod_to_hex t.onetime_address.data = data.2.1)
    (hm : Crypto.pod_to_hex m.onetime_address.data ≠ data.2.1)
    (hamount : t.amount = TREASURY_SAL1_MINT_AMOUNT) (hasset : t.asset_type = "SAL1") :
    ∃ idx, miner_tx_treasury_index tx (some data) = .ok idx ∧
      money_in_use_of tx.vout idx = m.amount := by
  obtain ⟨tx_key, onetime_address, anchor_enc, view_tag⟩ := data
  have hti : is_treasury_output onetime_address (carrot_enote_out t) = true := by
    simpa [is_treasury_output, carrot_enote_out] using ht
  have hmi : is_treasury_output onetime_address (carrot_enote_out m) = false := by
    simpa [is_treasury_output, carrot_enote_out] using hm
  -- the treasury output is the first the search finds, whichever side of the miner's it is
  rcases hord with rfl | rfl
  · refine ⟨some 0, ?_, ?_⟩
    · simp only [miner_tx_treasury_index, validate_treasury_payout, hvout, List.map_cons,
        List.map_nil, List.findIdx?_cons, hti, if_true]
      simp [carrot_enote_out, hamount, hasset, CHECK_AND_ASSERT_MES, bind, Except.bind, pure,
        Except.pure]
    · simp [hvout, money_in_use_of, carrot_enote_out, List.zipIdx]
  · refine ⟨some 1, ?_, ?_⟩
    · simp only [miner_tx_treasury_index, validate_treasury_payout, hvout, List.map_cons,
        List.map_nil, List.findIdx?_cons, hti, hmi, if_true, Bool.false_eq_true, if_false]
      simp [carrot_enote_out, hamount, hasset, CHECK_AND_ASSERT_MES, bind, Except.bind, pure,
        Except.pure]
    · simp [hvout, money_in_use_of, carrot_enote_out, List.zipIdx]

/-! ## What the builder produces -/

/-- The Carrot writer, for a miner transaction whose extra nonce fits: one `txin_gen` input at
the height, one output per enote, the Carrot version and no RingCT signatures. -/
theorem store_carrot_to_coinbase_transaction_v1_miner {enotes : List CarrotCoinbaseEnoteV1}
    (height : UInt64) {extra_nonce : List UInt8} (hlen : enotes.length < 2 ^ 64)
    (hn : extra_nonce.length < 0x80) :
    ∃ tx, store_carrot_to_coinbase_transaction_v1 enotes extra_nonce .MINER height = .ok tx ∧
      tx.vin = [.txin_gen height.toNat] ∧ tx.vout = enotes.map carrot_enote_out ∧
      tx.version = TRANSACTION_VERSION_CARROT ∧ tx.type = .MINER ∧ tx.rct_type = RCTTypeNull := by
  rw [store_carrot_to_coinbase_transaction_v1_eq height (Or.inl rfl) hlen hn]
  exact ⟨_, rfl, rfl, rfl, rfl, rfl, rfl⟩

/-- At a treasury height whose row decodes to `t`, the Carrot path orders the treasury's and the
miner's enotes by one-time address. -/
theorem carrot_miner_enotes_some {height amount : UInt64} {keys : MinerOutputKeys}
    {data : String × String × String × String} {t : CarrotCoinbaseEnoteV1}
    (ht : treasury_enote height data = .ok t) :
    carrot_miner_enotes height amount keys (some data) =
      .ok (if t.onetime_address < keys.onetime_address then [t, miner_enote height amount keys]
        else [miner_enote height amount keys, t]) := by
  by_cases hlt : t.onetime_address < keys.onetime_address <;>
    simp [carrot_miner_enotes, ht, miner_enote, hlt, bind, Except.bind, pure, Except.pure]

/-- The Carrot path of `construct_miner_tx`: the enotes stored as outputs, and a fifth of the
reward plus fee burnt. -/
theorem construct_miner_tx_carrot {height M g W fee R : UInt64} {keys : MinerOutputKeys}
    {nettype : network_type} {cfg : config_t} {extra_nonce : List UInt8} (max_outs : ℕ)
    {v : UInt8} {enotes : List CarrotCoinbaseEnoteV1}
    (hcfg : get_config nettype = .ok cfg) (hR : get_block_reward M W g v = some R)
    (hv : HF_VERSION_CARROT ≤ v) (hn : extra_nonce.length < 0x80)
    (he : carrot_miner_enotes height (R + fee - (R + fee) / 5) keys
      (treasury_payout_data cfg height) = .ok enotes) (hlen : enotes.length < 2 ^ 64) :
    ∃ tx, construct_miner_tx height M g W fee keys nettype extra_nonce max_outs v = .ok tx ∧
      tx.amount_burnt = (R + fee) / 5 ∧ tx.vin = [.txin_gen height.toNat] ∧
      tx.vout = enotes.map carrot_enote_out ∧ tx.version = TRANSACTION_VERSION_CARROT ∧
      tx.type = .MINER ∧ tx.rct_type = RCTTypeNull := by
  obtain ⟨tx, hs, hvin, hvout, hver, htype, hrct⟩ :=
    store_carrot_to_coinbase_transaction_v1_miner height hlen hn
  refine ⟨{ tx with amount_burnt := (R + fee) / 5 }, ?_, rfl, hvin, hvout, hver, htype, hrct⟩
  simp [construct_miner_tx, hcfg, hR, hv, he, hs, bind, Except.bind, pure, Except.pure]

@[simp] theorem set_tx_out_amount (amount : UInt64) (asset_type : String) (unlock_time : UInt64)
    (key : Crypto.public_key) (use_view_tags : Bool) (view_tag : Crypto.view_tag) :
    (set_tx_out amount asset_type unlock_time key use_view_tags view_tag).amount = amount := by
  unfold set_tx_out
  split <;> rfl

/-- A legacy output is never taken for the treasury's, which is a Carrot output. -/
@[simp] theorem is_treasury_output_set_tx_out (onetime_address : String) (amount : UInt64)
    (asset_type : String) (unlock_time : UInt64) (key : Crypto.public_key) (use_view_tags : Bool)
    (view_tag : Crypto.view_tag) :
    is_treasury_output onetime_address
      (set_tx_out amount asset_type unlock_time key use_view_tags view_tag) = false := by
  unfold set_tx_out
  split <;> rfl

/-- The legacy extra of the key alone sorts: the key is a field that round trips. -/
theorem sort_tx_extra_add_tx_pub_key (txkey_pub : Crypto.public_key) :
    ∃ sorted, Blob.sort_tx_extra (Blob.add_tx_pub_key_to_extra [] txkey_pub) false = some sorted := by
  have hw : write_tx_extra_fields [.tx_extra_pub_key txkey_pub] =
      some (Blob.add_tx_pub_key_to_extra [] txkey_pub) := by
    simp [write_tx_extra_fields, write_tx_extra_field, Blob.add_tx_pub_key_to_extra]
  obtain ⟨sorted, hsort, -⟩ := Blob.sort_tx_extra_parse (by simp [tx_extra_field.round_trips]) hw
  exact ⟨sorted, hsort⟩

/-- The legacy extra of the key and a nonce of under `0x80` bytes sorts: the nonce's length is
one varint byte, so both fields round trip. -/
theorem sort_tx_extra_add_extra_nonce (txkey_pub : Crypto.public_key) {extra_nonce : List UInt8}
    (hn : extra_nonce.length < 0x80) :
    ∃ extra sorted, Blob.add_extra_nonce_to_tx_extra (Blob.add_tx_pub_key_to_extra [] txkey_pub)
        extra_nonce = some extra ∧ Blob.sort_tx_extra extra false = some sorted := by
  have hmax : extra_nonce.length ≤ TX_EXTRA_NONCE_MAX_COUNT := by
    simp only [TX_EXTRA_NONCE_MAX_COUNT]
    omega
  obtain ⟨nb, hnb⟩ := Blob.exists_write_tx_extra_field
    (show (tx_extra_field.tx_extra_nonce extra_nonce).round_trips from hmax)
  have hpk : write_tx_extra_field (.tx_extra_pub_key txkey_pub) =
      some (TX_EXTRA_TAG_PUBKEY :: txkey_pub.data.toList) := rfl
  have hw : write_tx_extra_fields [.tx_extra_pub_key txkey_pub, .tx_extra_nonce extra_nonce] =
      some (Blob.add_tx_pub_key_to_extra [] txkey_pub ++ nb) := by
    simp [write_tx_extra_fields, hpk, hnb, Blob.add_tx_pub_key_to_extra]
  have hrt : ∀ f ∈ [tx_extra_field.tx_extra_pub_key txkey_pub, .tx_extra_nonce extra_nonce],
      f.round_trips := by
    simp [tx_extra_field.round_trips, hmax]
  obtain ⟨sorted, hsort, -⟩ := Blob.sort_tx_extra_parse hrt hw
  refine ⟨_, sorted, ?_, hsort⟩
  rw [Blob.add_extra_nonce_to_tx_extra_eq_write _ hn, hnb]
  rfl

/-- The legacy path of `construct_miner_tx` above the genesis block: one output paying all but
the burnt fifth of the reward plus fee. -/
theorem construct_miner_tx_legacy {height M g W R : UInt64} (keys : MinerOutputKeys) (fee : UInt64)
    {nettype : network_type} {cfg : config_t} {extra_nonce : List UInt8} {max_outs : ℕ}
    {v : UInt8} (hcfg : get_config nettype = .ok cfg) (hR : get_block_reward M W g v = some R)
    (hv : HF_VERSION_BULLETPROOF_PLUS ≤ v) (hvc : v < HF_VERSION_CARROT) (hh : height ≠ 0)
    (hn : extra_nonce.length < 0x80) (hmax : 1 ≤ max_outs) (hderive : keys.legacy_derives) :
    ∃ tx, construct_miner_tx height M g W fee keys nettype extra_nonce max_outs v = .ok tx ∧
      tx.amount_burnt = (R + fee) / 5 ∧ tx.vin = [.txin_gen height.toNat] ∧
      tx.vout.map (·.amount) = [R + fee - (R + fee) / 5] ∧
      ∀ o ∈ tx.vout, ∀ onetime_address, is_treasury_output onetime_address o = false := by
  have hnc : ¬ HF_VERSION_CARROT ≤ v := UInt8.not_le.mpr hvc
  have hburn : HF_VERSION_BULLETPROOF_PLUS ≤ v ∧ v ≤ HF_VERSION_CARROT := ⟨hv, UInt8.le_of_lt hvc⟩
  obtain ⟨hgen, hder⟩ := hderive
  -- the extra nonce is added only when there is one
  cases hnonce : extra_nonce.isEmpty
  · obtain ⟨extra, sorted, hadd, hsort⟩ := sort_tx_extra_add_extra_nonce keys.txkey_pub hn
    simp [construct_miner_tx, construct_legacy_miner_tx, hcfg, hR, hnc, hburn, hh, hnonce, hadd,
      hsort, hmax, hgen, hder, CHECK_AND_ASSERT_MES, bind, Except.bind, pure, Except.pure]
  · obtain ⟨sorted, hsort⟩ := sort_tx_extra_add_tx_pub_key keys.txkey_pub
    simp [construct_miner_tx, construct_legacy_miner_tx, hcfg, hR, hnc, hburn, hh, hnonce, hsort,
      hmax, hgen, hder, CHECK_AND_ASSERT_MES, bind, Except.bind, pure, Except.pure]

/-! ## Builder and checks agree -/

/-- Keys for the miner's output of a block template; any would do. -/
def sampleMinerKeys : MinerOutputKeys where
  onetime_address := ⟨Vector.replicate 32 0x55⟩
  view_tag := ⟨Vector.replicate 3 1⟩
  anchor_enc := ⟨Vector.replicate 16 2⟩
  enote_ephemeral_pubkey := ⟨Vector.replicate 32 7⟩
  txkey_pub := ⟨Vector.replicate 32 8⟩
  generate_key_derivation_ok := true
  derive_public_key_ok := true
  out_eph_public_key := ⟨Vector.replicate 32 9⟩
  legacy_view_tag := ⟨3⟩


section agree

variable {nettype : network_type} {cfg : config_t} {height M g W fee R : UInt64}
  {keys : MinerOutputKeys} {extra_nonce : List UInt8} {max_outs : ℕ} {v : UInt8}

/-- The Carrot path agrees with both checks, with or without a treasury output. -/
theorem carrot_miner_tx_agree (hcfg : get_config nettype = .ok cfg)
    (hnet : nettype ≠ .STAGENET) (hv : HF_VERSION_CARROT ≤ v) (hvmax : v ≤ HF_VERSION_CARROT)
    (hR : get_block_reward M W g v = some R) (hn : extra_nonce.length < 0x80)
    (hnull : keys.onetime_address ≠ Crypto.null_pkey)
    (hdistinct : ∀ data, treasury_payout_data cfg height = some data →
      Crypto.pod_to_hex keys.onetime_address.data ≠ data.2.1) :
    ∃ tx, construct_miner_tx height M g W fee keys nettype extra_nonce max_outs v = .ok tx ∧
      tx.amount_burnt = (R + fee) / 5 ∧
      List.Perm (tx.vout.map (·.amount)) ((R + fee - (R + fee) / 5) ::
        (if (treasury_payout_data cfg height).isSome then [TREASURY_SAL1_MINT_AMOUNT] else [])) ∧
      validate_miner_transaction nettype tx W fee g M v = .ok R ∧
      prevalidate_miner_transaction tx height v = .ok () := by
  have hsplit : HF_VERSION_BULLETPROOF_PLUS ≤ v ∧ v ≤ HF_VERSION_CARROT :=
    ⟨UInt8.le_trans (by decide) hv, hvmax⟩
  set B := R + fee
  set m := miner_enote height (B - B / 5) keys with hm
  cases htr : treasury_payout_data cfg height with
  | none =>
    -- one output, the miner's
    have he : carrot_miner_enotes height (B - B / 5) keys (treasury_payout_data cfg height) =
        .ok [m] := by rw [htr]; rfl
    obtain ⟨tx, hb, hburn, hvin, hvout, hver, htype, hrct⟩ :=
      construct_miner_tx_carrot max_outs hcfg hR hv hn he (by simp)
    have hmoney : money_in_use_of tx.vout none = B - B / 5 := by
      simp [hvout, money_in_use_of_none, carrot_enote_out, m, miner_enote]
    have hsum : ([m].map (·.amount.toNat)).sum < 2 ^ 64 := by
      simpa [hm, miner_enote] using UInt64.toNat_lt (B - B / 5)
    refine ⟨tx, hb, hburn, by simp [hvout, carrot_enote_out, m, miner_enote],
      validate_miner_transaction_of_parts hvin hcfg (by rw [htr]; rfl)
        (miner_tx_money_in_use_split hsplit hmoney hburn) hR,
      prevalidate_carrot_miner_tx hv hvin hver htype hrct hvout (by simp [m, miner_enote]) hsum
        (by simpa [m, miner_enote] using Crypto.null_pkey_lt hnull)⟩
  | some data =>
    obtain ⟨t, ht, hamount, hasset, hhex, htnull⟩ :=
      treasury_enote_of_row_ok height (treasury_rows_ok hcfg hnet htr)
    have hmhex : Crypto.pod_to_hex m.onetime_address.data ≠ data.2.1 := hdistinct data htr
    have hne : m.onetime_address ≠ t.onetime_address := fun h => hmhex (h ▸ hhex)
    -- the builder orders the two enotes by one-time address; the order is strict as they differ
    set enotes := if t.onetime_address < m.onetime_address then [t, m] else [m, t] with henotes
    have hord : enotes = [t, m] ∨ enotes = [m, t] := by
      by_cases hlt : t.onetime_address < m.onetime_address <;> simp [henotes, hlt]
    have hsorted : (Crypto.null_pkey :: enotes.map (·.onetime_address)).IsChain (· < ·) := by
      by_cases hlt : t.onetime_address < m.onetime_address
      · simp [henotes, hlt, Crypto.null_pkey_lt htnull]
      · have hgt := (Crypto.public_key.lt_or_gt_of_ne hne).resolve_right hlt
        simp [henotes, hlt, hgt, Crypto.null_pkey_lt (show m.onetime_address ≠ _ from hnull)]
    have he : carrot_miner_enotes height (B - B / 5) keys (treasury_payout_data cfg height) =
        .ok enotes := by rw [htr]; exact carrot_miner_enotes_some ht
    obtain ⟨tx, hb, hburn, hvin, hvout, hver, htype, hrct⟩ :=
      construct_miner_tx_carrot max_outs hcfg hR hv hn he (by rcases hord with h | h <;> simp [h])
    obtain ⟨idx, hidx, hmoney⟩ :=
      miner_tx_treasury_index_pair hvout hord hhex hmhex hamount hasset
    have hasset' : ∀ e ∈ enotes, e.asset_type = "SAL1" := by
      rcases hord with h | h <;> simp [h, hasset, m, miner_enote]
    have hsum : (enotes.map (·.amount.toNat)).sum < 2 ^ 64 := by
      have hlt := payout_add_treasury_lt B
      rcases hord with h | h <;> simp only [h, List.map_cons, List.map_nil, List.sum_cons,
        List.sum_nil, hamount, m, miner_enote] <;> omega
    have hperm : List.Perm (tx.vout.map (·.amount)) [B - B / 5, TREASURY_SAL1_MINT_AMOUNT] := by
      rw [hvout, List.map_map]
      rcases hord with h | h <;> rw [h]
      · simpa [carrot_enote_out, hamount, m, miner_enote] using
          List.Perm.swap (B - B / 5) TREASURY_SAL1_MINT_AMOUNT []
      · simp [carrot_enote_out, hamount, m, miner_enote]
    refine ⟨tx, hb, hburn, by simpa using hperm,
      validate_miner_transaction_of_parts hvin hcfg (by rw [htr]; exact hidx)
        (miner_tx_money_in_use_split hsplit hmoney hburn) hR,
      prevalidate_carrot_miner_tx hv hvin hver htype hrct hvout hasset' hsum hsorted⟩

/-- Below the Carrot fork, away from the treasury heights, the legacy path agrees with the
validator. -/
theorem legacy_miner_tx_agree (hcfg : get_config nettype = .ok cfg)
    (hv : HF_VERSION_BULLETPROOF_PLUS ≤ v) (hvc : v < HF_VERSION_CARROT) (hh : height ≠ 0)
    (hR : get_block_reward M W g v = some R) (hn : extra_nonce.length < 0x80)
    (hmax : 1 ≤ max_outs) (hderive : keys.legacy_derives)
    (htr : treasury_payout_data cfg height = none) :
    ∃ tx, construct_miner_tx height M g W fee keys nettype extra_nonce max_outs v = .ok tx ∧
      tx.amount_burnt = (R + fee) / 5 ∧ tx.vout.map (·.amount) = [R + fee - (R + fee) / 5] ∧
      validate_miner_transaction nettype tx W fee g M v = .ok R := by
  obtain ⟨tx, hb, hburn, hvin, hamounts, -⟩ :=
    construct_miner_tx_legacy keys fee hcfg hR hv hvc hh hn hmax hderive
  have hmoney : money_in_use_of tx.vout none = R + fee - (R + fee) / 5 := by
    simp [money_in_use_of_none, hamounts]
  exact ⟨tx, hb, hburn, hamounts, validate_miner_transaction_of_parts hvin hcfg
    (by rw [htr]; rfl) (miner_tx_money_in_use_split ⟨hv, UInt8.le_of_lt hvc⟩ hmoney hburn) hR⟩

/-- The miner transaction `construct_miner_tx` builds burns a fifth of the reward plus the fee,
pays the rest to the miner and, at a treasury height, `TREASURY_SAL1_MINT_AMOUNT` to the treasury;
`validate_miner_transaction` accepts it with the reward, and from the Carrot fork on so does
`prevalidate_miner_transaction`. This needs the treasury heights to be Carrot heights (as they are
on mainnet and testnet, not on stagenet, whose rows are malformed as well), the miner's one-time
address to be neither null nor the treasury's, and below Carrot the legacy key derivation to
succeed. -/
theorem miner_tx_builder_validator_agree (hcfg : get_config nettype = .ok cfg)
    (hnet : nettype ≠ .STAGENET) (hh : height ≠ 0)
    (hv : HF_VERSION_BULLETPROOF_PLUS ≤ v ∧ v ≤ HF_VERSION_CARROT)
    (hR : get_block_reward M W g v = some R) (hn : extra_nonce.length < 0x80)
    (hmax : 1 ≤ max_outs)
    (htreasury : (treasury_payout_data cfg height).isSome → HF_VERSION_CARROT ≤ v)
    (hnull : keys.onetime_address ≠ Crypto.null_pkey)
    (hdistinct : ∀ data, treasury_payout_data cfg height = some data →
      Crypto.pod_to_hex keys.onetime_address.data ≠ data.2.1)
    (hderive : v < HF_VERSION_CARROT → keys.legacy_derives) :
    ∃ tx, construct_miner_tx height M g W fee keys nettype extra_nonce max_outs v = .ok tx ∧
      tx.amount_burnt = (R + fee) / 5 ∧
      List.Perm (tx.vout.map (·.amount)) ((R + fee - (R + fee) / 5) ::
        (if (treasury_payout_data cfg height).isSome then [TREASURY_SAL1_MINT_AMOUNT] else [])) ∧
      validate_miner_transaction nettype tx W fee g M v = .ok R ∧
      (HF_VERSION_CARROT ≤ v → prevalidate_miner_transaction tx height v = .ok ()) := by
  by_cases hvc : HF_VERSION_CARROT ≤ v
  · exact (carrot_miner_tx_agree hcfg hnet hvc hv.2 hR hn hnull hdistinct).imp
      fun _ ⟨hb, hburn, hperm, hval, hpre⟩ => ⟨hb, hburn, hperm, hval, fun _ => hpre⟩
  · -- below Carrot the treasury heights are excluded
    have htr : treasury_payout_data cfg height = none :=
      Option.not_isSome_iff_eq_none.mp (mt htreasury hvc)
    exact (legacy_miner_tx_agree hcfg hv.1 (UInt8.not_le.mp hvc) hh hR hn hmax
      (hderive (UInt8.not_le.mp hvc)) htr).imp
      fun _ ⟨hb, hburn, hamounts, hval⟩ =>
        ⟨hb, hburn, by simp [hamounts, htr], hval, fun h => absurd h hvc⟩

/-- At testnet's first treasury height, the first Carrot block. -/
theorem miner_tx_builder_validator_agree_testnet : ∃ tx, construct_miner_tx 1100 300000 1000000000000000 1000 17 sampleMinerKeys .TESTNET []
      1 10 = .ok tx ∧
    validate_miner_transaction .TESTNET tx 1000 17 1000000000000000 300000 10 = .ok 16632080078 ∧
    prevalidate_miner_transaction tx 1100 10 = .ok () :=
  (miner_tx_builder_validator_agree (R := 16632080078) rfl (by decide) (by decide) (by decide)
    (by decide) (by decide) (by decide) (fun _ => by decide) (by decide)
    (fun data h => by
      simp [treasury_payout_data, config_testnet] at h
      subst h
      decide) (fun hlt => absurd hlt (by decide))).imp
    fun _ h => ⟨h.1, h.2.2.2.1, h.2.2.2.2 (by decide)⟩

/-- At a treasury height whose row the search cannot find, the treasury step fails. -/
theorem miner_tx_treasury_index_missing {tx : transaction}
    {data : String × String × String × String}
    (h : ∀ o ∈ tx.vout, is_treasury_output data.2.1 o = false) :
    miner_tx_treasury_index tx (some data) = .error "Miner transaction treasury output was invalid" := by
  obtain ⟨tx_key, onetime_address, anchor_enc, view_tag⟩ := data
  have hnone : tx.vout.findIdx? (is_treasury_output onetime_address) = none :=
    List.findIdx?_eq_none_iff.mpr fun o ho => by simpa using h o ho
  simp [miner_tx_treasury_index, validate_treasury_payout, hnone, throw, throwThe,
    MonadExceptOf.throw]

/-- Below the Carrot fork the builder adds no treasury output, so at a treasury height the
validator rejects the transaction it built. -/
theorem legacy_miner_tx_rejected_at_treasury_height (hcfg : get_config nettype = .ok cfg)
    (hv : HF_VERSION_BULLETPROOF_PLUS ≤ v) (hvc : v < HF_VERSION_CARROT) (hh : height ≠ 0)
    (hR : get_block_reward M W g v = some R) (hn : extra_nonce.length < 0x80)
    (hmax : 1 ≤ max_outs) (hderive : keys.legacy_derives)
    (htr : (treasury_payout_data cfg height).isSome) :
    ∃ tx, construct_miner_tx height M g W fee keys nettype extra_nonce max_outs v = .ok tx ∧
      validate_miner_transaction nettype tx W fee g M v =
        .error "Miner transaction treasury output was invalid" := by
  obtain ⟨tx, hb, -, hvin, -, hout⟩ :=
    construct_miner_tx_legacy keys fee hcfg hR hv hvc hh hn hmax hderive
  obtain ⟨data, hdata⟩ := Option.isSome_iff_exists.mp htr
  have hidx : miner_tx_treasury_index tx (some data) =
      .error "Miner transaction treasury output was invalid" :=
    miner_tx_treasury_index_missing fun o ho => hout o ho data.2.1
  refine ⟨tx, hb, ?_⟩
  simp [validate_miner_transaction, hvin, hcfg, hdata, hidx, bind, Except.bind, pure, Except.pure]

end agree

/-- Stagenet's schedule never leaves version `1`, and its first treasury height is `1000000`:
the block template's miner transaction there is rejected by the node's own check. -/
theorem stagenet_treasury_miner_tx_rejected :
    ∃ tx, construct_miner_tx 1000000 300000 1000000000000000 1000 17 sampleMinerKeys .STAGENET []
        1 1 = .ok tx ∧
      validate_miner_transaction .STAGENET tx 1000 17 1000000000000000 300000 1 =
        .error "Miner transaction treasury output was invalid" :=
  legacy_miner_tx_rejected_at_treasury_height (R := 16632080078) rfl (by decide) (by decide)
    (by decide) (by decide) (by decide) (by decide) ⟨rfl, rfl⟩ (by decide)

end Coinbase

end Salvium
