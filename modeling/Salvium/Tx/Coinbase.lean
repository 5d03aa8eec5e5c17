import Mathlib
import Salvium.Carrot.Format
import Salvium.Config
import Salvium.Tx.Extra
import Salvium.Tx.Weight

/-!
# Salvium — coinbase transactions and the protocol-transaction builder

Every block carries two coinbase transactions: the miner transaction and the protocol
transaction, which pays out matured stakes (yield) and audits. This module keeps what the
coinbase code reads and writes of a `cryptonote::transaction` — version, unlock time, inputs,
outputs, the parsed `extra`, the transaction type, `amount_burnt` and the RingCT type — the
output accessors of `cryptonote_format_utils.cpp`, the output checks that
`prevalidate_protocol_transaction` applies, and the builder `construct_protocol_tx` with the
Carrot coinbase writer it calls.

The builder has two paths. Carrot entries (and an empty payout list from the Carrot fork on)
become `txout_to_carrot_v1` outputs written by `store_carrot_to_coinbase_transaction_v1`, which
stores the entries' ephemeral keys through `store_carrot_ephemeral_pubkeys_to_extra`: one shared
`tx_pub_key` when there is one output, or two outputs with the same key, and an
additional-keys field otherwise. `store_carrot_ephemeral_pubkeys_to_extra_readers` says which
of the two lookups finds the keys afterwards. Legacy entries become `txout_to_key` outputs
with a fresh transaction key (the builder's random `keypair::generate`, a parameter here) and
one additional key per output.
-/

namespace Salvium

namespace Coinbase

open RCTType

/-! ## Outputs -/

/-- `cryptonote::txout_target_v`. -/
inductive txout_target_v where
  | txout_to_script (keys : List Crypto.public_key) (script : List UInt8)
  | txout_to_scripthash (hash : Crypto.Hash)
  | txout_to_key (key : Crypto.public_key) (asset_type : String) (unlock_time : UInt64)
  | txout_to_tagged_key (key : Crypto.public_key) (asset_type : String) (unlock_time : UInt64)
      (view_tag : Crypto.view_tag)
  | txout_to_carrot_v1 (key : Crypto.public_key) (asset_type : String)
      (view_tag : Carrot.view_tag_t) (encrypted_janus_anchor : Carrot.encrypted_janus_anchor_t)
  deriving DecidableEq, Repr

/-- The variant index of a target: `target.type()`, all that `check_output_types` compares. -/
def txout_target_v.which : txout_target_v → ℕ
  | .txout_to_script .. => 0
  | .txout_to_scripthash .. => 1
  | .txout_to_key .. => 2
  | .txout_to_tagged_key .. => 3
  | .txout_to_carrot_v1 .. => 4

/-- `cryptonote::tx_out`. -/
structure tx_out where
  amount : UInt64
  target : txout_target_v
  deriving DecidableEq, Repr

open txout_target_v

/-- `get_output_public_key`: fails on a script target. -/
def get_output_public_key (out : tx_out) : Option Crypto.public_key :=
  match out.target with
  | txout_to_key key .. | txout_to_tagged_key key .. | txout_to_carrot_v1 key .. => some key
  | _ => none

/-- `get_output_asset_type`: fails on a script target. -/
def get_output_asset_type (out : tx_out) : Option String :=
  match out.target with
  | txout_to_key _ asset_type _ | txout_to_tagged_key _ asset_type _ _
  | txout_to_carrot_v1 _ asset_type _ _ => some asset_type
  | _ => none

/-- `get_output_unlock_time`: a Carrot output has none and reads as `0`. -/
def get_output_unlock_time (out : tx_out) : Option UInt64 :=
  match out.target with
  | txout_to_key _ _ unlock_time | txout_to_tagged_key _ _ unlock_time _ => some unlock_time
  | txout_to_carrot_v1 .. => some 0
  | _ => none

/-- `set_tx_out`: a tagged output when view tags are in use, a plain key output otherwise. -/
def set_tx_out (amount : UInt64) (asset_type : String) (unlock_time : UInt64)
    (output_public_key : Crypto.public_key) (use_view_tags : Bool) (view_tag : Crypto.view_tag) :
    tx_out :=
  if use_view_tags then ⟨amount, txout_to_tagged_key output_public_key asset_type unlock_time view_tag⟩
  else ⟨amount, txout_to_key output_public_key asset_type unlock_time⟩

/-! ## Transactions -/

/-- What the coinbase code reads and writes of a `cryptonote::transaction`. `rct_type` is
`rct_signatures.type`; the prefix fields of user transactions (return addresses, asset types,
slippage) are never set on a coinbase transaction and are left out. -/
structure transaction where
  version : ℕ
  unlock_time : UInt64
  vin : List txin_v
  vout : List tx_out
  extra : List tx_extra_field
  type : transaction_type
  amount_burnt : UInt64
  rct_type : RCTType
  deriving DecidableEq, Repr

/-- `transaction::set_null`. -/
def transaction.set_null : transaction where
  version := 1
  unlock_time := 0
  vin := []
  vout := []
  extra := []
  type := .UNSET
  amount_burnt := 0
  rct_type := RCTTypeNull

/-- `check_outs_overflow`: the running total of the output amounts never wraps. -/
def check_outs_overflow (tx : transaction) : Bool :=
  (tx.vout.foldlM (fun (money : UInt64) o =>
    if money > o.amount + money then none else some (money + o.amount)) 0).isSome

/-- The variant check of `check_output_types` for one output, against the first output. -/
def output_type_ok (tx : transaction) (hf_version : UInt8) (o first : tx_out) : Bool :=
  if hf_version ≥ HF_VERSION_CARROT then
    if tx.type ≠ .PROTOCOL then o.target.which = 4
    else (o.target.which = 2 ∨ o.target.which = 3 ∨ o.target.which = 4) ∧
      o.target.which = first.target.which
  else (o.target.which = 2 ∨ o.target.which = 3) ∧ o.target.which = first.target.which

/-- The asset check of `check_output_types` for one output. -/
def output_asset_ok (tx : transaction) (hf_version : UInt8) (o : tx_out) : Bool :=
  match get_output_asset_type o with
  | none => false
  | some asset_type =>
    if hf_version < HF_VERSION_SALVIUM_ONE_PROOFS then asset_type = "SAL"
    else if tx.type = .AUDIT then asset_type = "SAL"
    else if tx.type = .PROTOCOL then
      if hf_version < HF_VERSION_AUDIT1_PAUSE then asset_type = "SAL1" ∨ asset_type = "SAL"
      else asset_type = "SAL1"
    else asset_type = "SAL1"

/-- `check_output_types`. -/
def check_output_types (tx : transaction) (hf_version : UInt8) : Bool :=
  if (tx.type = .AUDIT ∨ tx.type = .STAKE) ∧ tx.vout.length ≠ 1 then false
  else match tx.vout with
    | [] => true
    | first :: _ => tx.vout.all fun o =>
        output_type_ok tx hf_version o first && output_asset_ok tx hf_version o

/-! ## The Carrot coinbase writer -/

/-- `carrot::CarrotCoinbaseEnoteV1`. The ephemeral key is an X25519 point, stored in the same
32 bytes as a `crypto::public_key`. -/
structure CarrotCoinbaseEnoteV1 where
  onetime_address : Crypto.public_key
  amount : UInt64
  asset_type : String
  view_tag : Carrot.view_tag_t
  anchor_enc : Carrot.encrypted_janus_anchor_t
  block_index : UInt64
  enote_ephemeral_pubkey : Crypto.public_key
  deriving DecidableEq, Repr

/-- Whether `store_carrot_ephemeral_pubkeys_to_extra` stores one shared key: one output, or
two whose ephemeral keys are equal. -/
def use_shared_ephemeral_pubkey (enotes : List CarrotCoinbaseEnoteV1) : Bool :=
  enotes.length = 1 ∨ (enotes.length = 2 ∧
    (enotes.head?.map (·.enote_ephemeral_pubkey)) = (enotes.getLast?.map (·.enote_ephemeral_pubkey)))

/-- `store_carrot_ephemeral_pubkeys_to_extra`: nothing for no outputs, the first key as the
`tx_pub_key` when it is shared, all the keys as additional keys otherwise. -/
def store_carrot_ephemeral_pubkeys_to_extra (enotes : List CarrotCoinbaseEnoteV1)
    (extra_inout : List tx_extra_field) : List tx_extra_field :=
  match enotes with
  | [] => extra_inout
  | e :: _ =>
    if use_shared_ephemeral_pubkey enotes then add_tx_pub_key_to_extra extra_inout e.enote_ephemeral_pubkey
    else add_additional_tx_pub_keys_to_extra extra_inout (enotes.map (·.enote_ephemeral_pubkey))

/-- `store_carrot_to_coinbase_transaction_v1`. The extra is written as bytes, and
`sort_tx_extra` parses them again; the transaction keeps the fields its sorted bytes parse to. -/
def store_carrot_to_coinbase_transaction_v1 (enotes : List CarrotCoinbaseEnoteV1)
    (extra_nonce : List UInt8) (tx_type : transaction_type) (block_index : UInt64) :
    Except String transaction := do
  if ¬(tx_type = .MINER ∨ tx_type = .PROTOCOL) then
    throw "invalid tx_type : is not MINER or PROTOCOL"
  let extra ← Carrot.store_carrot_ephemeral_pubkeys_to_extra (·.enote_ephemeral_pubkey) enotes []
  let some extra := Blob.add_extra_nonce_to_tx_extra extra extra_nonce
    | throw "store_carrot_to_coinbase_transaction_v1: failed to add extra nonce to tx_extra"
  let some extra := Blob.sort_tx_extra extra false
    | throw "store_carrot_to_coinbase_transaction_v1: failed to sort tx_extra"
  pure { transaction.set_null with
    type := tx_type
    version := TRANSACTION_VERSION_CARROT
    unlock_time := CRYPTONOTE_MINED_MONEY_UNLOCK_WINDOW
    vin := [.txin_gen block_index.toNat]
    vout := enotes.map fun e =>
      ⟨e.amount, txout_to_carrot_v1 e.onetime_address e.asset_type e.view_tag e.anchor_enc⟩
    extra := (Blob.parse_tx_extra extra).2
    rct_type := RCTTypeNull }

/-- The fields of the key writer are the parsed view of its bytes. -/
theorem store_carrot_ephemeral_pubkeys_to_extra_nil (enotes : List CarrotCoinbaseEnoteV1) :
    store_carrot_ephemeral_pubkeys_to_extra enotes [] =
      Carrot.ephemeral_pubkeys_field (·.enote_ephemeral_pubkey) enotes := by
  cases enotes with
  | nil => rfl
  | cons e rest =>
    simp [store_carrot_ephemeral_pubkeys_to_extra, Carrot.ephemeral_pubkeys_field,
      use_shared_ephemeral_pubkey, Carrot.use_shared_ephemeral_pubkey, add_tx_pub_key_to_extra,
      add_additional_tx_pub_keys_to_extra]

/-- **The writer with a short nonce.** With at most `2 ^ 64 - 1` enotes and a nonce of under
`0x80` bytes, every byte step succeeds and the transaction's extra is the field-level sort of
the key field and the nonce. -/
theorem store_carrot_to_coinbase_transaction_v1_eq {enotes : List CarrotCoinbaseEnoteV1}
    {extra_nonce : List UInt8} {tx_type : transaction_type} (block_index : UInt64)
    (htype : tx_type = .MINER ∨ tx_type = .PROTOCOL) (hlen : enotes.length < 2 ^ 64)
    (hn : extra_nonce.length < 0x80) :
    store_carrot_to_coinbase_transaction_v1 enotes extra_nonce tx_type block_index =
      .ok { transaction.set_null with
        type := tx_type
        version := TRANSACTION_VERSION_CARROT
        unlock_time := CRYPTONOTE_MINED_MONEY_UNLOCK_WINDOW
        vin := [.txin_gen block_index.toNat]
        vout := enotes.map fun e =>
          ⟨e.amount, txout_to_carrot_v1 e.onetime_address e.asset_type e.view_tag e.anchor_enc⟩
        extra := sort_tx_extra
          (store_carrot_ephemeral_pubkeys_to_extra enotes [] ++ [.tx_extra_nonce extra_nonce])
        rct_type := RCTTypeNull } := by
  obtain ⟨bytes, hw, hstore⟩ :=
    Carrot.store_carrot_ephemeral_pubkeys_to_extra_eq (·.enote_ephemeral_pubkey) enotes []
  have hmax : extra_nonce.length ≤ TX_EXTRA_NONCE_MAX_COUNT := by
    simp only [TX_EXTRA_NONCE_MAX_COUNT]
    omega
  -- the key field and the nonce both round trip, and the nonce's length is one varint byte
  have hrt : ∀ f ∈ store_carrot_ephemeral_pubkeys_to_extra enotes [] ++ [.tx_extra_nonce extra_nonce],
      f.round_trips := by
    intro f hf
    rcases List.mem_append.mp hf with hf | hf
    · rw [store_carrot_ephemeral_pubkeys_to_extra_nil] at hf
      exact Carrot.ephemeral_pubkeys_field_round_trips _ hlen f hf
    · rw [List.mem_singleton.mp hf]
      exact hmax
  obtain ⟨nb, hnb⟩ := Blob.exists_write_tx_extra_field
    (show (tx_extra_field.tx_extra_nonce extra_nonce).round_trips from hmax)
  have hnonce : Blob.add_extra_nonce_to_tx_extra bytes extra_nonce = some (bytes ++ nb) := by
    rw [Blob.add_extra_nonce_to_tx_extra_eq_write bytes hn, hnb]
    rfl
  have hwf : write_tx_extra_fields
      (store_carrot_ephemeral_pubkeys_to_extra enotes [] ++ [.tx_extra_nonce extra_nonce]) =
        some (bytes ++ nb) := by
    rw [write_tx_extra_fields_append, store_carrot_ephemeral_pubkeys_to_extra_nil, hw]
    simp [write_tx_extra_fields, hnb]
  obtain ⟨sorted, hsort, hparse⟩ := Blob.sort_tx_extra_parse hrt hwf
  rw [store_carrot_to_coinbase_transaction_v1, if_neg (not_not.mpr htype)]
  simp only [hstore, List.nil_append, bind, Except.bind, hnonce, hsort, hparse]
  rfl

/-- **A nonce of 128 bytes or more stops the writer.** The nonce writer accepts it, and the
sort then fails to parse the bytes it wrote. -/
theorem store_carrot_to_coinbase_transaction_v1_long {enotes : List CarrotCoinbaseEnoteV1}
    {extra_nonce : List UInt8} {tx_type : transaction_type} (block_index : UInt64)
    (htype : tx_type = .MINER ∨ tx_type = .PROTOCOL) (hlen : enotes.length < 2 ^ 64)
    (hlong : 0x80 ≤ extra_nonce.length) (hmax : extra_nonce.length ≤ TX_EXTRA_NONCE_MAX_COUNT) :
    store_carrot_to_coinbase_transaction_v1 enotes extra_nonce tx_type block_index =
      .error "store_carrot_to_coinbase_transaction_v1: failed to sort tx_extra" := by
  obtain ⟨bytes, hw, hstore⟩ :=
    Carrot.store_carrot_ephemeral_pubkeys_to_extra_eq (·.enote_ephemeral_pubkey) enotes []
  obtain ⟨tx_extra, hadd, -, hsort⟩ := Blob.add_extra_nonce_to_tx_extra_long
    (Carrot.ephemeral_pubkeys_field_round_trips _ hlen) hw hlong hmax
  rw [store_carrot_to_coinbase_transaction_v1, if_neg (not_not.mpr htype)]
  simp only [hstore, List.nil_append, bind, Except.bind, hadd, hsort]
  rfl

/-! ## The protocol-transaction builder -/

/-- `cryptonote::protocol_data_entry`, without the fields `construct_protocol_tx` never reads
(`amount_minted`, `amount_slippage_limit`, `source_asset`, `P_change`, `origin_height`). -/
structure protocol_data_entry where
  return_address : Crypto.public_key
  amount_burnt : UInt64
  destination_asset : String
  type : transaction_type
  return_pubkey : Crypto.public_key
  return_view_tag : Carrot.view_tag_t
  return_anchor_enc : Carrot.encrypted_janus_anchor_t
  is_carrot : Bool
  deriving DecidableEq, Repr

/-- The Carrot enote `construct_protocol_tx` makes of an entry. -/
def protocol_data_entry.to_enote (height : UInt64) (entry : protocol_data_entry) :
    CarrotCoinbaseEnoteV1 where
  onetime_address := entry.return_address
  amount := entry.amount_burnt
  asset_type := entry.destination_asset
  view_tag := entry.return_view_tag
  anchor_enc := entry.return_anchor_enc
  block_index := height
  enote_ephemeral_pubkey := entry.return_pubkey

/-- The output and additional key the legacy path makes of an entry; entries that are neither
`STAKE` nor `AUDIT` are skipped. -/
def protocol_data_entry.legacy_output (entry : protocol_data_entry) :
    Option (tx_out × Crypto.public_key) :=
  match entry.type with
  | .STAKE =>
    if entry.is_carrot then
      some (⟨entry.amount_burnt, txout_to_carrot_v1 entry.return_address entry.destination_asset
        entry.return_view_tag entry.return_anchor_enc⟩, entry.return_pubkey)
    else
      some (set_tx_out entry.amount_burnt entry.destination_asset
        CRYPTONOTE_MINED_MONEY_UNLOCK_WINDOW entry.return_address false ⟨0⟩, entry.return_pubkey)
  | .AUDIT =>
    some (set_tx_out entry.amount_burnt entry.destination_asset
      CRYPTONOTE_MINED_MONEY_UNLOCK_WINDOW entry.return_address false ⟨0⟩, entry.return_pubkey)
  | _ => none

/-- `construct_protocol_tx(height, tx, protocol_data, hard_fork_version)`. `txkey_pub` is the
public half of the key pair the legacy path generates at random; `none` is the source's
`return false`. -/
def construct_protocol_tx (height : UInt64) (protocol_data : List protocol_data_entry)
    (hard_fork_version : UInt8) (txkey_pub : Crypto.public_key) : Option transaction :=
  let carrot_found := protocol_data.any (·.is_carrot)
  let noncarrot_found := protocol_data.any (!·.is_carrot)
  if carrot_found ∧ noncarrot_found then none
  else if carrot_found ∧ hard_fork_version < HF_VERSION_CARROT then none
  else if carrot_found ∨ (¬noncarrot_found ∧ hard_fork_version ≥ HF_VERSION_CARROT) then
    -- the Carrot path; an exception of the writer is caught and reported as failure
    match store_carrot_to_coinbase_transaction_v1 (protocol_data.map (·.to_enote height)) []
        .PROTOCOL height with
    | .ok tx => some { tx with amount_burnt := 0 }
    | .error _ => none
  else
    let outputs := protocol_data.filterMap (·.legacy_output)
    some { transaction.set_null with
      version := 2
      type := .PROTOCOL
      extra := add_additional_tx_pub_keys_to_extra
        (sort_tx_extra (add_tx_pub_key_to_extra [] txkey_pub)) (outputs.map (·.2))
      vout := outputs.map (·.1)
      vin := [.txin_gen height.toNat] }

/-- The transaction the Carrot path of `construct_protocol_tx` returns for `protocol_data`. -/
def carrot_protocol_tx (height : UInt64) (protocol_data : List protocol_data_entry) : transaction :=
  { transaction.set_null with
    type := .PROTOCOL
    version := TRANSACTION_VERSION_CARROT
    unlock_time := CRYPTONOTE_MINED_MONEY_UNLOCK_WINDOW
    vin := [.txin_gen height.toNat]
    vout := (protocol_data.map (·.to_enote height)).map fun e =>
      ⟨e.amount, txout_to_carrot_v1 e.onetime_address e.asset_type e.view_tag e.anchor_enc⟩
    extra := sort_tx_extra
      (store_carrot_ephemeral_pubkeys_to_extra (protocol_data.map (·.to_enote height)) [] ++
        [.tx_extra_nonce []])
    rct_type := RCTTypeNull }

/-- **The Carrot path of the builder.** When every entry is a Carrot one and the block is at
the Carrot fork or later, `construct_protocol_tx` succeeds with `carrot_protocol_tx`. -/
theorem construct_protocol_tx_carrot {height : UInt64} {protocol_data : List protocol_data_entry}
    {hard_fork_version : UInt8} (txkey_pub : Crypto.public_key)
    (hcarrot : ∀ e ∈ protocol_data, e.is_carrot = true)
    (hv : HF_VERSION_CARROT ≤ hard_fork_version) (hlen : protocol_data.length < 2 ^ 64) :
    construct_protocol_tx height protocol_data hard_fork_version txkey_pub =
      some (carrot_protocol_tx height protocol_data) := by
  have hnon : protocol_data.any (!·.is_carrot) = false := by
    simpa using hcarrot
  have hnot_lt : ¬hard_fork_version < HF_VERSION_CARROT := UInt8.not_lt.mpr hv
  have hstore := @store_carrot_to_coinbase_transaction_v1_eq
    (protocol_data.map (·.to_enote height)) [] .PROTOCOL height (Or.inr rfl)
    (by simpa using hlen) (by simp)
  simp only [construct_protocol_tx, hnon, hnot_lt, hv, hstore]
  simp [carrot_protocol_tx, transaction.set_null]

@[simp] theorem carrot_protocol_tx_vin (height : UInt64) (protocol_data : List protocol_data_entry) :
    (carrot_protocol_tx height protocol_data).vin = [.txin_gen height.toNat] := rfl

@[simp] theorem carrot_protocol_tx_vout (height : UInt64) (protocol_data : List protocol_data_entry) :
    (carrot_protocol_tx height protocol_data).vout = protocol_data.map fun entry =>
      ⟨entry.amount_burnt, txout_to_carrot_v1 entry.return_address entry.destination_asset
        entry.return_view_tag entry.return_anchor_enc⟩ := by
  simp [carrot_protocol_tx, protocol_data_entry.to_enote]

/-! ## Where the Carrot writer puts the ephemeral keys -/

/-- **Where the validator finds the builder's keys.** After the Carrot writer, with `n` outputs:
for one output, or two with equal keys, `get_tx_pub_key_from_extra` returns the first key and
there are no additional keys; otherwise the additional keys are all the outputs' keys in order. -/
theorem store_carrot_ephemeral_pubkeys_to_extra_readers (enotes : List CarrotCoinbaseEnoteV1)
    (e : CarrotCoinbaseEnoteV1) (he : enotes.head? = some e) :
    (use_shared_ephemeral_pubkey enotes = true →
      get_tx_pub_key_from_extra (store_carrot_ephemeral_pubkeys_to_extra enotes []) 0 =
          e.enote_ephemeral_pubkey ∧
        get_additional_tx_pub_keys_from_extra (store_carrot_ephemeral_pubkeys_to_extra enotes []) =
          []) ∧
    (use_shared_ephemeral_pubkey enotes = false →
      get_additional_tx_pub_keys_from_extra (store_carrot_ephemeral_pubkeys_to_extra enotes []) =
        enotes.map (·.enote_ephemeral_pubkey)) := by
  cases enotes with
  | nil => cases he
  | cons e' rest =>
    obtain rfl : e' = e := Option.some.inj he
    refine ⟨fun hs => ?_, fun hs => ?_⟩
    · rw [store_carrot_ephemeral_pubkeys_to_extra, if_pos hs]
      exact ⟨get_tx_pub_key_from_extra_add rfl _, rfl⟩
    · rw [store_carrot_ephemeral_pubkeys_to_extra, if_neg (by simp [hs])]
      exact get_additional_tx_pub_keys_from_extra_add rfl _

/-- The builder's Carrot transaction shows the lookups what the key writer stored: sorting and
the empty nonce are invisible to both. -/
theorem carrot_protocol_tx_readers (height : UInt64) (protocol_data : List protocol_data_entry) :
    get_tx_pub_key_from_extra (carrot_protocol_tx height protocol_data).extra 0 =
        get_tx_pub_key_from_extra
          (store_carrot_ephemeral_pubkeys_to_extra (protocol_data.map (·.to_enote height)) []) 0 ∧
      get_additional_tx_pub_keys_from_extra (carrot_protocol_tx height protocol_data).extra =
        get_additional_tx_pub_keys_from_extra
          (store_carrot_ephemeral_pubkeys_to_extra (protocol_data.map (·.to_enote height)) []) := by
  refine ⟨?_, ?_⟩
  · rw [carrot_protocol_tx, get_tx_pub_key_from_extra_sort,
      get_tx_pub_key_from_extra_append_of_none rfl]
  · rw [carrot_protocol_tx, get_additional_tx_pub_keys_from_extra_sort,
      get_additional_tx_pub_keys_from_extra_append_of_none rfl]

end Coinbase

end Salvium
