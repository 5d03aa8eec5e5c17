import Mathlib
import Salvium.Basic
import Salvium.Chain.LongTermWeight
import Salvium.Tx.Coinbase
import Salvium.Lib.MultiIndex

/-!
# Salvium — the transaction pool

`tx_memory_pool` (`cryptonote_core/tx_pool.cpp`) keeps the transactions waiting for a block. A
pooled transaction lives in two places. Its metadata and its blob are rows of the database's
`txpool_meta` and `txpool_blob` tables, written under a batch (`LockedTXN`) that is committed at
the end of a call and aborted by an early return or an exception. The rest is in memory and no
abort undoes it: the index `m_spent_key_images` from each key image to the pooled transactions
that spend it, the running total `m_txpool_weight`, the container
`m_txs_by_fee_and_receive_time` that orders the pool by fee per byte, and `m_added_txs_by_id`.

This module models the calls that change the pool, with the helpers they call, in the source's
order: `add_tx` with both of its paths (a transaction kept from a popped block whose inputs no
longer check, and the main path, which also re-adds a transaction already pooled when its relay
method goes up, as from Dandelion++ stem to fluff), `take_tx`, `prune`, `remove_stuck_transactions`,
`set_relayed`, which moves transactions along the Dandelion++ relay methods, and `validate`, which
takes every transaction out and adds it back. The checks that read the chain are a parameter of
each call (`Blockchain`). `Salvium.Chain.TxPoolInvariant` says what the bookkeeping keeps.
-/

namespace Salvium

/-! ## Constants (`cryptonote_config.h`, the values in force) -/

def HF_VERSION_PER_BYTE_FEE : UInt8 := 1
def HF_VERSION_SHUTDOWN_USER_TXS : UInt8 := 5
def MAX_TX_EXTRA_SIZE : ℕ := 1060
def CRYPTONOTE_COINBASE_BLOB_RESERVED_SIZE : UInt64 := 600
def DEFAULT_TXPOOL_MAX_WEIGHT : UInt64 := 648000000
def CRYPTONOTE_MEMPOOL_TX_LIVETIME : UInt64 := 86400 * 3
def CRYPTONOTE_MEMPOOL_TX_FROM_ALT_BLOCK_LIVETIME : UInt64 := 604800

/-- `cryptonote::get_transaction_weight_limit`: from v2 half the minimum block weight, less the
coinbase reserve. -/
def get_transaction_weight_limit (hf_version : UInt8) : UInt64 :=
  if hf_version ≥ 2 then
    get_min_block_weight hf_version / 2 - CRYPTONOTE_COINBASE_BLOB_RESERVED_SIZE
  else get_min_block_weight hf_version - CRYPTONOTE_COINBASE_BLOB_RESERVED_SIZE

namespace TxPool

open Coinbase (tx_out txout_target_v)

/-! ## Relay methods and categories (`cryptonote_protocol/enums.h`, `blockchain_db.cpp`) -/

/-- `crypto::key_image`. -/
structure key_image where
  data : Vector UInt8 32
  deriving DecidableEq, Repr

/-- `cryptonote::relay_method`. -/
inductive relay_method where
  | none
  | «local»
  | forward
  | stem
  | fluff
  | block
  deriving DecidableEq, Repr

/-- The `uint8_t` value of a relay method, which `upgrade_relay_method` compares. -/
def relay_method.toNat : relay_method → ℕ
  | .none => 0
  | .«local» => 1
  | .forward => 2
  | .stem => 3
  | .fluff => 4
  | .block => 5

/-- `cryptonote::relay_category`. -/
inductive relay_category where
  | broadcasted
  | relayable
  | legacy
  | all
  deriving DecidableEq, Repr

/-- `cryptonote::matches_category`: `legacy` is `broadcasted` (a block or a fluff) and also
`relay_method::none`. -/
def matches_category (method : relay_method) (category : relay_category) : Bool :=
  match category with
  | .all => true
  | .relayable => method != .none
  | .broadcasted | .legacy =>
    match method with
    | .«local» | .forward | .stem => false
    | .block | .fluff => true
    | .none => category == .legacy

/-! ## Transaction metadata (`blockchain_db.h`) -/

/-- The fields of `cryptonote::txpool_tx_meta_t` that the pool reads and writes. The `uint8_t`
flags and the one-bit fields are `Bool`s. -/
structure txpool_tx_meta_t where
  max_used_block_id : Crypto.Hash
  last_failed_id : Crypto.Hash
  weight : UInt64
  fee : UInt64
  max_used_block_height : UInt64
  last_failed_height : UInt64
  receive_time : UInt64
  last_relayed_time : UInt64
  kept_by_block : Bool
  relayed : Bool
  do_not_relay : Bool
  double_spend_seen : Bool
  pruned : Bool
  is_local : Bool
  dandelionpp_stem : Bool
  is_forwarding : Bool
  deriving DecidableEq, Repr

namespace txpool_tx_meta_t

/-- `txpool_tx_meta_t meta{}`: every field zero. -/
def zero : txpool_tx_meta_t where
  max_used_block_id := Crypto.null_hash
  last_failed_id := Crypto.null_hash
  weight := 0
  fee := 0
  max_used_block_height := 0
  last_failed_height := 0
  receive_time := 0
  last_relayed_time := 0
  kept_by_block := false
  relayed := false
  do_not_relay := false
  double_spend_seen := false
  pruned := false
  is_local := false
  dandelionpp_stem := false
  is_forwarding := false

/-- `txpool_tx_meta_t::set_relay_method`: the five relay flags are cleared and the method's own
one set (`fluff` has none). -/
def set_relay_method (tx_meta : txpool_tx_meta_t) (method : relay_method) : txpool_tx_meta_t :=
  { tx_meta with
    kept_by_block := method == .block
    do_not_relay := method == .none
    is_local := method == .«local»
    is_forwarding := method == .forward
    dandelionpp_stem := method == .stem }

/-- `txpool_tx_meta_t::get_relay_method`: the flags read as a bit field; anything but a single
flag reads as `fluff`. -/
def get_relay_method (tx_meta : txpool_tx_meta_t) : relay_method :=
  let state := tx_meta.kept_by_block.toNat + 2 * tx_meta.do_not_relay.toNat + 4 * tx_meta.is_local.toNat +
    8 * tx_meta.is_forwarding.toNat + 16 * tx_meta.dandelionpp_stem.toNat
  match state with
  | 1 => .block
  | 2 => .none
  | 4 => .«local»
  | 8 => .forward
  | 16 => .stem
  | _ => .fluff

/-- `txpool_tx_meta_t::upgrade_relay_method`: the method is set only when it is above the current
one; the flag says whether it was. -/
def upgrade_relay_method (tx_meta : txpool_tx_meta_t) (method : relay_method) :
    Bool × txpool_tx_meta_t :=
  if tx_meta.get_relay_method.toNat < method.toNat then (true, tx_meta.set_relay_method method)
  else (false, tx_meta)

/-- `txpool_tx_meta_t::matches`. -/
def «matches» (tx_meta : txpool_tx_meta_t) (category : relay_category) : Bool :=
  matches_category tx_meta.get_relay_method category

end txpool_tx_meta_t

/-- `cryptonote::tx_verification_context`. -/
structure tx_verification_context where
  m_relay : relay_method
  m_verifivation_failed : Bool
  m_no_drop_offense : Bool
  m_verifivation_impossible : Bool
  m_added_to_pool : Bool
  m_low_mixin : Bool
  m_double_spend : Bool
  m_invalid_input : Bool
  m_invalid_output : Bool
  m_too_big : Bool
  m_overspend : Bool
  m_fee_too_low : Bool
  m_too_few_outputs : Bool
  m_tx_extra_too_big : Bool
  m_version_mismatch : Bool
  deriving DecidableEq, Repr

/-- `tx_verification_context tvc{}`. -/
def tx_verification_context.zero : tx_verification_context :=
  ⟨.none, false, false, false, false, false, false, false, false, false, false, false, false,
    false, false⟩

/-! ## Transactions as the pool reads them -/

/-- `cryptonote::txin_v`; the pool reads the amount and the key image of a key input and tells
the other variants apart only. -/
inductive txin_v where
  | txin_gen (height : UInt64)
  | txin_to_script
  | txin_to_scripthash
  | txin_to_key (amount : UInt64) (k_image : key_image)
  deriving DecidableEq, Repr

/-- What the pool reads of a `cryptonote::transaction`. `txnFee` is `rct_signatures.txnFee`. -/
structure transaction where
  version : ℕ
  type : transaction_type
  vin : List txin_v
  vout : List tx_out
  extra : List UInt8
  txnFee : UInt64
  pruned : Bool
  deriving DecidableEq, Repr

/-- `transaction_prefix::set_null`: what a declared `transaction` holds, version 1 of type `UNSET`
with no inputs, outputs, extra or fee. -/
def transaction.null : transaction := ⟨1, .UNSET, [], [], [], 0, false⟩

/-- `cryptonote::check_inputs_types_supported`: key inputs only. -/
def check_inputs_types_supported (tx : transaction) : Bool :=
  tx.vin.all fun
    | .txin_to_key .. => true
    | _ => false

/-- The loop of `core::check_tx_inputs_keyimages_diff`, with the key images seen so far. -/
def check_tx_inputs_keyimages_diff_loop : List key_image → List txin_v → Bool
  | _, [] => true
  | ki, .txin_to_key _ k_image :: vin =>
    if ki.contains k_image then false else check_tx_inputs_keyimages_diff_loop (k_image :: ki) vin
  | _, _ :: _ => false

/-- `core::check_tx_inputs_keyimages_diff`, which the core runs on a transaction before it goes
to the pool: key inputs only, no key image twice. -/
def check_tx_inputs_keyimages_diff (tx : transaction) : Bool :=
  check_tx_inputs_keyimages_diff_loop [] tx.vin

/-- `cryptonote::get_inputs_money_amount`: the `uint64_t` sum of the key inputs' amounts, failing
on another input. -/
def get_inputs_money_amount (tx : transaction) : Option UInt64 :=
  tx.vin.foldlM (fun money txin =>
    match txin with
    | .txin_to_key amount _ => some (money + amount)
    | _ => none) 0

/-- `cryptonote::get_outs_money_amount`: the `uint64_t` sum of the key outputs in `SAL1`. -/
def get_outs_money_amount (tx : transaction) : UInt64 :=
  tx.vout.foldl (fun outputs_amount o =>
    match o.target with
    | .txout_to_tagged_key _ asset_type _ _ | .txout_to_key _ asset_type _ =>
      if asset_type = "SAL1" then outputs_amount + o.amount else outputs_amount
    | _ => outputs_amount) 0

/-- The checks of `cryptonote::Blockchain` that `add_tx` calls. They read the chain, which this
model leaves open: each call of `add_tx` is given its own. Each may write the verification
context, as the source's do through the reference they are passed. `check_tx_inputs` also
returns the highest block the inputs use (`max_used_block_height`, `max_used_block_id`); the
pool's `m_input_cache` memo of it is one such function. -/
structure Blockchain where
  check_fee : UInt64 → UInt64 → Bool
  check_tx_outputs : transaction → tx_verification_context → Bool × tx_verification_context
  check_tx_type_and_version :
    transaction → tx_verification_context → Bool × tx_verification_context
  check_tx_inputs : transaction → Crypto.Hash → Bool → tx_verification_context →
    Bool × UInt64 × Crypto.Hash × tx_verification_context

/-! ## The pool's database tables (`db_lmdb.cpp`) -/

/-- The `txpool_meta` and `txpool_blob` rows of one txid. The blob is kept as the transaction
it parses to. The source's variables named `meta` are `tx_meta` here, `meta` being a keyword of
Lean. -/
structure txpool_entry where
  txid : Crypto.Hash
  tx_meta : txpool_tx_meta_t
  blob : transaction
  deriving DecidableEq, Repr

/-- The two tables, keyed by txid: `MDB_NODUPDATA` keeps a txid to one row. -/
structure txpool_table where
  entries : List txpool_entry
  nodup : (entries.map (·.txid)).Nodup

namespace txpool_table

/-- The txids that have a row. -/
def txids (t : txpool_table) : List Crypto.Hash := t.entries.map (·.txid)

/-- The row of a txid. -/
def find (t : txpool_table) (txid : Crypto.Hash) : Option txpool_entry :=
  t.entries.find? (·.txid == txid)

/-- `BlockchainLMDB::get_txpool_tx_meta`. -/
def get_txpool_tx_meta (t : txpool_table) (txid : Crypto.Hash) : Option txpool_tx_meta_t :=
  (t.find txid).map (·.tx_meta)

/-- `BlockchainDB::txpool_tx_matches_category`: `false` for a txid with no row. -/
def txpool_tx_matches_category (t : txpool_table) (tx_hash : Crypto.Hash)
    (category : relay_category) : Bool :=
  match t.get_txpool_tx_meta tx_hash with
  | none => false
  | some tx_meta => tx_meta.matches category

/-- `BlockchainLMDB::add_txpool_tx`: throws on a txid that has a row. -/
def add_txpool_tx (t : txpool_table) (txid : Crypto.Hash) (blob : transaction)
    (tx_meta : txpool_tx_meta_t) : Except String txpool_table :=
  if h : txid ∈ t.txids then .error "Attempting to add txpool tx metadata that's already in the db"
  else .ok ⟨t.entries ++ [⟨txid, tx_meta, blob⟩], by
    rw [List.map_append, List.nodup_append]
    exact ⟨t.nodup, List.nodup_singleton _, by simpa [txids] using h⟩⟩

/-- `BlockchainLMDB::remove_txpool_tx`: a txid with no row is no error. -/
def remove_txpool_tx (t : txpool_table) (txid : Crypto.Hash) : txpool_table :=
  ⟨t.entries.filter (·.txid != txid), t.nodup.sublist ((List.filter_sublist).map _)⟩

/-- `BlockchainLMDB::update_txpool_tx`: replaces the metadata of a txid that has a row. -/
def update_txpool_tx (t : txpool_table) (txid : Crypto.Hash) (tx_meta : txpool_tx_meta_t) :
    Except String txpool_table :=
  if txid ∈ t.txids then
    .ok ⟨t.entries.map (fun e => if e.txid = txid then { e with tx_meta := tx_meta } else e), by
      rw [List.map_map]
      convert t.nodup using 2
      funext e
      by_cases h : e.txid = txid <;> simp [h]⟩
  else .error "Error finding txpool tx meta to update: MDB_NOTFOUND: No matching key/data pair found"

end txpool_table

/-! ## The container sorted by fee per byte (`tx_pool.h`) -/

/-- `fee / (double)(tx_weight ? tx_weight : 1)`, kept as the exact fraction of the fee over a
weight that is not zero. -/
structure fee_per_byte where
  fee : UInt64
  weight : UInt64
  weight_ne_zero : weight ≠ 0
  deriving DecidableEq, Repr

/-- The fee per byte of a fee and a weight; a zero weight counts as one. -/
def fee_per_byte.of (fee tx_weight : UInt64) : fee_per_byte :=
  if h : tx_weight = 0 then ⟨fee, 1, by decide⟩ else ⟨fee, tx_weight, h⟩

/-- The order of the fractions, by cross-multiplying. -/
instance : LT fee_per_byte := ⟨fun a b => a.fee.toNat * b.weight.toNat < b.fee.toNat * a.weight.toNat⟩

instance (a b : fee_per_byte) : Decidable (a < b) :=
  inferInstanceAs (Decidable (a.fee.toNat * b.weight.toNat < b.fee.toNat * a.weight.toNat))

/-- `tx_by_fee_and_receive_time_entry`: `((fee per byte, receive time), txid)`. -/
structure tx_by_fee_and_receive_time_entry where
  fee : fee_per_byte
  receive_time : UInt64
  txid : Crypto.Hash
  deriving DecidableEq, Repr

/-- `txCompare`: the highest fee per byte first, then the earliest, then the txid's bytes. -/
def txCompare (a b : tx_by_fee_and_receive_time_entry) : Bool :=
  if b.fee < a.fee then true
  else if a.fee < b.fee then false
  else if a.receive_time < b.receive_time then true
  else if b.receive_time < a.receive_time then false
  else decide (a.txid.data.toList < b.txid.data.toList)

/-- `std::set::emplace` into the container kept in `txCompare` order: nothing is inserted when
an equivalent entry is there. -/
def emplace (s : List tx_by_fee_and_receive_time_entry) (e : tx_by_fee_and_receive_time_entry) :
    List tx_by_fee_and_receive_time_entry :=
  if s.any (fun e' => !txCompare e e' && !txCompare e' e) then s
  else s.orderedInsert (fun a b => txCompare a b = true) e

/-! ## The pool -/

/-- The state of `tx_memory_pool` that its calls change: the database tables and the in-memory
bookkeeping. `m_spent_key_images` is an `unordered_map` of `unordered_set`s, `m_added_txs_by_id`
an `unordered_map` from txid to time. -/
structure tx_memory_pool where
  txpool : txpool_table
  m_spent_key_images : key_image → Option (List Crypto.Hash)
  m_txs_by_fee_and_receive_time : List tx_by_fee_and_receive_time_entry
  m_added_txs_by_id : Crypto.Hash → Option UInt64
  m_timed_out_transactions : List Crypto.Hash
  m_txpool_weight : UInt64
  m_txpool_max_weight : UInt64

/-- A pool with nothing in it, as the constructor leaves it over an empty database. -/
def tx_memory_pool.empty : tx_memory_pool :=
  ⟨⟨[], List.nodup_nil⟩, fun _ => none, [], fun _ => none, [], 0, DEFAULT_TXPOOL_MAX_WEIGHT⟩

/-- What `take_tx` hands back besides success: the transaction and its metadata's fields. -/
structure take_tx_result where
  tx : transaction
  tx_weight : UInt64
  fee : UInt64
  relayed : Bool
  do_not_relay : Bool
  double_spend_seen : Bool
  pruned : Bool
  deriving DecidableEq, Repr

namespace tx_memory_pool

/-! ### Key images -/

/-- `tx_memory_pool::have_tx_keyimg_as_spent`: spent by another transaction, or by this one once
it is public (`relay_category::legacy`). -/
def have_tx_keyimg_as_spent (p : tx_memory_pool) (key_im : key_image) (txid : Crypto.Hash) :
    Bool :=
  match p.m_spent_key_images key_im with
  | some s =>
    if !s.isEmpty then
      if 1 < s.length || s.head? != some txid then true
      else p.txpool.txpool_tx_matches_category txid .legacy
    else false
  | none => false

/-- `tx_memory_pool::have_tx_keyimges_as_spent`; an input that is not a key input counts as
spent. -/
def have_tx_keyimges_as_spent (p : tx_memory_pool) (tx : transaction) (txid : Crypto.Hash) :
    Bool :=
  tx.vin.any fun
    | .txin_to_key _ k_image => p.have_tx_keyimg_as_spent k_image txid
    | _ => true

/-- The loop of `insert_key_images` over the inputs. Outside a block a key image may hold only
this txid, and the txid is inserted under it; the check after the insert fails when it was
there already and the transaction is public. A failure stops the loop with the inserts made so
far in place. -/
def insert_key_images_loop (db : txpool_table) (id : Crypto.Hash) (tx_relay : relay_method) :
    List txin_v → (key_image → Option (List Crypto.Hash)) →
      Bool × (key_image → Option (List Crypto.Hash))
  | [], m => (true, m)
  | .txin_to_key _ k_image :: vin, m =>
    let kei_image_set := MultiIndex.ids m k_image
    if tx_relay != .block && !(kei_image_set.isEmpty ||
        (kei_image_set.length == 1 && kei_image_set.head? == some id)) then (false, m)
    else
      let m := MultiIndex.insert m k_image id
      if !kei_image_set.contains id || !db.txpool_tx_matches_category id .legacy then
        insert_key_images_loop db id tx_relay vin m
      else (false, m)
  | _ :: _, m => (false, m)

/-- `tx_memory_pool::insert_key_images`. -/
def insert_key_images (p : tx_memory_pool) (tx : transaction) (id : Crypto.Hash)
    (tx_relay : relay_method) : Bool × tx_memory_pool :=
  let (ok, m) := insert_key_images_loop p.txpool id tx_relay tx.vin p.m_spent_key_images
  (ok, { p with m_spent_key_images := m })

/-- The loop of `remove_transaction_keyimages` over the inputs: the txid must be under each key
image; a failure stops the loop with the removals made so far in place. -/
def remove_transaction_keyimages_loop (actual_hash : Crypto.Hash) :
    List txin_v → (key_image → Option (List Crypto.Hash)) →
      Bool × (key_image → Option (List Crypto.Hash))
  | [], m => (true, m)
  | .txin_to_key _ k_image :: vin, m =>
    match m k_image with
    | none => (false, m)
    | some key_image_set =>
      if key_image_set.isEmpty then (false, m)
      else if !key_image_set.contains actual_hash then (false, m)
      else remove_transaction_keyimages_loop actual_hash vin (MultiIndex.erase m k_image actual_hash)
  | _ :: _, m => (false, m)

/-- `tx_memory_pool::remove_transaction_keyimages`. -/
def remove_transaction_keyimages (p : tx_memory_pool) (tx : transaction)
    (actual_hash : Crypto.Hash) : Bool × tx_memory_pool :=
  let (ok, m) := remove_transaction_keyimages_loop actual_hash tx.vin p.m_spent_key_images
  (ok, { p with m_spent_key_images := m })

/-- One txid of `mark_double_spend`: its metadata gets `double_spend_seen`; a txid with no row and
a failed update are skipped. -/
def mark_double_spend_txid (db : txpool_table) (txid : Crypto.Hash) : txpool_table :=
  match db.get_txpool_tx_meta txid with
  | none => db
  | some tx_meta =>
    if !tx_meta.double_spend_seen then
      match db.update_txpool_tx txid { tx_meta with double_spend_seen := true } with
      | .ok db => db
      | .error _ => db
    else db

/-- The loop of `mark_double_spend` over the inputs; `none` is its early return on an input that
is not a key input. -/
def mark_double_spend_loop (m : key_image → Option (List Crypto.Hash)) :
    List txin_v → txpool_table → Option txpool_table
  | [], db => some db
  | .txin_to_key _ k_image :: vin, db =>
    mark_double_spend_loop m vin ((MultiIndex.ids m k_image).foldl mark_double_spend_txid db)
  | _ :: _, _ => none

/-- `tx_memory_pool::mark_double_spend`: the early return leaves its batch uncommitted, which
aborts it. -/
def mark_double_spend (p : tx_memory_pool) (tx : transaction) : tx_memory_pool :=
  match mark_double_spend_loop p.m_spent_key_images tx.vin p.txpool with
  | some db => { p with txpool := db }
  | none => p

/-! ### Weight and the transient lists -/

/-- `tx_memory_pool::reduce_txpool_weight`: an underflow leaves zero. -/
def reduce_txpool_weight (p : tx_memory_pool) (weight : UInt64) : tx_memory_pool :=
  { p with
    m_txpool_weight := if weight > p.m_txpool_weight then 0 else p.m_txpool_weight - weight }

/-- `tx_memory_pool::find_tx_in_sorted_container`: the first entry with the txid. -/
def find_tx_in_sorted_container (p : tx_memory_pool) (id : Crypto.Hash) :
    Option tx_by_fee_and_receive_time_entry :=
  p.m_txs_by_fee_and_receive_time.find? (·.txid == id)

/-- `tx_memory_pool::add_tx_to_transient_lists`. A txid seen before (a stem transaction now
fluffed) gets a new time, and its entry in the sorted container is replaced. -/
def add_tx_to_transient_lists (p : tx_memory_pool) (txid : Crypto.Hash) (fee : fee_per_byte)
    (receive_time now : UInt64) : tx_memory_pool :=
  let sorted :=
    match p.m_added_txs_by_id txid with
    | none => p.m_txs_by_fee_and_receive_time
    | some _ =>
      match p.find_tx_in_sorted_container txid with
      | none => p.m_txs_by_fee_and_receive_time
      | some sorted_it => p.m_txs_by_fee_and_receive_time.erase sorted_it
  { p with
    m_added_txs_by_id := Function.update p.m_added_txs_by_id txid (some now)
    m_txs_by_fee_and_receive_time := emplace sorted ⟨fee, receive_time, txid⟩ }

/-- `tx_memory_pool::remove_tx_from_transient_lists`: the entry found (if any) leaves the sorted
container and the txid leaves `m_added_txs_by_id`. -/
def remove_tx_from_transient_lists (p : tx_memory_pool)
    (sorted_it : Option tx_by_fee_and_receive_time_entry) (txid : Crypto.Hash) : tx_memory_pool :=
  { p with
    m_txs_by_fee_and_receive_time :=
      match sorted_it with
      | none => p.m_txs_by_fee_and_receive_time
      | some e => p.m_txs_by_fee_and_receive_time.erase e
    m_added_txs_by_id := Function.update p.m_added_txs_by_id txid none }

/-! ### Taking and pruning -/

/-- `tx_memory_pool::take_tx`: the row is removed first, then the weight, the key images and the
transient lists follow; the result of `remove_transaction_keyimages` is not looked at. -/
def take_tx (p : tx_memory_pool) (id : Crypto.Hash) : Option take_tx_result × tx_memory_pool :=
  match p.txpool.find id with
  | none => (none, p)
  | some e =>
    let tx_meta := e.tx_meta
    let p := ({ p with txpool := p.txpool.remove_txpool_tx id } : tx_memory_pool).reduce_txpool_weight
      tx_meta.weight
    let p := (p.remove_transaction_keyimages e.blob id).2
    (some ⟨e.blob, tx_meta.weight, tx_meta.fee, tx_meta.relayed, tx_meta.do_not_relay, tx_meta.double_spend_seen,
        tx_meta.pruned⟩,
      p.remove_tx_from_transient_lists (p.find_tx_in_sorted_container id) id)

/-- The loop of `prune` over the entries it visits, from the lowest fee per byte up; it stops
once the weight is within `bytes`, and skips a txid with no row and a transaction kept by a
block. -/
def prune_loop (bytes : UInt64) :
    List tx_by_fee_and_receive_time_entry → tx_memory_pool → tx_memory_pool
  | [], p => p
  | it :: its, p =>
    if p.m_txpool_weight ≤ bytes then p
    else
      match p.txpool.find it.txid with
      | none => prune_loop bytes its p
      | some e =>
        if e.tx_meta.kept_by_block then prune_loop bytes its p
        else
          let p := ({ p with txpool := p.txpool.remove_txpool_tx it.txid } : tx_memory_pool)
            |>.reduce_txpool_weight e.tx_meta.weight
          let p := (p.remove_transaction_keyimages e.blob it.txid).2
          prune_loop bytes its (p.remove_tx_from_transient_lists (some it) it.txid)

/-- `tx_memory_pool::prune`: `bytes = 0` means the pool's limit. The walk goes from the last
entry down to the second, so the first entry is never pruned. -/
def prune (p : tx_memory_pool) (bytes : UInt64) : tx_memory_pool :=
  if p.m_txs_by_fee_and_receive_time.isEmpty then p
  else
    let bytes := if bytes == 0 then p.m_txpool_max_weight else bytes
    prune_loop bytes p.m_txs_by_fee_and_receive_time.reverse.dropLast p

/-! ### Removing stuck transactions -/

/-- The test `remove_stuck_transactions` makes of a row at time `now`: older than three days, or
than a week for a transaction kept from a block. The age is the `uint64_t` difference, which wraps
for a receive time in the future. -/
def is_stuck (tx_meta : txpool_tx_meta_t) (now : UInt64) : Bool :=
  let tx_age := now - tx_meta.receive_time
  (tx_age > CRYPTONOTE_MEMPOOL_TX_LIVETIME && !tx_meta.kept_by_block) ||
    (tx_age > CRYPTONOTE_MEMPOOL_TX_FROM_ALT_BLOCK_LIVETIME && tx_meta.kept_by_block)

/-- The walk of `remove_stuck_transactions` over the table: a stuck row leaves the transient lists
and is marked timed out, and its txid goes on the list to remove with its weight. -/
def remove_stuck_collect (now : UInt64) :
    List txpool_entry → tx_memory_pool × List (Crypto.Hash × UInt64) →
      tx_memory_pool × List (Crypto.Hash × UInt64)
  | [], acc => acc
  | e :: es, (p, remove) =>
    if is_stuck e.tx_meta now then
      let p := p.remove_tx_from_transient_lists (p.find_tx_in_sorted_container e.txid) e.txid
      remove_stuck_collect now es
        ({ p with m_timed_out_transactions := p.m_timed_out_transactions.insert e.txid },
          remove ++ [(e.txid, e.tx_meta.weight)])
    else remove_stuck_collect now es (p, remove)

/-- The second loop of `remove_stuck_transactions`: the row, the weight and the key images of each
txid on the list go, the row first. A txid with no row throws in `get_txpool_tx_blob`, which the
loop catches and skips. -/
def remove_stuck_loop : List (Crypto.Hash × UInt64) → tx_memory_pool → tx_memory_pool
  | [], p => p
  | (txid, weight) :: remove, p =>
    match p.txpool.find txid with
    | none => remove_stuck_loop remove p
    | some e =>
      let p := ({ p with txpool := p.txpool.remove_txpool_tx txid } : tx_memory_pool)
        |>.reduce_txpool_weight weight
      remove_stuck_loop remove (p.remove_transaction_keyimages e.blob txid).2

/-- `tx_memory_pool::remove_stuck_transactions` at time `now`. The blob of a row is kept as the
transaction it parses to, so the parse does not fail. -/
def remove_stuck_transactions (p : tx_memory_pool) (now : UInt64) : tx_memory_pool :=
  let (p', remove) := remove_stuck_collect now p.txpool.entries (p, [])
  remove_stuck_loop remove p'

/-! ### Adding -/

/-- The fee `add_tx` reads: for a version-1 transaction the inputs' money less the outputs',
which must be positive, and `rct_signatures.txnFee` otherwise. A failure gives the flags it
sets. -/
def add_tx_fee (tx : transaction) (tvc : tx_verification_context) :
    Except tx_verification_context UInt64 :=
  if tx.version == 1 then
    match get_inputs_money_amount tx with
    | none => .error { tvc with m_verifivation_failed := true }
    | some inputs_amount =>
      let outputs_amount := get_outs_money_amount tx
      if outputs_amount > inputs_amount then
        .error { tvc with m_verifivation_failed := true, m_overspend := true }
      else if outputs_amount == inputs_amount then
        .error { tvc with m_verifivation_failed := true, m_fee_too_low := true }
      else .ok (inputs_amount - outputs_amount)
  else .ok tx.txnFee

/-- The path of `add_tx` for a transaction kept from a block whose inputs no longer check: it is
pooled with fresh metadata, as it may become valid again. An early return (`.error`) leaves the
batch uncommitted, which aborts the table write; the key images inserted stay. -/
def add_tx_kept_by_block (p : tx_memory_pool) (tx : transaction) (id : Crypto.Hash)
    (tx_weight : UInt64) (tvc : tx_verification_context) (tx_relay : relay_method)
    (relayed : Bool) (fee : UInt64) (now : UInt64) :
    Except (tx_verification_context × tx_memory_pool) (tx_verification_context × tx_memory_pool) :=
  let tx_meta : txpool_tx_meta_t :=
    { txpool_tx_meta_t.zero with
      weight := tx_weight
      fee := fee
      max_used_block_id := Crypto.null_hash
      max_used_block_height := 0
      last_failed_height := 0
      last_failed_id := Crypto.null_hash
      receive_time := now
      last_relayed_time := now
      relayed := relayed }
  let tx_meta := { tx_meta.set_relay_method tx_relay with
    double_spend_seen := p.have_tx_keyimges_as_spent tx id
    pruned := tx.pruned }
  let (ok, p) := p.insert_key_images tx id tx_relay
  if !ok then .error (tvc, p)
  else
    match p.txpool.add_txpool_tx id tx tx_meta with
    | .error _ => .error (tvc, p)
    | .ok db =>
      let p := ({ p with txpool := db } : tx_memory_pool).add_tx_to_transient_lists id
        (fee_per_byte.of fee tx_weight) now now
      .ok ({ tvc with m_verifivation_impossible := true, m_added_to_pool := true }, p)

/-- The main path of `add_tx`, after the inputs checked. A transaction already pooled is written
again only when its relay method goes up (a Dandelion++ stem seen twice counts as a fluff);
the row is then replaced and the sorted entry renewed. An early return (`.error`) aborts the
batch; the key images inserted stay. -/
def add_tx_main (p : tx_memory_pool) (tx : transaction) (id : Crypto.Hash) (tx_weight : UInt64)
    (tvc : tx_verification_context) (tx_relay : relay_method) (relayed : Bool) (fee : UInt64)
    (max_used_block_height : UInt64) (max_used_block_id : Crypto.Hash) (now forward_time : UInt64) :
    Except (tx_verification_context × tx_memory_pool) (tx_verification_context × tx_memory_pool) :=
  let existing := p.txpool.get_txpool_tx_meta id
  -- the Dandelion++ loop: a stem transaction back in the stem is fluffed
  let tx_relay :=
    match existing with
    | some tx_meta => if tx_relay == .stem && tx_meta.dandelionpp_stem then .fluff else tx_relay
    | none => tx_relay
  let tx_meta :=
    match existing with
    | some tx_meta => tx_meta
    | none => txpool_tx_meta_t.zero.set_relay_method .none
  let (upgraded, tx_meta) := tx_meta.upgrade_relay_method tx_relay
  let relay_tvc (tx_meta : txpool_tx_meta_t) (tvc : tx_verification_context) :=
    if tx_meta.fee > 0 && tx_relay != .forward then { tvc with m_relay := tx_relay } else tvc
  if upgraded || existing.isNone then
    let last_relayed_time := if tx_relay == .forward then forward_time else UInt64.ofNat (2 ^ 64 - 1)
    let tx_meta :=
      { tx_meta with
        last_relayed_time := last_relayed_time
        receive_time := now
        weight := tx_weight
        fee := fee
        max_used_block_id := max_used_block_id
        max_used_block_height := max_used_block_height
        last_failed_height := 0
        last_failed_id := Crypto.null_hash
        relayed := relayed
        double_spend_seen := false
        pruned := tx.pruned }
    let (ok, p) := p.insert_key_images tx id tx_relay
    if !ok then .error (tvc, p)
    else
      match (p.txpool.remove_txpool_tx id).add_txpool_tx id tx tx_meta with
      | .error _ => .error (tvc, p)
      | .ok db =>
        let p := ({ p with txpool := db } : tx_memory_pool).add_tx_to_transient_lists id
          (fee_per_byte.of tx_meta.fee tx_weight) now now
        .ok (relay_tvc tx_meta { tvc with m_added_to_pool := true }, p)
  else .ok (relay_tvc tx_meta { tvc with m_added_to_pool := true }, p)

/-- `tx_memory_pool::add_tx`. The checks come first, each failure returning `false` with the flags
it sets (a double spend also marks the pooled transactions it conflicts with); then one of the
two paths; on success the weight grows by `tx_weight` and the pool is pruned to its limit.
`now` is `time(nullptr)` and `forward_time` the randomized time a `forward` transaction is
relayed at. -/
def add_tx (bc : Blockchain) (p : tx_memory_pool) (tx : transaction) (id : Crypto.Hash)
    (tx_weight : UInt64) (tvc : tx_verification_context) (tx_relay : relay_method)
    (relayed : Bool) (version : UInt8) (now forward_time : UInt64) :
    Bool × tx_verification_context × tx_memory_pool :=
  let kept_by_block := tx_relay == .block
  if tx.version == 0 then (false, { tvc with m_verifivation_failed := true }, p)
  else if !kept_by_block && p.m_timed_out_transactions.contains id then
    (false, { tvc with m_verifivation_failed := true }, p)
  else if version == HF_VERSION_SHUTDOWN_USER_TXS && tx.type != .MINER && tx.type != .PROTOCOL then
    (false, { tvc with m_verifivation_failed := true }, p)
  else if !check_inputs_types_supported tx then
    (false, { tvc with m_verifivation_failed := true, m_invalid_input := true }, p)
  else
    match add_tx_fee tx tvc with
    | .error tvc => (false, tvc, p)
    | .ok fee =>
      if !kept_by_block && !bc.check_fee tx_weight fee then
        (false, { tvc with
          m_verifivation_failed := true
          m_fee_too_low := true
          m_no_drop_offense := true }, p)
      else if (!kept_by_block || version ≥ HF_VERSION_PER_BYTE_FEE) &&
          tx_weight > get_transaction_weight_limit version then
        (false, { tvc with m_verifivation_failed := true, m_too_big := true }, p)
      else if !kept_by_block && tx.extra.length > MAX_TX_EXTRA_SIZE then
        (false, { tvc with
          m_verifivation_failed := true
          m_tx_extra_too_big := true
          m_no_drop_offense := true }, p)
      else if !kept_by_block && p.have_tx_keyimges_as_spent tx id then
        (false, { tvc with
          m_verifivation_failed := true
          m_double_spend := true
          m_no_drop_offense := true }, p.mark_double_spend tx)
      else
        let (outputs_ok, tvc) := bc.check_tx_outputs tx tvc
        if !outputs_ok then
          (false, { tvc with m_verifivation_failed := true, m_invalid_output := true }, p)
        else
          let (type_ok, tvc) := bc.check_tx_type_and_version tx tvc
          if !type_ok then (false, { tvc with m_verifivation_failed := true }, p)
          else
            -- assume failure during verification steps until success is certain
            let tvc := { tvc with m_verifivation_failed := true }
            let (ch_inp_res, max_used_block_height, max_used_block_id, tvc) :=
              bc.check_tx_inputs tx id kept_by_block tvc
            let added :=
              if !ch_inp_res then
                if kept_by_block then
                  p.add_tx_kept_by_block tx id tx_weight tvc tx_relay relayed fee now
                else .error ({ tvc with m_verifivation_failed := true, m_invalid_input := true }, p)
              else
                p.add_tx_main tx id tx_weight tvc tx_relay relayed fee max_used_block_height
                  max_used_block_id now forward_time
            match added with
            | .error (tvc, p) => (false, tvc, p)
            | .ok (tvc, p) =>
              let p := { p with m_txpool_weight := p.m_txpool_weight + tx_weight }
              (true, { tvc with m_verifivation_failed := false }, p.prune p.m_txpool_max_weight)


/-! ### Relaying -/

/-- One txid of `tx_memory_pool::set_relayed`: the row's relay method goes up to `method`, it is
marked relayed, and its last relay time is now, or the end of the embargo `embargo` drawn for a
stem transaction. A transaction that this call broadcasts gets a new time and sorted entry; a
write-back that throws is logged and leaves it not broadcast. The fee per byte divides by the
weight, which is never zero for a pooled transaction. -/
def set_relayed_tx (method : relay_method) (now embargo : UInt64) (p : tx_memory_pool)
    (hash : Crypto.Hash) : Bool × tx_memory_pool :=
  match p.txpool.get_txpool_tx_meta hash with
  | none => (false, p)
  | some tx_meta =>
    -- transactions can be received as stem or fluff in either order
    let already_broadcasted := tx_meta.matches .broadcasted
    let tx_meta := { (tx_meta.upgrade_relay_method method).2 with relayed := true }
    let tx_meta := { tx_meta with
      last_relayed_time := if tx_meta.dandelionpp_stem then now + embargo else now }
    match p.txpool.update_txpool_tx hash tx_meta with
    | .error _ => (false, p)
    | .ok db =>
      let p : tx_memory_pool := { p with txpool := db }
      if !already_broadcasted && tx_meta.matches .broadcasted then
        (true, p.add_tx_to_transient_lists hash (fee_per_byte.of tx_meta.fee tx_meta.weight) now now)
      else (false, p)

/-- `tx_memory_pool::set_relayed` over the txids in order, with the flags of those it broadcast;
`embargo` is the embargo drawn for each. -/
def set_relayed (method : relay_method) (now : UInt64) (embargo : Crypto.Hash → UInt64) :
    List Crypto.Hash → tx_memory_pool → tx_memory_pool × List Bool
  | [], p => (p, [])
  | hash :: hashes, p =>
    let (was_just_broadcasted, p) := set_relayed_tx method now (embargo hash) p hash
    let (p, just_broadcasted) := set_relayed method now embargo hashes p
    (p, was_just_broadcasted :: just_broadcasted)

/-! ### Re-validating -/

/-- The second half of one transaction of `tx_memory_pool::validate`: the transaction is added
back with its relay method and weight, and once added its metadata as it was is written back; a
write-back that throws leaves it not counted. -/
def validate_add_back (bc : Blockchain) (version : UInt8) (now forward_time : UInt64)
    (p : tx_memory_pool) (txid : Crypto.Hash) (tx_meta : txpool_tx_meta_t) (tx : transaction)
    (relayed : Bool) : Bool × tx_memory_pool :=
  let (ok, _, p) := p.add_tx bc tx txid tx_meta.weight tx_verification_context.zero
    tx_meta.get_relay_method relayed version now forward_time
  if !ok then (false, p)
  else
    match p.txpool.update_txpool_tx txid tx_meta with
    | .error _ => (false, p)
    | .ok db => (true, { p with txpool := db })

/-- One transaction of `tx_memory_pool::validate`: it is taken out of the pool and added back. A
take that fails is logged and the declared transaction is added in its place, with `relayed`,
which the take did not set, read as `false`. -/
def validate_tx (bc : Blockchain) (version : UInt8) (now forward_time : UInt64)
    (p : tx_memory_pool) (txid : Crypto.Hash) (tx_meta : txpool_tx_meta_t) :
    Bool × tx_memory_pool :=
  let (taken, p) := p.take_tx txid
  match taken with
  | some r => p.validate_add_back bc version now forward_time txid tx_meta r.tx r.relayed
  | none => p.validate_add_back bc version now forward_time txid tx_meta transaction.null false

/-- The loop of `validate` over the transactions it collected, counting those added back. -/
def validate_loop (bc : Blockchain) (version : UInt8) (now forward_time : UInt64) :
    List (Crypto.Hash × txpool_tx_meta_t) → tx_memory_pool × ℕ → tx_memory_pool × ℕ
  | [], r => r
  | (txid, tx_meta) :: txes, (p, added) =>
    let (ok, p) := validate_tx bc version now forward_time p txid tx_meta
    validate_loop bc version now forward_time txes (p, if ok then added + 1 else added)

/-- `tx_memory_pool::validate`: `m_added_txs_by_id` is thrown away, every transaction that is not
pruned is taken out and added back, and the count is of those that did not come back. -/
def validate (bc : Blockchain) (p : tx_memory_pool) (version : UInt8) (now forward_time : UInt64) :
    tx_memory_pool × ℕ :=
  let p := { p with m_added_txs_by_id := fun _ => none }
  -- the pruned transactions are skipped
  let txes := (p.txpool.entries.filter fun e => !e.tx_meta.pruned).map fun e => (e.txid, e.tx_meta)
  let (p, added) := validate_loop bc version now forward_time txes (p, 0)
  (p, txes.length - added)

end tx_memory_pool

end TxPool

end Salvium
