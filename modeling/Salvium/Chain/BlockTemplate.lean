import Mathlib
import Salvium.Config
import Salvium.Chain.Miner
import Salvium.Chain.TxPoolValidate

/-!
# Salvium — filling a block template from the pool

`tx_memory_pool::fill_block_template` (`cryptonote_core/tx_pool.cpp`) chooses the transactions
of a new block. It walks the sorted container from the highest fee per byte down and takes a
transaction when its row is public (`relay_category::legacy`, or a stem transaction when the
node mines those), not pruned, fits under the weight cap, from v5 does not lower the coinbase
(before v5 the walk stops once the block is past the median weight), is ready to go
(`is_transaction_ready_to_go`, which may write the row's check fields back), spends no key
image a transaction already taken spends, and has the transaction version of its era. The
walk reads the chain through `BlockchainReads`.

What the template keeps is proved over every pool that keeps its books
(`fill_block_template_spec`): the chosen transactions are pooled rows in the container's order,
pairwise spend no common key image, their weight is the template's, under the cap, and their fees
are its fee; from v5 the reward it expects is the block reward at its weight plus its fees; and
the pool keeps its books.
-/

namespace Salvium

namespace TxPool

open Coinbase (get_block_reward)

/-! ## The reward threshold -/

/-- `(float)x` for an integer `x`: the nearest value with 24 significant bits, ties to even, as
the conversion of a `uint64_t` to `float` rounds. -/
def to_float32 (x : ℕ) : ℕ :=
  if x < 2 ^ 24 then x
  else
    let e := Nat.log2 x - 23
    let q := x / 2 ^ e
    let r := x % 2 ^ e
    if 2 * r > 2 ^ e ∨ (2 * r = 2 ^ e ∧ q % 2 = 1) then (q + 1) * 2 ^ e else q * 2 ^ e

/-- `template_accept_threshold`: `amount * ACCEPT_THRESHOLD` with `ACCEPT_THRESHOLD = 1.0f`. The
product is a `float`, whose product by one is exact, converted back to `uint64_t`; the amount is
rounded on the way in. -/
def template_accept_threshold (amount : UInt64) : UInt64 :=
  UInt64.ofNat (to_float32 amount.toNat)

/-! ## What the template reads of the chain -/

/-- The reads of `cryptonote::Blockchain` that `fill_block_template` makes besides the inputs'
check, which comes from the pool's `Blockchain`: the height, the block ids, and whether the
chain has spent a key image of a transaction. -/
structure BlockchainReads extends Blockchain where
  get_current_blockchain_height : UInt64
  get_block_id_by_height : UInt64 → Crypto.Hash
  have_tx_keyimges_as_spent : transaction → Bool

/-- `tx_memory_pool::is_transaction_ready_to_go`: whether the transaction can go in a block now,
with the row's metadata as the check leaves it (the highest block its inputs use, the last
failure, a double spend seen). A transaction checked before is checked again unless it failed at
the same block. -/
def is_transaction_ready_to_go (bc : BlockchainReads) (txd : txpool_tx_meta_t)
    (txid : Crypto.Hash) (tx : transaction) : Bool × txpool_tx_meta_t :=
  let height := bc.get_current_blockchain_height
  -- `check_tx_inputs` writes the highest block the inputs use; a failure records the top block
  let check (txd : txpool_tx_meta_t) : Bool × txpool_tx_meta_t :=
    let (ok, max_used_block_height, max_used_block_id, _) :=
      bc.check_tx_inputs tx txid false tx_verification_context.zero
    let txd := { txd with
      max_used_block_height := max_used_block_height
      max_used_block_id := max_used_block_id }
    if !ok then
      let last_failed_height := height - 1
      (false, { txd with
        last_failed_height := last_failed_height
        last_failed_id := bc.get_block_id_by_height last_failed_height })
    else (true, txd)
  let (ok, txd) :=
    if txd.max_used_block_id = Crypto.null_hash then
      if txd.last_failed_id ≠ Crypto.null_hash && height > txd.last_failed_height &&
          txd.last_failed_id = bc.get_block_id_by_height txd.last_failed_height then (false, txd)
      else check txd
    else if txd.max_used_block_height ≥ height then (false, txd)
    else if txd.last_failed_id = bc.get_block_id_by_height txd.last_failed_height then (false, txd)
    else check txd
  if !ok then (false, txd)
  -- the chain may have spent a key image since
  else if bc.have_tx_keyimges_as_spent tx then (false, { txd with double_spend_seen := true })
  else (true, txd)

/-- `tx_memory_pool::have_key_images`: a key image of the transaction is in the set; the walk
stops with `false` at an input that is not a key input. -/
def have_key_images (k_images : List key_image) : List txin_v → Bool
  | [] => false
  | .txin_to_key _ k_image :: vin =>
    if k_images.contains k_image then true else have_key_images k_images vin
  | _ :: _ => false

/-- `tx_memory_pool::append_key_images`: the key images go into the set; an input that is not a
key input, or a key image there already, stops the walk with `false`. -/
def append_key_images : List txin_v → List key_image → Bool × List key_image
  | [], k_images => (true, k_images)
  | .txin_to_key _ k_image :: vin, k_images =>
    if k_images.contains k_image then (false, k_images)
    else append_key_images vin (k_image :: k_images)
  | _ :: _, k_images => (false, k_images)

/-! ## The walk -/

/-- What `fill_block_template` hands back: the block's transactions and what they add up to. -/
structure block_template where
  tx_hashes : List Crypto.Hash
  total_weight : UInt64
  fee : UInt64
  expected_reward : UInt64
  deriving DecidableEq, Repr

/-- The variables of the walk, and the table it writes the checks back to. -/
structure fill_state where
  tx_hashes : List Crypto.Hash
  total_weight : UInt64
  fee : UInt64
  best_coinbase : UInt64
  coinbase : UInt64
  k_images : List key_image
  txpool : txpool_table

/-- The end of one step of the walk, for a row that fits and keeps the coinbase: the readiness
check, its write-back, and the checks on the key images and the version; a transaction that
passes them all is taken. -/
def add_candidate (bc : BlockchainReads) (version : UInt8) (s : fill_state) (e : txpool_entry) :
    fill_state :=
  let tx := e.blob
  let (ready, tx_meta) := is_transaction_ready_to_go bc e.tx_meta e.txid tx
  -- a failed write-back is logged and the walk goes on
  let txpool :=
    if tx_meta ≠ e.tx_meta then
      match s.txpool.update_txpool_tx e.txid tx_meta with
      | .ok db => db
      | .error _ => s.txpool
    else s.txpool
  let s := { s with txpool := txpool }
  if !ready then s
  else if have_key_images s.k_images tx.vin then s
  else if version < HF_VERSION_CARROT && tx.version ≥ TRANSACTION_VERSION_CARROT then s
  else if version ≥ HF_VERSION_CARROT && tx.version < TRANSACTION_VERSION_CARROT then s
  else
    { s with
      tx_hashes := s.tx_hashes ++ [e.txid]
      total_weight := s.total_weight + tx_meta.weight
      fee := s.fee + tx_meta.fee
      best_coinbase := s.coinbase
      k_images := (append_key_images tx.vin s.k_images).2 }

/-- The loop of `fill_block_template` over the sorted container. -/
def fill_block_template_loop (bc : BlockchainReads) (m_mine_stem_txes : Bool)
    (median_weight already_generated_coins max_total_weight : UInt64) (version : UInt8) :
    List tx_by_fee_and_receive_time_entry → fill_state → fill_state
  | [], s => s
  | it :: its, s =>
    let loop := fill_block_template_loop bc m_mine_stem_txes median_weight
      already_generated_coins max_total_weight version its
    match s.txpool.find it.txid with
    | none => loop s
    | some e =>
      let tx_meta := e.tx_meta
      if version == HF_VERSION_SHUTDOWN_USER_TXS then loop s
      else if !tx_meta.matches .legacy &&
          !(m_mine_stem_txes && tx_meta.get_relay_method == .stem) then loop s
      else if tx_meta.pruned then loop s
      else if max_total_weight < s.total_weight + tx_meta.weight then loop s
      else if version ≥ 5 then
        -- a transaction that would lower the coinbase is skipped
        match get_block_reward median_weight (s.total_weight + tx_meta.weight)
            already_generated_coins version with
        | none => loop s
        | some block_reward =>
          let s := { s with coinbase := block_reward + s.fee + tx_meta.fee }
          if s.coinbase < template_accept_threshold s.best_coinbase then loop s
          else loop (add_candidate bc version s e)
      -- before v5 the walk stops once the block is past the median
      else if s.total_weight > median_weight then s
      else loop (add_candidate bc version s e)

/-- `tx_memory_pool::fill_block_template`: the template and the table with the checks written
back; `none` when the reward of an empty block fails. -/
def fill_block_template (bc : BlockchainReads) (p : tx_memory_pool) (m_mine_stem_txes : Bool)
    (median_weight already_generated_coins : UInt64) (version : UInt8) :
    Option (block_template × txpool_table) :=
  match get_block_reward median_weight 0 already_generated_coins version with
  | none => none
  | some best_coinbase =>
    let max_total_weight_pre_v5 := 130 * median_weight / 100 - CRYPTONOTE_COINBASE_BLOB_RESERVED_SIZE
    let max_total_weight_v5 := 2 * median_weight - CRYPTONOTE_COINBASE_BLOB_RESERVED_SIZE
    let max_total_weight := if version ≥ 5 then max_total_weight_v5 else max_total_weight_pre_v5
    let s := fill_block_template_loop bc m_mine_stem_txes median_weight already_generated_coins
      max_total_weight version p.m_txs_by_fee_and_receive_time
      ⟨[], 0, 0, best_coinbase, 0, [], p.txpool⟩
    some (⟨s.tx_hashes, s.total_weight, s.fee, s.best_coinbase⟩, s.txpool)

/-! ## What one step writes -/

section step

/-- The fields of a row the walk reads and never writes. -/
def template_view (e : txpool_entry) :
    Crypto.Hash × transaction × UInt64 × UInt64 × Bool × relay_method :=
  (e.txid, e.blob, e.tx_meta.weight, e.tx_meta.fee, e.tx_meta.pruned, e.tx_meta.get_relay_method)

/-- `is_transaction_ready_to_go` writes the check fields of the metadata and no other. -/
theorem is_transaction_ready_to_go_frame (bc : BlockchainReads) (txd : txpool_tx_meta_t)
    (txid : Crypto.Hash) (tx : transaction) :
    ∃ h i fh fi ds, (is_transaction_ready_to_go bc txd txid tx).2 =
      { txd with
        max_used_block_height := h
        max_used_block_id := i
        last_failed_height := fh
        last_failed_id := fi
        double_spend_seen := ds } := by
  unfold is_transaction_ready_to_go
  dsimp only
  split_ifs <;> exact ⟨_, _, _, _, _, rfl⟩

/-- A metadata the readiness check leaves reads the same to the walk. -/
theorem template_view_ready (bc : BlockchainReads) (e : txpool_entry) :
    template_view { e with tx_meta := (is_transaction_ready_to_go bc e.tx_meta e.txid e.blob).2 } =
      template_view e := by
  obtain ⟨h, i, fh, fi, ds, heq⟩ := is_transaction_ready_to_go_frame bc e.tx_meta e.txid e.blob
  rw [heq]
  rfl

/-- The write-back of the readiness check changes the row of the txid alone, and nothing the
walk reads of it. -/
theorem write_back_view (bc : BlockchainReads) {t : txpool_table} {e : txpool_entry}
    (he : e ∈ t.entries) :
    let tx_meta := (is_transaction_ready_to_go bc e.tx_meta e.txid e.blob).2
    let db := if tx_meta ≠ e.tx_meta then
        match t.update_txpool_tx e.txid tx_meta with
        | .ok db => db
        | .error _ => t
      else t
    db.entries.map template_view = t.entries.map template_view ∧
      ∀ r ∈ db.entries, r.txid ≠ e.txid → r ∈ t.entries := by
  intro tx_meta db
  by_cases hne : tx_meta ≠ e.tx_meta
  · have hdb : db = match t.update_txpool_tx e.txid tx_meta with
        | .ok db => db
        | .error _ => t := if_pos hne
    split at hdb
    · next db' hupd =>
      rw [hdb, txpool_table.entries_update_txpool_tx hupd, List.map_map]
      constructor
      · -- the row rewritten is `e`, which reads the same
        apply List.map_congr_left
        intro r hr
        by_cases hrt : r.txid = e.txid
        · rw [t.eq_of_txid_eq hr he hrt]
          simp only [Function.comp_apply]
          exact template_view_ready bc e
        · simp [hrt]
      · intro r hr hrt
        obtain ⟨r', hr', rfl⟩ := List.mem_map.mp hr
        by_cases h' : r'.txid = e.txid
        · simp [h'] at hrt
        · simpa [h'] using hr'
    · rw [hdb]
      exact ⟨rfl, fun r hr _ => hr⟩
  · have hdb : db = t := if_neg hne
    rw [hdb]
    exact ⟨rfl, fun r hr _ => hr⟩

/-- For key inputs, `have_key_images` is `false` exactly when none of their key images is in the
set. -/
theorem have_key_images_eq_false_iff {k_images : List key_image} {vin : List txin_v}
    (hto : ∀ txin ∈ vin, ∃ a k, txin = .txin_to_key a k) :
    have_key_images k_images vin = false ↔ ∀ k ∈ key_images_of vin, k ∉ k_images := by
  induction vin with
  | nil => simp [have_key_images]
  | cons txin vin ih =>
    obtain ⟨a, k, rfl⟩ := hto txin List.mem_cons_self
    rw [key_images_of_to_key, List.forall_mem_cons, ← ih fun t ht => hto t (List.mem_cons_of_mem _ ht)]
    by_cases hk : k ∈ k_images <;> simp [have_key_images, hk]

/-- Key images that are distinct and not in the set all go in. -/
theorem mem_append_key_images {vin : List txin_v} {k_images : List key_image}
    (hto : ∀ txin ∈ vin, ∃ a k, txin = .txin_to_key a k) (hnd : (key_images_of vin).Nodup)
    (hfresh : ∀ k ∈ key_images_of vin, k ∉ k_images) (k : key_image) :
    k ∈ (append_key_images vin k_images).2 ↔ k ∈ key_images_of vin ∨ k ∈ k_images := by
  induction vin generalizing k_images with
  | nil => simp [append_key_images]
  | cons txin vin ih =>
    obtain ⟨a, k₀, rfl⟩ := hto txin List.mem_cons_self
    rw [key_images_of_to_key, List.nodup_cons] at hnd
    rw [key_images_of_to_key] at hfresh
    have hk₀ : k_images.contains k₀ = false := by
      simpa using hfresh k₀ List.mem_cons_self
    simp only [append_key_images, hk₀, Bool.false_eq_true, if_false]
    -- the rest goes into the set grown by `k₀`, which none of it is
    rw [ih (fun t ht => hto t (List.mem_cons_of_mem _ ht)) hnd.2, key_images_of_to_key,
      List.mem_cons, List.mem_cons]
    · tauto
    · intro k' hk' hmem
      rcases List.mem_cons.mp hmem with rfl | hmem
      · exact hnd.1 hk'
      · exact hfresh k' (List.mem_cons_of_mem _ hk') hmem

end step

/-! ## The walk's invariant -/

section walk

variable {δ : ℕ} {lost : List Crypto.Hash} {p : tx_memory_pool} {bc : BlockchainReads} {m_mine_stem_txes : Bool}
  {median_weight already_generated_coins max_total_weight : UInt64} {version : UInt8}

/-- What a chosen row has passed: the walk's tests on its metadata and its version, and the
readiness check against the chain. -/
def chosen (bc : BlockchainReads) (m_mine_stem_txes : Bool) (version : UInt8) (e : txpool_entry) :
    Prop :=
  version ≠ HF_VERSION_SHUTDOWN_USER_TXS ∧
    (e.tx_meta.matches .legacy = true ∨
      (m_mine_stem_txes = true ∧ e.tx_meta.get_relay_method = .stem)) ∧
    e.tx_meta.pruned = false ∧
    (is_transaction_ready_to_go bc e.tx_meta e.txid e.blob).1 = true ∧
    (version < HF_VERSION_CARROT → e.blob.version < TRANSACTION_VERSION_CARROT) ∧
    (HF_VERSION_CARROT ≤ version → TRANSACTION_VERSION_CARROT ≤ e.blob.version)

/-- The walk's invariant, with the rows of the pool it has chosen so far. -/
structure TemplateInv (p : tx_memory_pool) (bc : BlockchainReads) (m_mine_stem_txes : Bool)
    (median_weight already_generated_coins max_total_weight : UInt64) (version : UInt8)
    (rows : List txpool_entry) (s : fill_state) : Prop where
  /-- the write-backs change nothing the walk reads -/
  view : s.txpool.entries.map template_view = p.txpool.entries.map template_view
  rows_mem : ∀ e ∈ rows, e ∈ p.txpool.entries
  hashes : s.tx_hashes = rows.map (·.txid)
  nodup : (rows.map (·.txid)).Nodup
  chosen : ∀ e ∈ rows, chosen bc m_mine_stem_txes version e
  /-- the set holds the key images of the chosen rows -/
  keys : ∀ k, k ∈ s.k_images ↔ ∃ e ∈ rows, k ∈ key_images_of e.blob.vin
  disjoint : rows.Pairwise fun a b => (key_images_of a.blob.vin).Disjoint (key_images_of b.blob.vin)
  weight : s.total_weight.toNat = (rows.map (·.tx_meta.weight.toNat)).sum
  cap : (rows.map (·.tx_meta.weight.toNat)).sum ≤ max_total_weight.toNat
  fee : s.fee = (rows.map (·.tx_meta.fee)).sum
  /-- from v5 the best coinbase is the reward at the weight, plus the fees -/
  reward : 5 ≤ version → ∃ r, get_block_reward median_weight s.total_weight already_generated_coins
    version = some r ∧ s.best_coinbase = r + s.fee

/-- The walk starts from the invariant with no row chosen. -/
theorem TemplateInv.init {best_coinbase : UInt64}
    (hbest : 5 ≤ version →
      get_block_reward median_weight 0 already_generated_coins version = some best_coinbase) :
    TemplateInv p bc m_mine_stem_txes median_weight already_generated_coins max_total_weight
      version [] ⟨[], 0, 0, best_coinbase, 0, [], p.txpool⟩ where
  view := rfl
  rows_mem := by simp
  hashes := rfl
  nodup := List.nodup_nil
  chosen := by simp
  keys := by simp
  disjoint := List.Pairwise.nil
  weight := rfl
  cap := Nat.zero_le _
  fee := rfl
  reward h := ⟨best_coinbase, hbest h, (add_zero _).symm⟩

/-- A table that reads the same to the walk leaves the pool's books as they are. -/
theorem tx_memory_pool.PoolBook.with_txpool (hp : tx_memory_pool.PoolBook δ lost p)
    {db : txpool_table}
    (hview : db.entries.map template_view = p.txpool.entries.map template_view) :
    tx_memory_pool.PoolBook δ lost { p with txpool := db } := by
  -- the bookkeeping's view of a row is a part of the walk's
  have hpooled : db.entries.map txpool_entry.pooled = p.txpool.entries.map txpool_entry.pooled := by
    have h := congrArg (List.map fun v : Crypto.Hash × transaction × UInt64 × UInt64 × Bool ×
      relay_method => (⟨v.1, v.2.1, v.2.2.1⟩ : pooled_tx)) hview
    simp only [List.map_map, Function.comp_def, template_view] at h
    exact h
  exact hp.of_pooled_eq hpooled

/-- Distinct rows of a pool that keeps its books weigh less than `2 ^ 64` together. -/
theorem tx_memory_pool.PoolBook.sum_weight_lt (hp : tx_memory_pool.PoolBook δ lost p)
    {rows : List txpool_entry}
    (hnd : rows.Nodup) (hsub : ∀ e ∈ rows, e ∈ p.txpool.entries) :
    (rows.map (·.tx_meta.weight.toNat)).sum < 2 ^ 64 := by
  obtain ⟨l, hperm, hsl⟩ := hnd.subperm hsub
  have hle : (rows.map (·.tx_meta.weight.toNat)).sum ≤ (p.pooled.map (·.weight.toNat)).sum := by
    rw [← (hperm.map _).sum_eq]
    calc (l.map (·.tx_meta.weight.toNat)).sum
        ≤ (p.txpool.entries.map (·.tx_meta.weight.toNat)).sum :=
          (hsl.map _).sum_le_sum fun _ _ => Nat.zero_le _
      _ = (p.pooled.map (·.weight.toNat)).sum := by
          simp [tx_memory_pool.pooled, txpool_entry.pooled, List.map_map, Function.comp_def]
  have hw := hp.weight
  have hlt := p.m_txpool_weight.toNat_lt
  omega

/-- A write-back that changes nothing the walk reads keeps the invariant. -/
theorem TemplateInv.with_txpool {rows : List txpool_entry} {s : fill_state}
    (hinv : TemplateInv p bc m_mine_stem_txes median_weight already_generated_coins
      max_total_weight version rows s) {db : txpool_table}
    (hview : db.entries.map template_view = s.txpool.entries.map template_view) :
    TemplateInv p bc m_mine_stem_txes median_weight already_generated_coins max_total_weight
      version rows { s with txpool := db } :=
  { hinv with view := hview.trans hinv.view }

/-- The trial coinbase is not part of the invariant. -/
theorem TemplateInv.with_coinbase {rows : List txpool_entry} {s : fill_state}
    (hinv : TemplateInv p bc m_mine_stem_txes median_weight already_generated_coins
      max_total_weight version rows s) (coinbase : UInt64) :
    TemplateInv p bc m_mine_stem_txes median_weight already_generated_coins max_total_weight
      version rows { s with coinbase := coinbase } :=
  { hinv with }

/-- Taking a fresh row that passed every test, fits, and spends no key image the set holds keeps
the invariant. -/
theorem TemplateInv.take (hp : tx_memory_pool.PoolBook δ lost p) {rows : List txpool_entry}
    {s : fill_state}
    (hinv : TemplateInv p bc m_mine_stem_txes median_weight already_generated_coins
      max_total_weight version rows s)
    {e : txpool_entry} (hep : e ∈ p.txpool.entries) (hnew : e.txid ∉ rows.map (·.txid))
    (hch : TxPool.chosen bc m_mine_stem_txes version e)
    (hkeys : have_key_images s.k_images e.blob.vin = false)
    (hcap : ¬ max_total_weight < s.total_weight + e.tx_meta.weight)
    (hreward : 5 ≤ version → ∃ r, get_block_reward median_weight (s.total_weight + e.tx_meta.weight)
      already_generated_coins version = some r ∧ s.coinbase = r + s.fee + e.tx_meta.fee) :
    TemplateInv p bc m_mine_stem_txes median_weight already_generated_coins max_total_weight
      version (rows ++ [e]) { s with
        tx_hashes := s.tx_hashes ++ [e.txid]
        total_weight := s.total_weight + e.tx_meta.weight
        fee := s.fee + e.tx_meta.fee
        best_coinbase := s.coinbase
        k_images := (append_key_images e.blob.vin s.k_images).2 } := by
  have hin : check_inputs_types_supported e.blob = true ∧ (key_images_of e.blob.vin).Nodup :=
    hp.inputs e.pooled (List.mem_map_of_mem hep)
  have hto := forall_to_key_of_check hin.1
  have hfresh := (have_key_images_eq_false_iff hto).mp hkeys
  have hnodup : ((rows ++ [e]).map (·.txid)).Nodup := by
    rw [List.map_append, List.nodup_append]
    refine ⟨hinv.nodup, by simp, ?_⟩
    simp only [List.mem_map, List.mem_singleton]
    rintro _ ⟨a, ha, rfl⟩ _ ⟨_, rfl, rfl⟩ h
    exact hnew (h ▸ List.mem_map_of_mem ha)
  have hmem : ∀ r ∈ rows ++ [e], r ∈ p.txpool.entries :=
    List.forall_mem_append.mpr ⟨hinv.rows_mem, by simpa using hep⟩
  -- the chosen rows are distinct rows of the pool, so their weights do not wrap
  have hlt := hp.sum_weight_lt hnodup.of_map hmem
  have hsum : (s.total_weight + e.tx_meta.weight).toNat =
      ((rows ++ [e]).map (·.tx_meta.weight.toNat)).sum := by
    simp only [List.map_append, List.sum_append, List.map_singleton, List.sum_singleton] at hlt ⊢
    rw [UInt64.toNat_add, hinv.weight, Nat.mod_eq_of_lt hlt]
  refine ⟨hinv.view, hmem, ?_, hnodup, ?_, ?_, ?_, hsum, ?_, ?_, ?_⟩
  · simp [hinv.hashes]
  · exact List.forall_mem_append.mpr ⟨hinv.chosen, by simpa using hch⟩
  · intro k
    rw [mem_append_key_images hto hin.2 hfresh, hinv.keys]
    simp only [List.mem_append, List.mem_singleton]
    constructor
    · rintro (hk | ⟨r, hr, hk⟩)
      · exact ⟨e, .inr rfl, hk⟩
      · exact ⟨r, .inl hr, hk⟩
    · rintro ⟨r, hr | rfl, hk⟩
      · exact .inr ⟨r, hr, hk⟩
      · exact .inl hk
  · -- a chosen row shares no key image with `e`, whose key images are not in the set
    refine List.pairwise_append.mpr ⟨hinv.disjoint, List.pairwise_singleton _ _, ?_⟩
    intro a ha b hb k hka hkb
    rw [List.mem_singleton.mp hb] at hkb
    exact hfresh k hkb ((hinv.keys k).mpr ⟨a, ha, hka⟩)
  · rw [← hsum]
    exact UInt64.le_iff_toNat_le.mp (UInt64.not_lt.mp hcap)
  · simp [hinv.fee]
  · intro h5
    obtain ⟨r, hr, hcoin⟩ := hreward h5
    exact ⟨r, hr, by rw [hcoin, add_assoc]⟩

/-- A candidate that passed the walk's tests on its row: the table changes in that row alone, and
the invariant holds with the row chosen or not. -/
theorem TemplateInv.add_candidate (hp : tx_memory_pool.PoolBook δ lost p) {rows : List txpool_entry}
    {s : fill_state}
    (hinv : TemplateInv p bc m_mine_stem_txes median_weight already_generated_coins
      max_total_weight version rows s)
    {e : txpool_entry} (hes : e ∈ s.txpool.entries) (hep : e ∈ p.txpool.entries)
    (hnew : e.txid ∉ rows.map (·.txid)) (hv5 : version ≠ HF_VERSION_SHUTDOWN_USER_TXS)
    (hpub : e.tx_meta.matches .legacy = true ∨
      (m_mine_stem_txes = true ∧ e.tx_meta.get_relay_method = .stem))
    (hpruned : e.tx_meta.pruned = false)
    (hcap : ¬ max_total_weight < s.total_weight + e.tx_meta.weight)
    (hreward : 5 ≤ version → ∃ r, get_block_reward median_weight (s.total_weight + e.tx_meta.weight)
      already_generated_coins version = some r ∧ s.coinbase = r + s.fee + e.tx_meta.fee) :
    (∀ r ∈ (TxPool.add_candidate bc version s e).txpool.entries, r.txid ≠ e.txid →
        r ∈ s.txpool.entries) ∧
      (TemplateInv p bc m_mine_stem_txes median_weight already_generated_coins max_total_weight
          version rows (TxPool.add_candidate bc version s e) ∧
          (TxPool.add_candidate bc version s e).tx_hashes = s.tx_hashes ∨
        TemplateInv p bc m_mine_stem_txes median_weight already_generated_coins max_total_weight
          version (rows ++ [e]) (TxPool.add_candidate bc version s e) ∧
          (TxPool.add_candidate bc version s e).tx_hashes = s.tx_hashes ++ [e.txid]) := by
  obtain ⟨hwb_view, hwb_rows⟩ := write_back_view bc hes
  obtain ⟨h, i, fh, fi, ds, hmeta⟩ := is_transaction_ready_to_go_frame bc e.tx_meta e.txid e.blob
  unfold TxPool.add_candidate
  dsimp only
  rcases hr : is_transaction_ready_to_go bc e.tx_meta e.txid e.blob with ⟨ready, tx_meta⟩
  rw [hr] at hwb_view hwb_rows hmeta
  dsimp only at hwb_view hwb_rows hmeta ⊢
  generalize (if tx_meta ≠ e.tx_meta then
      match s.txpool.update_txpool_tx e.txid tx_meta with
      | .ok db => db
      | .error _ => s.txpool
    else s.txpool) = db at hwb_view hwb_rows ⊢
  subst hmeta
  have hinv' := hinv.with_txpool hwb_view
  refine ⟨?_, ?_⟩
  · -- every branch keeps the table `db`
    intro r hr' hrt
    refine hwb_rows r ?_ hrt
    split_ifs at hr' <;> exact hr'
  · split_ifs with h_ready h_keys h_pre h_post
    · exact .inl ⟨hinv', rfl⟩
    · exact .inl ⟨hinv', rfl⟩
    · exact .inl ⟨hinv', rfl⟩
    · exact .inl ⟨hinv', rfl⟩
    · refine .inr ⟨hinv'.take hp hep hnew ?_ (by simpa using h_keys) hcap hreward, rfl⟩
      exact ⟨hv5, hpub, hpruned, by simpa [hr] using h_ready, by simpa using h_pre,
        by simpa using h_post⟩

/-- The walk keeps the invariant: each row of the container is skipped or taken, and what it takes
is a sublist of the container's txids. The rows of the txids still to come are the pool's, and
none of those txids is taken yet. -/
theorem TemplateInv.loop (hp : tx_memory_pool.PoolBook δ lost p)
    (its : List tx_by_fee_and_receive_time_entry) (hnd : (its.map (·.txid)).Nodup) :
    ∀ {rows : List txpool_entry} {s : fill_state},
      TemplateInv p bc m_mine_stem_txes median_weight already_generated_coins max_total_weight
        version rows s →
      (∀ r ∈ s.txpool.entries, r.txid ∈ its.map (·.txid) → r ∈ p.txpool.entries) →
      (∀ x ∈ its, x.txid ∉ rows.map (·.txid)) →
      ∃ rows', TemplateInv p bc m_mine_stem_txes median_weight already_generated_coins
          max_total_weight version rows' (fill_block_template_loop bc m_mine_stem_txes
            median_weight already_generated_coins max_total_weight version its s) ∧
        ∃ l, l.Sublist (its.map (·.txid)) ∧ rows'.map (·.txid) = rows.map (·.txid) ++ l := by
  induction its with
  | nil =>
    intro rows s hinv _ _
    exact ⟨rows, hinv, [], .slnil, by simp⟩
  | cons it its ih =>
    intro rows s hinv hfresh hnew
    rw [List.map_cons, List.nodup_cons] at hnd
    simp only [List.map_cons, List.mem_cons] at hfresh
    -- what follows a row skipped, or taken or not by `add_candidate`
    have rest : ∀ {rows' : List txpool_entry} {s' : fill_state} {l₀ : List Crypto.Hash},
        TemplateInv p bc m_mine_stem_txes median_weight already_generated_coins max_total_weight
          version rows' s' →
        (∀ r ∈ s'.txpool.entries, r.txid ∈ its.map (·.txid) → r ∈ p.txpool.entries) →
        (∀ x ∈ its, x.txid ∉ rows'.map (·.txid)) → l₀.Sublist [it.txid] →
        rows'.map (·.txid) = rows.map (·.txid) ++ l₀ →
        ∃ rows'', TemplateInv p bc m_mine_stem_txes median_weight already_generated_coins
            max_total_weight version rows'' (fill_block_template_loop bc m_mine_stem_txes
              median_weight already_generated_coins max_total_weight version its s') ∧
          ∃ l, l.Sublist ((it :: its).map (·.txid)) ∧
            rows''.map (·.txid) = rows.map (·.txid) ++ l := by
      intro rows' s' l₀ hinv' hfresh' hnew' hl₀ heq
      obtain ⟨rows'', hinv'', l, hl, heq'⟩ := ih hnd.2 hinv' hfresh' hnew'
      refine ⟨rows'', hinv'', l₀ ++ l, ?_, by rw [heq', heq, List.append_assoc]⟩
      rw [List.map_cons, ← List.singleton_append]
      exact hl₀.append hl
    have skip : ∀ {s' : fill_state}, TemplateInv p bc m_mine_stem_txes median_weight
        already_generated_coins max_total_weight version rows s' → s'.txpool = s.txpool →
        ∃ rows', TemplateInv p bc m_mine_stem_txes median_weight already_generated_coins
            max_total_weight version rows' (fill_block_template_loop bc m_mine_stem_txes
              median_weight already_generated_coins max_total_weight version its s') ∧
          ∃ l, l.Sublist ((it :: its).map (·.txid)) ∧ rows'.map (·.txid) = rows.map (·.txid) ++ l := by
      intro s' hinv' htx
      exact rest hinv' (fun r hr hrt => hfresh r (htx ▸ hr) (.inr hrt))
        (fun x hx => hnew x (.tail _ hx)) (List.nil_sublist _) (List.append_nil _).symm
    have take : ∀ {s' : fill_state} {e : txpool_entry}, TemplateInv p bc m_mine_stem_txes
        median_weight already_generated_coins max_total_weight version rows s' →
        s'.txpool = s.txpool → e ∈ s.txpool.entries → e.txid = it.txid →
        version ≠ HF_VERSION_SHUTDOWN_USER_TXS →
        (e.tx_meta.matches .legacy = true ∨
          (m_mine_stem_txes = true ∧ e.tx_meta.get_relay_method = .stem)) →
        e.tx_meta.pruned = false → ¬ max_total_weight < s'.total_weight + e.tx_meta.weight →
        (5 ≤ version → ∃ r, get_block_reward median_weight (s'.total_weight + e.tx_meta.weight)
          already_generated_coins version = some r ∧ s'.coinbase = r + s'.fee + e.tx_meta.fee) →
        ∃ rows', TemplateInv p bc m_mine_stem_txes median_weight already_generated_coins
            max_total_weight version rows' (fill_block_template_loop bc m_mine_stem_txes
              median_weight already_generated_coins max_total_weight version its
              (TxPool.add_candidate bc version s' e)) ∧
          ∃ l, l.Sublist ((it :: its).map (·.txid)) ∧ rows'.map (·.txid) = rows.map (·.txid) ++ l := by
      intro s' e hinv' htx hes heid hv5 hpub hpruned hcap hreward
      have hes' : e ∈ s'.txpool.entries := htx ▸ hes
      have hep : e ∈ p.txpool.entries := hfresh e hes (.inl heid)
      have hnew_e : e.txid ∉ rows.map (·.txid) := heid ▸ hnew it List.mem_cons_self
      obtain ⟨hframe, hcases⟩ :=
        hinv'.add_candidate hp hes' hep hnew_e hv5 hpub hpruned hcap hreward
      -- the rows of the later txids are not `e`'s, so the write-back left them
      have hfresh' : ∀ r ∈ (TxPool.add_candidate bc version s' e).txpool.entries,
          r.txid ∈ its.map (·.txid) → r ∈ p.txpool.entries := by
        intro r hr hrt
        have hne : r.txid ≠ e.txid := fun h => hnd.1 (heid ▸ h ▸ hrt)
        exact hfresh r (htx ▸ hframe r hr hne) (.inr hrt)
      rcases hcases with ⟨hinv'', -⟩ | ⟨hinv'', -⟩
      · exact rest hinv'' hfresh' (fun x hx => hnew x (.tail _ hx)) (List.nil_sublist _)
          (List.append_nil _).symm
      · refine rest hinv'' hfresh' ?_ (.refl _) (by rw [List.map_append, List.map_singleton, heid])
        intro x hx hmem
        rw [List.map_append, List.mem_append] at hmem
        rcases hmem with hmem | hmem
        · exact hnew x (.tail _ hx) hmem
        · -- `e`'s txid is the head's, which the rest does not repeat
          rw [List.map_singleton, List.mem_singleton, heid] at hmem
          exact hnd.1 (hmem ▸ List.mem_map_of_mem hx)
    rw [fill_block_template_loop]
    rcases hfind : s.txpool.find it.txid with _ | e
    · exact skip hinv rfl
    · obtain ⟨hes, heid⟩ := (s.txpool.find_eq_some_iff).mp hfind
      dsimp only
      split_ifs with h_v5 h_pub h_pruned h_cap h_ge5 h_median
      · exact skip hinv rfl
      · exact skip hinv rfl
      · exact skip hinv rfl
      · exact skip hinv rfl
      · -- from v5 the reward at the new weight decides
        rcases hreward : get_block_reward median_weight (s.total_weight + e.tx_meta.weight)
          already_generated_coins version with _ | block_reward
        · exact skip hinv rfl
        · dsimp only
          split_ifs with h_low
          · exact skip (hinv.with_coinbase _) rfl
          · exact take (hinv.with_coinbase (block_reward + s.fee + e.tx_meta.fee)) rfl hes heid
              (by simpa using h_v5) (or_iff_not_imp_left.mpr (by simpa using h_pub))
              (by simpa using h_pruned) h_cap
              (fun _ => ⟨block_reward, hreward, rfl⟩)
      · exact ⟨rows, hinv, [], List.nil_sublist _, by simp⟩
      · exact take hinv rfl hes heid (by simpa using h_v5)
          (or_iff_not_imp_left.mpr (by simpa using h_pub)) (by simpa using h_pruned) h_cap
          (fun h => absurd h h_ge5)

/-- The result of `fill_block_template`, read through the walk's invariant: the state the walk
ends in, the rows it chose, and that these come in the sorted container's order. -/
theorem TemplateInv.of_fill_block_template (hp : tx_memory_pool.PoolBook δ lost p)
    {t : block_template} {db : txpool_table}
    (h : fill_block_template bc p m_mine_stem_txes median_weight already_generated_coins version =
      some (t, db)) :
    ∃ rows s, TemplateInv p bc m_mine_stem_txes median_weight already_generated_coins
        (if version ≥ 5 then 2 * median_weight - CRYPTONOTE_COINBASE_BLOB_RESERVED_SIZE
          else 130 * median_weight / 100 - CRYPTONOTE_COINBASE_BLOB_RESERVED_SIZE) version rows s ∧
      s.tx_hashes.Sublist (p.m_txs_by_fee_and_receive_time.map (·.txid)) ∧
      t = ⟨s.tx_hashes, s.total_weight, s.fee, s.best_coinbase⟩ ∧ db = s.txpool := by
  unfold fill_block_template at h
  rcases hbest : get_block_reward median_weight 0 already_generated_coins version with
    _ | best_coinbase
  · rw [hbest] at h
    cases h
  rw [hbest] at h
  simp only [Option.some.injEq, Prod.mk.injEq] at h
  obtain ⟨rfl, rfl⟩ := h
  -- the sorted container lists each pooled txid once
  have hnd : (p.m_txs_by_fee_and_receive_time.map (·.txid)).Nodup :=
    hp.sorted.nodup_iff.mpr p.txpool.nodup
  obtain ⟨rows, hinv, l, hl, hrows⟩ := TemplateInv.loop hp _ hnd
    (TemplateInv.init (fun _ => hbest)) (fun r hr _ => hr) (fun _ _ => by simp)
  refine ⟨rows, _, hinv, ?_, rfl, rfl⟩
  rw [hinv.hashes, hrows]
  simpa using hl

/-- What `fill_block_template` hands back, over every pool that keeps its books: the chosen rows
are pooled rows that passed every test, in the sorted container's order; no two spend a common key
image; the template's weight is theirs and under the cap, its fee is their fees, and from v5 the
reward it expects is the block reward at its weight plus its fees. The checks it writes back
leave the pool's books. -/
theorem fill_block_template_spec (hp : tx_memory_pool.PoolBook δ lost p) {t : block_template}
    {db : txpool_table}
    (h : fill_block_template bc p m_mine_stem_txes median_weight already_generated_coins version =
      some (t, db)) :
    ∃ rows : List txpool_entry,
      (∀ e ∈ rows, e ∈ p.txpool.entries ∧ TxPool.chosen bc m_mine_stem_txes version e) ∧
      t.tx_hashes = rows.map (·.txid) ∧
      t.tx_hashes.Sublist (p.m_txs_by_fee_and_receive_time.map (·.txid)) ∧
      rows.Pairwise (fun a b => (key_images_of a.blob.vin).Disjoint (key_images_of b.blob.vin)) ∧
      t.total_weight.toNat = (rows.map (·.tx_meta.weight.toNat)).sum ∧
      t.total_weight ≤ (if version ≥ 5 then 2 * median_weight - CRYPTONOTE_COINBASE_BLOB_RESERVED_SIZE
        else 130 * median_weight / 100 - CRYPTONOTE_COINBASE_BLOB_RESERVED_SIZE) ∧
      t.fee = (rows.map (·.tx_meta.fee)).sum ∧
      (5 ≤ version → ∃ r, get_block_reward median_weight t.total_weight already_generated_coins
        version = some r ∧ t.expected_reward = r + t.fee) ∧
      tx_memory_pool.PoolBook δ lost { p with txpool := db } := by
  obtain ⟨rows, s, hinv, hsub, rfl, rfl⟩ := TemplateInv.of_fill_block_template hp h
  exact ⟨rows, fun e he => ⟨hinv.rows_mem e he, hinv.chosen e he⟩, hinv.hashes, hsub,
    hinv.disjoint, hinv.weight, UInt64.le_iff_toNat_le.mpr (hinv.weight ▸ hinv.cap), hinv.fee,
    hinv.reward, hp.with_txpool hinv.view⟩

/-- The checks `fill_block_template` writes back keep the pool's books. -/
theorem tx_memory_pool.PoolBook.fill_block_template (hp : tx_memory_pool.PoolBook δ lost p)
    {t : block_template} {db : txpool_table}
    (h : TxPool.fill_block_template bc p m_mine_stem_txes median_weight already_generated_coins
      version = some (t, db)) :
    tx_memory_pool.PoolBook δ lost { p with txpool := db } := by
  obtain ⟨rows, s, hinv, -, -, rfl⟩ := TemplateInv.of_fill_block_template hp h
  exact hp.with_txpool hinv.view

/-- A chain at height 5 that accepts every input and has spent none of the key images. -/
def bc_reads : BlockchainReads :=
  { tx_memory_pool.bc_accept with
    get_current_blockchain_height := 5
    get_block_id_by_height := fun _ => Crypto.null_hash
    have_tx_keyimges_as_spent := fun _ => false }

/-- A transaction with the given fee that spends the key image `1…1`. -/
def spend_tx (fee : UInt64) : transaction :=
  ⟨2, .TRANSFER, [.txin_to_key 0 ⟨Vector.replicate 32 1⟩], [], [], fee, false⟩

/-- Two transactions that spend the same key image: txid `2…2` with a fee of 4000000 arrives
fluffed, then txid `3…3` with a fee of 5000000 comes back from a popped block, and the pool keeps
both. -/
def conflict_pool : tx_memory_pool :=
  let p := (tx_memory_pool.empty.add_tx tx_memory_pool.bc_accept (spend_tx 4000000)
    ⟨Vector.replicate 32 2⟩ 1500 tx_verification_context.zero .fluff false 10 100 100).2.2
  (p.add_tx tx_memory_pool.bc_accept (spend_tx 5000000) ⟨Vector.replicate 32 3⟩ 1500
    tx_verification_context.zero .block false 10 100 100).2.2

theorem conflict_pool_books : tx_memory_pool.PoolBook 0 [] conflict_pool :=
  (tx_memory_pool.PoolBook.empty.add_tx_of_not_mem _ (by decide) (by decide) (by decide) _
    _).add_tx_of_not_mem _ (by decide) (by decide) (by decide) _ _

/-- At v6 the walk takes the higher fee first and skips the other transaction, whose key image the
block already spends; the reward it expects is the block reward at the block's weight plus the
fee it took. -/
theorem fill_block_template_conflict :
    conflict_pool.txpool.txids = [⟨Vector.replicate 32 2⟩, ⟨Vector.replicate 32 3⟩] ∧
      ∃ t db, fill_block_template bc_reads conflict_pool false 300000 1000 6 = some (t, db) ∧
        t.tx_hashes = [⟨Vector.replicate 32 3⟩] ∧ t.fee = 5000000 ∧
        get_block_reward 300000 t.total_weight 1000 6 = some (t.expected_reward - t.fee) ∧
        tx_memory_pool.PoolBook 0 [] { conflict_pool with txpool := db } := by
  obtain ⟨⟨t, db⟩, h⟩ : ∃ r, fill_block_template bc_reads conflict_pool false 300000 1000 6 =
      some r :=
    Option.isSome_iff_exists.mp (by decide)
  obtain ⟨rows, -, -, -, -, -, -, -, hreward, hbooks⟩ := fill_block_template_spec conflict_pool_books h
  obtain ⟨r, hr, hexp⟩ := hreward (by decide)
  have ht : (fill_block_template bc_reads conflict_pool false 300000 1000 6).map
      (fun r => (r.1.tx_hashes, r.1.fee)) = some ([⟨Vector.replicate 32 3⟩], 5000000) := by
    decide
  rw [h] at ht
  obtain ⟨hhashes, hfee⟩ := Prod.mk.inj (Option.some.inj ht)
  refine ⟨by decide, t, db, h, hhashes, hfee, ?_, hbooks⟩
  rw [hexp, UInt64.add_sub_cancel]
  exact hr

end walk

end TxPool

end Salvium
