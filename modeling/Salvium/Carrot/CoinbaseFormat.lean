import Mathlib
import Salvium.Tx.Coinbase

/-!
# Salvium — reading a Carrot coinbase transaction back

`try_load_carrot_from_coinbase_transaction_v1` reads back what
`store_carrot_to_coinbase_transaction_v1` writes: the ephemeral keys from the extra, one per
output, and each enote from its output, with the block index of the input.

With a nonce of under 128 bytes, every non-empty list of enotes of the block whose ephemeral keys
are distinct, or a single enote, comes back as it was stored (`try_load_store_carrot_coinbase`).
Two enotes with one key do not: the writer shares the key, and the reader then has one key for
two outputs. A nonce of 128 to 255 bytes, which `add_extra_nonce_to_tx_extra` accepts, stops the
writer at the sort (`store_carrot_to_coinbase_transaction_v1_long`, and at one enote
`store_carrot_coinbase_long_nonce_throws`), so there is nothing to load.
-/

namespace Salvium

namespace Coinbase

open txout_target_v tx_extra_field

/-- `try_load_carrot_coinbase_enote_from_transaction_v1(tx, enote_ephemeral_pubkeys,
local_output_index)`: `none` is the source's `false`. -/
def try_load_carrot_coinbase_enote_from_transaction_v1 (tx : transaction)
    (enote_ephemeral_pubkeys : List Crypto.public_key) (local_output_index : ℕ) :
    Option CarrotCoinbaseEnoteV1 :=
  match tx.vin with
  | .txin_gen height :: _ => do
    let o ← tx.vout[local_output_index]?
    match o.target with
    | txout_to_carrot_v1 key asset_type view_tag encrypted_janus_anchor => do
      let enote_ephemeral_pubkey ← enote_ephemeral_pubkeys[local_output_index]?
      pure
        { onetime_address := key
          amount := o.amount
          asset_type := asset_type
          view_tag := view_tag
          anchor_enc := encrypted_janus_anchor
          block_index := UInt64.ofNat height
          enote_ephemeral_pubkey := enote_ephemeral_pubkey }
    | _ => none
  | _ => none

/-- `try_load_carrot_from_coinbase_transaction_v1(tx, enotes_out)`: the extra must give one
ephemeral key per output. -/
def try_load_carrot_from_coinbase_transaction_v1 (tx : transaction) :
    Option (List CarrotCoinbaseEnoteV1) := do
  let nouts := tx.vout.length
  let (enote_ephemeral_pubkeys, _) ← Carrot.try_load_carrot_extra_v1 tx.extra
  if enote_ephemeral_pubkeys.length ≠ nouts then none
  (List.range nouts).mapM fun i =>
    try_load_carrot_coinbase_enote_from_transaction_v1 tx enote_ephemeral_pubkeys i

/-- A loop over the indices of `l` that reads `l`'s elements gives `l`. -/
theorem mapM_range_of_getElem? {β : Type} :
    ∀ (l : List β) (f : ℕ → Option β), (∀ i < l.length, f i = l[i]?) →
      (List.range l.length).mapM f = some l
  | [], _, _ => rfl
  | a :: l, f, h => by
    have ih := mapM_range_of_getElem? l (f ∘ Nat.succ) fun i hi => by
      simpa using h (i + 1) (by simp only [List.length_cons]; omega)
    rw [List.length_cons, List.range_succ_eq_map, List.mapM_cons, List.mapM_map,
      h 0 (by simp), ih]
    rfl

/-! ## The keys in the extra -/

/-- **The keys come back.** From the sorted extra of the writer, with its nonce, the reader takes
every enote's key: the shared one for a single enote, and the additional keys when the keys are
distinct. -/
theorem try_load_carrot_ephemeral_pubkeys_from_extra_store {enotes : List CarrotCoinbaseEnoteV1}
    (hne : enotes ≠ []) (hkeys : enotes.length = 1 ∨ (enotes.map (·.enote_ephemeral_pubkey)).Nodup)
    (extra_nonce : List UInt8) :
    Carrot.try_load_carrot_ephemeral_pubkeys_from_extra (sort_tx_extra
        (store_carrot_ephemeral_pubkeys_to_extra enotes [] ++ [.tx_extra_nonce extra_nonce])) =
      some (enotes.map (·.enote_ephemeral_pubkey)) := by
  have hpub := filterMap_sort_tx_extra pub_key? TX_EXTRA_TAG_PUBKEY (by decide)
    sort_tx_extra_order_nodup (fun _ => pub_key?_eq_none_of_tag)
  have hadd := filterMap_sort_tx_extra additional_pub_keys? TX_EXTRA_TAG_ADDITIONAL_PUBKEYS
    (by decide) sort_tx_extra_order_nodup (fun _ => additional_pub_keys?_eq_none_of_tag)
  rw [store_carrot_ephemeral_pubkeys_to_extra_nil]
  obtain ⟨e, rest, rfl⟩ := List.exists_cons_of_ne_nil hne
  by_cases hs : Carrot.use_shared_ephemeral_pubkey (·.enote_ephemeral_pubkey) (e :: rest)
  · -- a shared key: two enotes would have to share it, so there is one
    have hrest : rest = [] := by
      rcases hs with h1 | ⟨h2, heq⟩
      · simpa using h1
      · obtain ⟨e', rfl⟩ : ∃ e', rest = [e'] := List.length_eq_one_iff.mp (by simpa using h2)
        rcases hkeys with h | h
        · simp at h
        · simp at heq h
          exact absurd heq h
    subst hrest
    apply Carrot.try_load_carrot_ephemeral_pubkeys_from_extra_shared
    rw [hpub]
    simp [Carrot.ephemeral_pubkeys_field, hs, pub_key?]
  · apply Carrot.try_load_carrot_ephemeral_pubkeys_from_extra_additional
    · rw [hpub]
      simp [Carrot.ephemeral_pubkeys_field, hs, pub_key?]
    · rw [hadd]
      simp [Carrot.ephemeral_pubkeys_field, hs, additional_pub_keys?]

/-! ## The round trip -/

/-- Each output of the writer's transaction loads back as the enote it was written from, when
that enote is of the transaction's block. -/
theorem try_load_carrot_coinbase_enote_store {enotes : List CarrotCoinbaseEnoteV1}
    {block_index : UInt64} {tx : transaction} (hvin : tx.vin = [.txin_gen block_index.toNat])
    (hvout : tx.vout = enotes.map fun e =>
      ⟨e.amount, txout_to_carrot_v1 e.onetime_address e.asset_type e.view_tag e.anchor_enc⟩)
    (hblock : ∀ e ∈ enotes, e.block_index = block_index) :
    ∀ i < enotes.length, try_load_carrot_coinbase_enote_from_transaction_v1 tx
      (enotes.map (·.enote_ephemeral_pubkey)) i = enotes[i]? := by
  intro i hi
  have hmem : enotes[i] ∈ enotes := List.getElem_mem hi
  rw [try_load_carrot_coinbase_enote_from_transaction_v1, hvin]
  simp only [hvout, List.getElem?_map, List.getElem?_eq_getElem hi, Option.map_some,
    Option.bind_eq_bind, Option.bind_some, UInt64.ofNat_toNat]
  -- the enote read is the one written, its block index being the transaction's
  have hb := hblock _ hmem
  generalize enotes[i] = e at hb ⊢
  subst hb
  rfl

/-- **What the Carrot coinbase writer stores loads back**, for a non-empty list of enotes of the
block whose keys are distinct (or a single enote), and a nonce of under 128 bytes. -/
theorem try_load_store_carrot_coinbase {enotes : List CarrotCoinbaseEnoteV1}
    {extra_nonce : List UInt8} {tx_type : transaction_type} {block_index : UInt64}
    (htype : tx_type = .MINER ∨ tx_type = .PROTOCOL) (hne : enotes ≠ [])
    (hkeys : enotes.length = 1 ∨ (enotes.map (·.enote_ephemeral_pubkey)).Nodup)
    (hblock : ∀ e ∈ enotes, e.block_index = block_index) (hlen : enotes.length < 2 ^ 64)
    (hn : extra_nonce.length < 0x80) :
    ∃ tx, store_carrot_to_coinbase_transaction_v1 enotes extra_nonce tx_type block_index = .ok tx ∧
      try_load_carrot_from_coinbase_transaction_v1 tx = some enotes := by
  rw [store_carrot_to_coinbase_transaction_v1_eq block_index htype hlen hn]
  refine ⟨_, rfl, ?_⟩
  have hload := try_load_carrot_ephemeral_pubkeys_from_extra_store hne hkeys extra_nonce
  rw [try_load_carrot_from_coinbase_transaction_v1]
  simp only [Carrot.try_load_carrot_extra_v1, hload, Option.pure_def, Option.bind_eq_bind,
    Option.bind_some, List.length_map, ne_eq, not_true_eq_false, if_false]
  apply mapM_range_of_getElem?
  exact try_load_carrot_coinbase_enote_store rfl rfl hblock

/-! ## A long nonce -/

/-- A miner's enote of testnet's block `1100`. -/
def blockEnote : CarrotCoinbaseEnoteV1 where
  onetime_address := ⟨Vector.replicate 32 0x55⟩
  amount := 16632080078
  asset_type := "SAL1"
  view_tag := ⟨Vector.replicate 3 1⟩
  anchor_enc := ⟨Vector.replicate 16 2⟩
  block_index := 1100
  enote_ephemeral_pubkey := ⟨Vector.replicate 32 7⟩

/-- Three enotes of block `1100` with distinct ephemeral pubkeys. -/
def blockEnotes : List CarrotCoinbaseEnoteV1 :=
  [blockEnote,
    { blockEnote with
      onetime_address := ⟨Vector.replicate 32 0x66⟩
      amount := 100
      enote_ephemeral_pubkey := ⟨Vector.replicate 32 8⟩ },
    { blockEnote with
      onetime_address := ⟨Vector.replicate 32 0x77⟩
      amount := 200
      enote_ephemeral_pubkey := ⟨Vector.replicate 32 9⟩ }]

/-- The three enotes of block `1100`, stored in a protocol transaction with an eight-byte nonce,
load back. -/
theorem try_load_store_carrot_coinbase_three :
    ∃ tx, store_carrot_to_coinbase_transaction_v1 blockEnotes [1, 2, 3, 4, 5, 6, 7, 8] .PROTOCOL
        1100 = .ok tx ∧
      try_load_carrot_from_coinbase_transaction_v1 tx = some blockEnotes :=
  try_load_store_carrot_coinbase (Or.inr rfl) (List.cons_ne_nil _ _) (Or.inr (by decide))
    (by decide) (by decide) (by decide)

/-- **A nonce the nonce writer accepts stops the Carrot coinbase writer.** The nonce of 128 zero
bytes is accepted by `add_extra_nonce_to_tx_extra` after any extra, and for the single enote of
block `1100` `store_carrot_to_coinbase_transaction_v1` then throws at the sort: there is no miner
transaction for `try_load_carrot_from_coinbase_transaction_v1` to load. -/
theorem store_carrot_coinbase_long_nonce_throws :
    (∀ tx_extra, (Blob.add_extra_nonce_to_tx_extra tx_extra (List.replicate 0x80 0)).isSome) ∧
      store_carrot_to_coinbase_transaction_v1 [blockEnote] (List.replicate 0x80 0) .MINER 1100 =
        .error "store_carrot_to_coinbase_transaction_v1: failed to sort tx_extra" := by
  have hmax : (List.replicate 0x80 (0 : UInt8)).length ≤ TX_EXTRA_NONCE_MAX_COUNT := by
    simp [TX_EXTRA_NONCE_MAX_COUNT]
  refine ⟨fun tx_extra => ?_, store_carrot_to_coinbase_transaction_v1_long 1100 (Or.inl rfl)
    (by decide) (by simp) hmax⟩
  rw [Blob.add_extra_nonce_to_tx_extra, if_pos hmax]
  rfl

end Coinbase

end Salvium
