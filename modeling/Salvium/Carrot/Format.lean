import Mathlib
import Salvium.Tx.ExtraCodec

/-!
# Salvium — where Carrot keeps the ephemeral keys (`carrot_impl/format_utils.cpp`)

A Carrot transaction keeps each enote's ephemeral key `D_e` in its extra. The writer stores one
shared `tx_pub_key` for one output, or for two outputs with equal keys, and an additional-keys
field holding every key otherwise (`store_carrot_ephemeral_pubkeys_to_extra`, over the bytes).
The reader takes the `tx_pub_key` when there is one and the additional keys otherwise
(`try_load_carrot_ephemeral_pubkeys_from_extra`, over the parsed fields), and the encrypted
payment id from the first nonce (`try_load_carrot_extra_v1`).

The writer's bytes are the archive's bytes of one field (`store_carrot_ephemeral_pubkeys_to_extra_eq`),
and the reader gives back the keys the writer stored: the shared one, or all of them
(`try_load_carrot_ephemeral_pubkeys_from_extra_shared`, `_additional`).
-/

namespace Salvium

namespace Carrot

open tx_extra_field

variable {α : Type}

/-- Whether the writer shares one key: one enote, or two whose keys are equal. -/
def use_shared_ephemeral_pubkey (enote_ephemeral_pubkey : α → Crypto.public_key)
    (enotes : List α) : Prop :=
  enotes.length = 1 ∨ (enotes.length = 2 ∧
    enotes.head?.map enote_ephemeral_pubkey = enotes.getLast?.map enote_ephemeral_pubkey)

instance (enote_ephemeral_pubkey : α → Crypto.public_key) (enotes : List α) :
    Decidable (use_shared_ephemeral_pubkey enote_ephemeral_pubkey enotes) := by
  unfold use_shared_ephemeral_pubkey
  infer_instance

/-- `store_carrot_ephemeral_pubkeys_to_extra(enotes, extra_inout)`, for enotes of any type whose
ephemeral key is `enote_ephemeral_pubkey`: nothing for no enotes, the first key as the
`tx_pub_key` when it is shared, all the keys as additional keys otherwise. -/
def store_carrot_ephemeral_pubkeys_to_extra (enote_ephemeral_pubkey : α → Crypto.public_key)
    (enotes : List α) (extra_inout : List UInt8) : Except String (List UInt8) :=
  match enotes with
  | [] => pure extra_inout
  | e :: _ =>
    if use_shared_ephemeral_pubkey enote_ephemeral_pubkey enotes then
      pure (Blob.add_tx_pub_key_to_extra extra_inout (enote_ephemeral_pubkey e))
    else
      match Blob.add_additional_tx_pub_keys_to_extra extra_inout
          (enotes.map enote_ephemeral_pubkey) with
      | some extra => pure extra
      | none => throw "add carrot ephemeral pubkeys to extra: failed to add tx_extra fields"

/-- The field the writer stores for `enotes`, when there are any. -/
def ephemeral_pubkeys_field (enote_ephemeral_pubkey : α → Crypto.public_key) (enotes : List α) :
    List tx_extra_field :=
  match enotes with
  | [] => []
  | e :: _ =>
    if use_shared_ephemeral_pubkey enote_ephemeral_pubkey enotes then
      [tx_extra_pub_key (enote_ephemeral_pubkey e)]
    else [tx_extra_additional_pub_keys (enotes.map enote_ephemeral_pubkey)]

theorem ephemeral_pubkeys_field_round_trips (enote_ephemeral_pubkey : α → Crypto.public_key)
    {enotes : List α} (hlen : enotes.length < 2 ^ 64) :
    ∀ f ∈ ephemeral_pubkeys_field enote_ephemeral_pubkey enotes, f.round_trips := by
  cases enotes with
  | nil => simp [ephemeral_pubkeys_field]
  | cons e rest =>
    unfold ephemeral_pubkeys_field
    split_ifs
    · simp [tx_extra_field.round_trips]
    · simpa [tx_extra_field.round_trips] using hlen

/-- **The writer's bytes** are the archive's bytes of its field, after what was there. -/
theorem store_carrot_ephemeral_pubkeys_to_extra_eq (enote_ephemeral_pubkey : α → Crypto.public_key)
    (enotes : List α) (extra_inout : List UInt8) :
    ∃ bytes, write_tx_extra_fields (ephemeral_pubkeys_field enote_ephemeral_pubkey enotes) =
        some bytes ∧
      store_carrot_ephemeral_pubkeys_to_extra enote_ephemeral_pubkey enotes extra_inout =
        .ok (extra_inout ++ bytes) := by
  cases enotes with
  | nil => exact ⟨[], rfl, by simp [store_carrot_ephemeral_pubkeys_to_extra, pure, Except.pure]⟩
  | cons e rest =>
    by_cases hs : use_shared_ephemeral_pubkey enote_ephemeral_pubkey (e :: rest)
    · refine ⟨TX_EXTRA_TAG_PUBKEY :: (enote_ephemeral_pubkey e).data.toList ++ [], ?_, ?_⟩
      · rw [ephemeral_pubkeys_field, if_pos hs]
        rfl
      · simp [store_carrot_ephemeral_pubkeys_to_extra, hs, Blob.add_tx_pub_key_to_extra, pure,
          Except.pure]
    · -- the additional-keys field writes whatever the number of keys
      obtain ⟨b, hb⟩ : ∃ b, write_tx_extra_field
          (tx_extra_additional_pub_keys ((e :: rest).map enote_ephemeral_pubkey)) = some b :=
        ⟨_, rfl⟩
      refine ⟨b, ?_, ?_⟩
      · rw [ephemeral_pubkeys_field, if_neg hs, write_tx_extra_fields, hb]
        simp
      · rw [store_carrot_ephemeral_pubkeys_to_extra, if_neg hs,
          Blob.add_additional_tx_pub_keys_to_extra, hb]
        rfl

/-! ## Reading the keys back -/

/-- `try_load_carrot_ephemeral_pubkeys_from_extra`: `find_tx_extra_field_by_type` takes the first
field of a type, the `tx_pub_key` first. -/
def try_load_carrot_ephemeral_pubkeys_from_extra (extra_fields : List tx_extra_field) :
    Option (List Crypto.public_key) :=
  match (extra_fields.filterMap pub_key?).head? with
  | some tx_pubkey => some [tx_pubkey]
  | none => (extra_fields.filterMap additional_pub_keys?).head?

/-- `try_load_carrot_extra_v1` over the parsed fields: the ephemeral keys, and the encrypted
payment id when the first nonce holds one. -/
def try_load_carrot_extra_v1 (tx_extra_fields : List tx_extra_field) :
    Option (List Crypto.public_key × Option Crypto.hash8) := do
  let enote_ephemeral_pubkeys ← try_load_carrot_ephemeral_pubkeys_from_extra tx_extra_fields
  let encrypted_payment_id :=
    ((tx_extra_fields.filterMap nonce?).head?).bind Blob.get_encrypted_payment_id_from_tx_extra_nonce
  pure (enote_ephemeral_pubkeys, encrypted_payment_id)

/-- With a shared key the reader finds it, whatever other fields without keys there are. -/
theorem try_load_carrot_ephemeral_pubkeys_from_extra_shared {fields : List tx_extra_field}
    {key : Crypto.public_key} (h : fields.filterMap pub_key? = [key]) :
    try_load_carrot_ephemeral_pubkeys_from_extra fields = some [key] := by
  rw [try_load_carrot_ephemeral_pubkeys_from_extra, h]
  rfl

/-- Without a `tx_pub_key` the reader takes the keys of the first additional-keys field. -/
theorem try_load_carrot_ephemeral_pubkeys_from_extra_additional {fields : List tx_extra_field}
    {keys : List Crypto.public_key} (hpub : fields.filterMap pub_key? = [])
    (hadd : fields.filterMap additional_pub_keys? = [keys]) :
    try_load_carrot_ephemeral_pubkeys_from_extra fields = some keys := by
  rw [try_load_carrot_ephemeral_pubkeys_from_extra, hpub, hadd]
  rfl

end Carrot

end Salvium
