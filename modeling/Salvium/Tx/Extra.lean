import Mathlib
import Salvium.Basic

/-!
# Salvium — the fields of a transaction's extra

`extra` is a byte string of tagged fields (`tx_extra.h`). The coinbase code writes it only
through `add_tx_pub_key_to_extra`, `add_additional_tx_pub_keys_to_extra`,
`add_extra_nonce_to_tx_extra` and `sort_tx_extra`, and the block checks read it only through
`parse_tx_extra` and the lookups over the fields it returns. This module keeps `extra` as that
list of parsed fields: each writer appends the one field it serializes, and `sort_tx_extra`
re-emits the fields grouped by tag in the fixed order of its `pick` calls. The bytes are the
layer below, `Salvium.Tx.ExtraCodec`, which shows that this list is what `parse_tx_extra` reads
back from the bytes the writers produce, for every field but padding and for nonces of up to 127
bytes.

The readers' laws are the ones the protocol-transaction proofs use: sorting keeps the public
keys and the additional-key fields in their order, so neither lookup sees a difference, and a
field written into an extra without one of its kind is the one the lookup returns.
-/

namespace Salvium

def TX_EXTRA_TAG_PADDING : UInt8 := 0x00
def TX_EXTRA_TAG_PUBKEY : UInt8 := 0x01
def TX_EXTRA_NONCE : UInt8 := 0x02
def TX_EXTRA_MERGE_MINING_TAG : UInt8 := 0x03
def TX_EXTRA_TAG_ADDITIONAL_PUBKEYS : UInt8 := 0x04
def TX_EXTRA_MYSTERIOUS_MINERGATE_TAG : UInt8 := 0xDE
def TX_EXTRA_NONCE_MAX_COUNT : ℕ := 255

/-- `cryptonote::tx_extra_field`: one field of `extra` as `parse_tx_extra` returns it. -/
inductive tx_extra_field where
  | tx_extra_padding (size : ℕ)
  | tx_extra_pub_key (pub_key : Crypto.public_key)
  | tx_extra_nonce (nonce : List UInt8)
  | tx_extra_merge_mining_tag (depth : ℕ) (merkle_root : Crypto.Hash)
  | tx_extra_additional_pub_keys (data : List Crypto.public_key)
  | tx_extra_mysterious_minergate (data : List UInt8)
  deriving DecidableEq, Repr

namespace tx_extra_field

/-- The tag a field is serialized under (the `VARIANT_TAG`s of `tx_extra.h`). -/
def tag : tx_extra_field → UInt8
  | tx_extra_padding _ => TX_EXTRA_TAG_PADDING
  | tx_extra_pub_key _ => TX_EXTRA_TAG_PUBKEY
  | tx_extra_nonce _ => TX_EXTRA_NONCE
  | tx_extra_merge_mining_tag _ _ => TX_EXTRA_MERGE_MINING_TAG
  | tx_extra_additional_pub_keys _ => TX_EXTRA_TAG_ADDITIONAL_PUBKEYS
  | tx_extra_mysterious_minergate _ => TX_EXTRA_MYSTERIOUS_MINERGATE_TAG

/-- The key of a `tx_extra_pub_key` field. -/
def pub_key? : tx_extra_field → Option Crypto.public_key
  | tx_extra_pub_key k => some k
  | _ => none

/-- The keys of a `tx_extra_additional_pub_keys` field. -/
def additional_pub_keys? : tx_extra_field → Option (List Crypto.public_key)
  | tx_extra_additional_pub_keys ks => some ks
  | _ => none

/-- Only a field of tag `TX_EXTRA_TAG_PUBKEY` holds a public key. -/
theorem pub_key?_eq_none_of_tag {f : tx_extra_field} (h : f.tag ≠ TX_EXTRA_TAG_PUBKEY) :
    f.pub_key? = none := by
  cases f <;> first | rfl | exact absurd rfl h

/-- Only a field of tag `TX_EXTRA_TAG_ADDITIONAL_PUBKEYS` holds additional keys. -/
theorem additional_pub_keys?_eq_none_of_tag {f : tx_extra_field}
    (h : f.tag ≠ TX_EXTRA_TAG_ADDITIONAL_PUBKEYS) : f.additional_pub_keys? = none := by
  cases f <;> first | rfl | exact absurd rfl h

end tx_extra_field

open tx_extra_field

/-! ## Writers -/

/-- `add_tx_pub_key_to_extra`: appends a `TX_EXTRA_TAG_PUBKEY` field. -/
def add_tx_pub_key_to_extra (extra : List tx_extra_field) (tx_pub_key : Crypto.public_key) :
    List tx_extra_field :=
  extra ++ [tx_extra_pub_key tx_pub_key]

/-- `add_additional_tx_pub_keys_to_extra`: appends one field holding all the keys, also when
there are none. -/
def add_additional_tx_pub_keys_to_extra (extra : List tx_extra_field)
    (additional_pub_keys : List Crypto.public_key) : List tx_extra_field :=
  extra ++ [tx_extra_additional_pub_keys additional_pub_keys]

/-- `add_extra_nonce_to_tx_extra`: refuses a nonce over `TX_EXTRA_NONCE_MAX_COUNT` bytes. -/
def add_extra_nonce_to_tx_extra (extra : List tx_extra_field) (extra_nonce : List UInt8) :
    Option (List tx_extra_field) :=
  if extra_nonce.length ≤ TX_EXTRA_NONCE_MAX_COUNT then some (extra ++ [tx_extra_nonce extra_nonce])
  else none

/-- The tags in the order `sort_tx_extra` picks them. -/
def sort_tx_extra_order : List UInt8 :=
  [TX_EXTRA_TAG_PUBKEY, TX_EXTRA_TAG_ADDITIONAL_PUBKEYS, TX_EXTRA_NONCE, TX_EXTRA_MERGE_MINING_TAG,
    TX_EXTRA_MYSTERIOUS_MINERGATE_TAG, TX_EXTRA_TAG_PADDING]

/-- `sort_tx_extra`: every field of the first tag in `sort_tx_extra_order`, in their order, then
every field of the next tag, and so on. The source fails only on bytes that do not parse, which
a list of parsed fields never is. -/
def sort_tx_extra (extra : List tx_extra_field) : List tx_extra_field :=
  sort_tx_extra_order.flatMap fun t => extra.filter fun f => f.tag == t

/-! ## Readers -/

/-- `get_tx_pub_key_from_extra(extra, pk_index)`: the `pk_index`-th public-key field, or
`null_pkey` when there are fewer. -/
def get_tx_pub_key_from_extra (extra : List tx_extra_field) (pk_index : ℕ) : Crypto.public_key :=
  ((extra.filterMap pub_key?)[pk_index]?).getD Crypto.null_pkey

/-- `get_additional_tx_pub_keys_from_extra`: the keys of the first additional-keys field, or
none when there is no such field. -/
def get_additional_tx_pub_keys_from_extra (extra : List tx_extra_field) : List Crypto.public_key :=
  ((extra.filterMap additional_pub_keys?).head?).getD []

/-! ## Sorting keeps what the readers read -/

/-- Filtering on one tag and then reading `g` keeps all of `g`'s values when `g` reads only that
tag, and none otherwise. -/
theorem filterMap_filter_tag {β : Type} (g : tx_extra_field → Option β) (t u : UInt8)
    (hg : ∀ f, f.tag ≠ u → g f = none) (extra : List tx_extra_field) :
    (extra.filter fun f => f.tag == t).filterMap g = if t = u then extra.filterMap g else [] := by
  induction extra with
  | nil => split <;> rfl
  | cons f fs ih =>
    by_cases hf : f.tag = t
    · -- `f` survives the filter; it is read only if its tag is `u`
      have hkeep : (f.tag == t) = true := beq_iff_eq.mpr hf
      rw [List.filter_cons, if_pos hkeep, List.filterMap_cons, List.filterMap_cons, ih]
      split_ifs with htu
      · rfl
      · rw [hg f (hf ▸ htu)]
    · have hdrop : ¬(f.tag == t) = true := fun h => hf (beq_iff_eq.mp h)
      rw [List.filter_cons, if_neg hdrop, ih, List.filterMap_cons]
      split_ifs with htu
      · rw [hg f (htu ▸ hf)]
      · rfl

/-- `sort_tx_extra` reads the same through any reader of a single tag in its order. -/
theorem filterMap_sort_tx_extra {β : Type} (g : tx_extra_field → Option β) (u : UInt8)
    (hu : u ∈ sort_tx_extra_order) (hnodup : sort_tx_extra_order.Nodup)
    (hg : ∀ f, f.tag ≠ u → g f = none) (extra : List tx_extra_field) :
    (sort_tx_extra extra).filterMap g = extra.filterMap g := by
  rw [sort_tx_extra, List.filterMap_flatMap]
  simp only [filterMap_filter_tag g _ u hg]
  -- exactly one tag of the order is `u`
  obtain ⟨pre, post, hsplit⟩ := List.append_of_mem hu
  have hnodup' := hsplit ▸ hnodup
  have hpre : u ∉ pre := fun h => (List.nodup_append.mp hnodup').2.2 u h u (by simp) rfl
  have hpost : u ∉ post := ((List.nodup_cons.mp (List.nodup_append.mp hnodup').2.1).1)
  rw [hsplit, List.flatMap_append, List.flatMap_cons]
  have hzero : ∀ l : List UInt8, u ∉ l →
      (l.flatMap fun t => if t = u then extra.filterMap g else []) = [] := by
    intro l hl
    simp only [List.flatMap_eq_nil_iff, ite_eq_right_iff]
    intro t ht htu
    exact absurd (htu ▸ ht) hl
  rw [hzero pre hpre, hzero post hpost, if_pos rfl, List.nil_append, List.append_nil]

theorem sort_tx_extra_order_nodup : sort_tx_extra_order.Nodup := by decide

@[simp] theorem get_tx_pub_key_from_extra_sort (extra : List tx_extra_field) (pk_index : ℕ) :
    get_tx_pub_key_from_extra (sort_tx_extra extra) pk_index =
      get_tx_pub_key_from_extra extra pk_index := by
  rw [get_tx_pub_key_from_extra, get_tx_pub_key_from_extra,
    filterMap_sort_tx_extra pub_key? TX_EXTRA_TAG_PUBKEY (by decide) sort_tx_extra_order_nodup
      (fun _ => pub_key?_eq_none_of_tag)]

@[simp] theorem get_additional_tx_pub_keys_from_extra_sort (extra : List tx_extra_field) :
    get_additional_tx_pub_keys_from_extra (sort_tx_extra extra) =
      get_additional_tx_pub_keys_from_extra extra := by
  rw [get_additional_tx_pub_keys_from_extra, get_additional_tx_pub_keys_from_extra,
    filterMap_sort_tx_extra additional_pub_keys? TX_EXTRA_TAG_ADDITIONAL_PUBKEYS (by decide)
      sort_tx_extra_order_nodup (fun _ => additional_pub_keys?_eq_none_of_tag)]

/-! ## Reading back what was written -/

@[simp] theorem get_tx_pub_key_from_extra_nil (pk_index : ℕ) :
    get_tx_pub_key_from_extra [] pk_index = Crypto.null_pkey := rfl

@[simp] theorem get_additional_tx_pub_keys_from_extra_nil :
    get_additional_tx_pub_keys_from_extra [] = [] := rfl

/-- The first public key of an extra that had none is the one added. -/
theorem get_tx_pub_key_from_extra_add {extra : List tx_extra_field}
    (h : extra.filterMap pub_key? = []) (k : Crypto.public_key) :
    get_tx_pub_key_from_extra (add_tx_pub_key_to_extra extra k) 0 = k := by
  simp [get_tx_pub_key_from_extra, add_tx_pub_key_to_extra, h, pub_key?]

/-- The additional keys of an extra that had no such field are the ones added. -/
theorem get_additional_tx_pub_keys_from_extra_add {extra : List tx_extra_field}
    (h : extra.filterMap additional_pub_keys? = []) (ks : List Crypto.public_key) :
    get_additional_tx_pub_keys_from_extra (add_additional_tx_pub_keys_to_extra extra ks) = ks := by
  simp [get_additional_tx_pub_keys_from_extra, add_additional_tx_pub_keys_to_extra, h,
    additional_pub_keys?]

/-- A field that is no public key leaves the public-key lookup as it was. -/
theorem get_tx_pub_key_from_extra_append_of_none {extra : List tx_extra_field} {f : tx_extra_field}
    (hf : f.pub_key? = none) (pk_index : ℕ) :
    get_tx_pub_key_from_extra (extra ++ [f]) pk_index = get_tx_pub_key_from_extra extra pk_index := by
  simp [get_tx_pub_key_from_extra, List.filterMap_append, hf]

/-- A field that holds no additional keys leaves the additional-key lookup as it was. -/
theorem get_additional_tx_pub_keys_from_extra_append_of_none {extra : List tx_extra_field}
    {f : tx_extra_field} (hf : f.additional_pub_keys? = none) :
    get_additional_tx_pub_keys_from_extra (extra ++ [f]) =
      get_additional_tx_pub_keys_from_extra extra := by
  simp [get_additional_tx_pub_keys_from_extra, List.filterMap_append, hf]

end Salvium
