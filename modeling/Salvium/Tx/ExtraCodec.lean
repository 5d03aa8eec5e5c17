import Mathlib
import Salvium.Tx.Extra
import Salvium.Serialization.BinaryArchive

/-!
# Salvium — the bytes of a transaction's extra

`Salvium.Tx.Extra` keeps `extra` as the list of fields `parse_tx_extra` returns. This module is
the layer below it: `extra` as the bytes the source keeps, the field serializers of
`tx_extra.h` in both directions, the loop `parse_tx_extra` and `sort_tx_extra` share, and the
byte writers of `cryptonote_format_utils.cpp` (module namespace `Blob`).

Every field but padding reads back as itself wherever it stands
(`read_tx_extra_field_write`), so a list of such fields parses to itself
(`parse_tx_extra_write`), and `sort_tx_extra` of its bytes is the bytes of the field-level
`Salvium.sort_tx_extra` (`sort_tx_extra_write`): the field model is the parsed view of this one.

The byte writers agree with the field writers except in one place. `add_extra_nonce_to_tx_extra`
accepts a nonce of up to `TX_EXTRA_NONCE_MAX_COUNT = 255` bytes and writes its length as one raw
byte, while the reader takes the length as a varint, whose bytes from `0x80` on are continuation
bytes. Up to 127 bytes the two are the same (`add_extra_nonce_to_tx_extra_eq_write`); from 128 on
the nonce no longer reads, so a `sort_tx_extra` over it fails
(`add_extra_nonce_to_tx_extra_long`).
-/

namespace Salvium

open tx_extra_field

def TX_EXTRA_PADDING_MAX_COUNT : ℕ := 255
def TX_EXTRA_NONCE_ENCRYPTED_PAYMENT_ID : UInt8 := 0x01

/-- `crypto::hash8`: an 8-byte value, here the encrypted payment id. -/
structure Crypto.hash8 where
  data : Vector UInt8 8
  deriving DecidableEq, Repr

/-- The nonce of a `tx_extra_nonce` field. -/
def tx_extra_field.nonce? : tx_extra_field → Option (List UInt8)
  | tx_extra_nonce nonce => some nonce
  | _ => none

/-! ## Reading fields -/

namespace binary_archive

/-- The load loop of `tx_extra_padding`. `size` counts the tag, so at the end of the bytes it
stops with at most `TX_EXTRA_PADDING_MAX_COUNT - 1` zeros read; a non-zero byte, or one zero
more, fails. -/
def read_tx_extra_padding (size : ℕ) (good : Bool) : List UInt8 → Option (ℕ × binary_archive)
  | [] => if size ≤ TX_EXTRA_PADDING_MAX_COUNT then some (size, ⟨[], good⟩) else none
  | zero :: rest =>
    if size ≤ TX_EXTRA_PADDING_MAX_COUNT then
      if zero ≠ 0 then none else read_tx_extra_padding (size + 1) good rest
    else none

/-- `tx_extra_pub_key`: `FIELD(pub_key)`, a 32-byte blob that must leave the stream good. -/
def read_tx_extra_pub_key (ar : binary_archive) : Option (Crypto.public_key × binary_archive) :=
  let (pub_key, ar) := ar.serialize_pod 32
  if ar.good then some (⟨pub_key⟩, ar) else none

/-- `tx_extra_nonce`: `FIELD(nonce)`, then the `TX_EXTRA_NONCE_MAX_COUNT` check. -/
def read_tx_extra_nonce (ar : binary_archive) : Option (List UInt8 × binary_archive) := do
  let (nonce, ar) ← ar.read_string
  if !ar.good then none
  else if TX_EXTRA_NONCE_MAX_COUNT < nonce.length then none
  else some (nonce, ar)

/-- `tx_extra_merge_mining_tag`, load half: a string, read again by an archive of its own as a
varint depth and a 32-byte root, which `serialization::serialize` then asks to be used up. The
outer stream state is not checked. -/
def read_tx_extra_merge_mining_tag (ar : binary_archive) :
    Option ((ℕ × Crypto.Hash) × binary_archive) := do
  let (field, ar) ← ar.read_string
  let (depth, iar) := (binary_archive.mk field true).serialize_varint 64
  if !iar.good then none
  else
    let (merkle_root, iar) := iar.serialize_pod 32
    if !iar.good then none
    else if !iar.eof then none
    else some ((depth, ⟨merkle_root⟩), ar)

/-- The elements of `do_serialize_container` for a vector of public keys, each of which must
leave the stream good. -/
def read_public_keys : ℕ → binary_archive → Option (List Crypto.public_key × binary_archive)
  | 0, ar => some ([], ar)
  | n + 1, ar =>
    let (key, ar) := ar.serialize_pod 32
    if !ar.good then none
    else (read_public_keys n ar).map fun (keys, ar) => (⟨key⟩ :: keys, ar)

/-- `tx_extra_additional_pub_keys`: `FIELD(data)` with `do_serialize_container`, a count, the
sanity check that at least that many bytes remain, then the keys. -/
def read_tx_extra_additional_pub_keys (ar : binary_archive) :
    Option (List Crypto.public_key × binary_archive) :=
  let (cnt, ar) := ar.serialize_varint 64
  if !ar.good then none
  else if ar.remaining_bytes < cnt then none
  else read_public_keys cnt ar

/-- `tx_extra_mysterious_minergate`: `FIELD(data)`, a string. -/
def read_tx_extra_mysterious_minergate (ar : binary_archive) :
    Option (List UInt8 × binary_archive) := do
  let (data, ar) ← ar.read_string
  if !ar.good then none else some (data, ar)

/-- `do_serialize` of a `tx_extra_field` (`serialization/variant.h`): the tag byte, then the
alternative with that `VARIANT_TAG`. An unknown tag fails. -/
def read_tx_extra_field (ar : binary_archive) : Option (tx_extra_field × binary_archive) :=
  let (tag, ar) := ar.serialize_uint8
  if tag = TX_EXTRA_TAG_PADDING then
    (read_tx_extra_padding 1 ar.good ar.bytes).map fun r => (tx_extra_padding r.1, r.2)
  else if tag = TX_EXTRA_TAG_PUBKEY then
    (read_tx_extra_pub_key ar).map fun r => (tx_extra_pub_key r.1, r.2)
  else if tag = TX_EXTRA_NONCE then
    (read_tx_extra_nonce ar).map fun r => (tx_extra_nonce r.1, r.2)
  else if tag = TX_EXTRA_MERGE_MINING_TAG then
    (read_tx_extra_merge_mining_tag ar).map fun r => (tx_extra_merge_mining_tag r.1.1 r.1.2, r.2)
  else if tag = TX_EXTRA_TAG_ADDITIONAL_PUBKEYS then
    (read_tx_extra_additional_pub_keys ar).map fun r => (tx_extra_additional_pub_keys r.1, r.2)
  else if tag = TX_EXTRA_MYSTERIOUS_MINERGATE_TAG then
    (read_tx_extra_mysterious_minergate ar).map fun r => (tx_extra_mysterious_minergate r.1, r.2)
  else none

/-! ### Every read leaves a suffix -/

/-- A reader's result mapped on its value keeps its archive. -/
theorem exists_of_map_eq_some {α β : Type} {r : Option (α × binary_archive)} {g : α → β}
    {b : β} {ar' : binary_archive} (h : (r.map fun x => (g x.1, x.2)) = some (b, ar')) :
    ∃ a, r = some (a, ar') := by
  obtain ⟨⟨a, ar⟩, hr, heq⟩ := Option.map_eq_some_iff.mp h
  cases heq
  exact ⟨a, hr⟩

theorem length_serialize_varint (ar : binary_archive) (bits : ℕ) :
    (ar.serialize_varint bits).2.bytes.length ≤ ar.bytes.length :=
  length_read_varint_loop bits ar.bytes 0 0 0

theorem length_serialize_pod (ar : binary_archive) (n : ℕ) :
    (ar.serialize_pod n).2.bytes.length ≤ ar.bytes.length := by
  simp [serialize_pod, serialize_blob]

theorem length_read_string {ar ar' : binary_archive} {s : List UInt8}
    (h : ar.read_string = some (s, ar')) : ar'.bytes.length ≤ ar.bytes.length := by
  rcases hsize : ar.serialize_varint 64 with ⟨size, ar₁⟩
  rw [read_string, hsize] at h
  dsimp only at h
  split_ifs at h
  cases h
  have hle := length_serialize_varint ar 64
  rw [hsize] at hle
  simpa [serialize_blob] using (Nat.sub_le _ _).trans hle

theorem read_tx_extra_padding_bytes {size : ℕ} {good : Bool} :
    ∀ {bytes : List UInt8} {n : ℕ} {ar' : binary_archive},
      read_tx_extra_padding size good bytes = some (n, ar') → ar'.bytes = []
  | [], _, _, h => by
    rw [read_tx_extra_padding] at h
    split_ifs at h
    cases h
    rfl
  | _ :: _, _, _, h => by
    rw [read_tx_extra_padding] at h
    split_ifs at h
    exact read_tx_extra_padding_bytes h

theorem length_read_public_keys :
    ∀ (n : ℕ) {ar ar' : binary_archive} {keys : List Crypto.public_key},
      read_public_keys n ar = some (keys, ar') → ar'.bytes.length ≤ ar.bytes.length
  | 0, _, _, _, h => by
    cases h
    exact le_refl _
  | n + 1, ar, _, _, h => by
    rcases hpod : ar.serialize_pod 32 with ⟨key, ar₁⟩
    rw [read_public_keys, hpod] at h
    dsimp only at h
    split_ifs at h
    obtain ⟨⟨keys, ar₂⟩, hrest, heq⟩ := Option.map_eq_some_iff.mp h
    cases heq
    have hle := length_serialize_pod ar 32
    rw [hpod] at hle
    exact (length_read_public_keys n hrest).trans hle

theorem length_read_tx_extra_pub_key {ar ar' : binary_archive} {k : Crypto.public_key}
    (h : read_tx_extra_pub_key ar = some (k, ar')) : ar'.bytes.length ≤ ar.bytes.length := by
  rcases hpod : ar.serialize_pod 32 with ⟨pub_key, ar₁⟩
  rw [read_tx_extra_pub_key, hpod] at h
  dsimp only at h
  split_ifs at h
  cases h
  have hle := length_serialize_pod ar 32
  rwa [hpod] at hle

theorem length_read_tx_extra_nonce {ar ar' : binary_archive} {nonce : List UInt8}
    (h : read_tx_extra_nonce ar = some (nonce, ar')) : ar'.bytes.length ≤ ar.bytes.length := by
  rcases hs : ar.read_string with _ | ⟨s, ar₁⟩
  · simp [read_tx_extra_nonce, hs] at h
  · simp only [read_tx_extra_nonce, hs, Option.bind_eq_bind, Option.bind_some] at h
    split_ifs at h
    cases h
    exact length_read_string hs

theorem length_read_tx_extra_merge_mining_tag {ar ar' : binary_archive} {m : ℕ × Crypto.Hash}
    (h : read_tx_extra_merge_mining_tag ar = some (m, ar')) :
    ar'.bytes.length ≤ ar.bytes.length := by
  rcases hs : ar.read_string with _ | ⟨s, ar₁⟩
  · simp [read_tx_extra_merge_mining_tag, hs] at h
  · simp only [read_tx_extra_merge_mining_tag, hs, Option.bind_eq_bind, Option.bind_some] at h
    split_ifs at h
    cases h
    exact length_read_string hs

theorem length_read_tx_extra_additional_pub_keys {ar ar' : binary_archive}
    {keys : List Crypto.public_key} (h : read_tx_extra_additional_pub_keys ar = some (keys, ar')) :
    ar'.bytes.length ≤ ar.bytes.length := by
  rcases hcnt : ar.serialize_varint 64 with ⟨cnt, ar₁⟩
  rw [read_tx_extra_additional_pub_keys, hcnt] at h
  dsimp only at h
  split_ifs at h
  have hle := length_serialize_varint ar 64
  rw [hcnt] at hle
  exact (length_read_public_keys cnt h).trans hle

theorem length_read_tx_extra_mysterious_minergate {ar ar' : binary_archive}
    {data : List UInt8} (h : read_tx_extra_mysterious_minergate ar = some (data, ar')) :
    ar'.bytes.length ≤ ar.bytes.length := by
  rcases hs : ar.read_string with _ | ⟨s, ar₁⟩
  · simp [read_tx_extra_mysterious_minergate, hs] at h
  · simp only [read_tx_extra_mysterious_minergate, hs, Option.bind_eq_bind, Option.bind_some] at h
    split_ifs at h
    cases h
    exact length_read_string hs

/-- A field read from a non-empty archive uses its tag byte at least, and one read at the end
of the bytes (as padding) stays there. -/
theorem length_read_tx_extra_field {ar ar' : binary_archive} {f : tx_extra_field}
    (h : read_tx_extra_field ar = some (f, ar')) :
    ar'.bytes = [] ∨ ar'.bytes.length < ar.bytes.length := by
  rcases ar with ⟨_ | ⟨tag, rest⟩, good⟩
  · -- no tag byte: it reads as `0`, and padding reads nothing more
    left
    rw [read_tx_extra_field] at h
    dsimp only [serialize_uint8, set_fail] at h
    rw [if_pos (show (0 : UInt8) = TX_EXTRA_TAG_PADDING from rfl)] at h
    obtain ⟨size, hsize⟩ := exists_of_map_eq_some h
    exact read_tx_extra_padding_bytes hsize
  · right
    rw [read_tx_extra_field, serialize_uint8_cons] at h
    dsimp only at h
    have hlt : rest.length < (tag :: rest).length := Nat.lt_succ_self _
    split_ifs at h
    · obtain ⟨size, hsize⟩ := exists_of_map_eq_some h
      rw [read_tx_extra_padding_bytes hsize]
      exact Nat.zero_lt_succ _
    · obtain ⟨k, hk⟩ := exists_of_map_eq_some h
      exact (length_read_tx_extra_pub_key hk).trans_lt hlt
    · obtain ⟨n, hn⟩ := exists_of_map_eq_some h
      exact (length_read_tx_extra_nonce hn).trans_lt hlt
    · obtain ⟨⟨m, ar₁⟩, hm, heq⟩ := Option.map_eq_some_iff.mp h
      cases heq
      exact (length_read_tx_extra_merge_mining_tag hm).trans_lt hlt
    · obtain ⟨ks, hks⟩ := exists_of_map_eq_some h
      exact (length_read_tx_extra_additional_pub_keys hks).trans_lt hlt
    · obtain ⟨d, hd⟩ := exists_of_map_eq_some h
      exact (length_read_tx_extra_mysterious_minergate hd).trans_lt hlt

/-! ### The field loop -/

set_option linter.unusedVariables false in
/-- The loop `parse_tx_extra` and `sort_tx_extra` share: fields are read until the bytes end or
one does not read. It returns whether every read succeeded, the fields read, and the archive
after the last field that did (its position is `sort_tx_extra`'s `processed`). -/
def read_tx_extra_fields (ar : binary_archive) : Bool × List tx_extra_field × binary_archive :=
  match h : read_tx_extra_field ar with
  | none => (false, [], ar)
  | some (field, ar') =>
    if hend : ar'.eof then (true, [field], ar')
    else
      let (ok, fields, ar'') := read_tx_extra_fields ar'
      (ok, field :: fields, ar'')
termination_by ar.bytes.length
decreasing_by
  refine (length_read_tx_extra_field h).resolve_left fun hnil => hend ?_
  simp [eof, hnil]

theorem read_tx_extra_fields_of_none {ar : binary_archive} (h : read_tx_extra_field ar = none) :
    read_tx_extra_fields ar = (false, [], ar) := by
  rw [read_tx_extra_fields]
  split
  · rfl
  · rename_i heq
    rw [h] at heq
    cases heq

/-- One turn of the loop after a field that read. -/
theorem read_tx_extra_fields_of_some {ar ar' : binary_archive} {f : tx_extra_field}
    (h : read_tx_extra_field ar = some (f, ar')) :
    read_tx_extra_fields ar =
      if ar'.eof then (true, [f], ar')
      else ((read_tx_extra_fields ar').1, f :: (read_tx_extra_fields ar').2.1,
        (read_tx_extra_fields ar').2.2) := by
  rw [read_tx_extra_fields]
  split
  · rename_i heq
    rw [h] at heq
    cases heq
  · rename_i field ar'' heq
    rw [h] at heq
    obtain ⟨rfl, rfl⟩ := Prod.mk.inj (Option.some.inj heq).symm
    rfl

end binary_archive

/-! ## Writing fields -/

/-- The bytes `binary_archive<true>` writes for a field: its `VARIANT_TAG`, then the field's
`member_do_serialize`, `none` where that returns `false`. A nonce is written in full before its
length is checked. -/
def write_tx_extra_field : tx_extra_field → Option (List UInt8)
  | tx_extra_padding size =>
    if TX_EXTRA_PADDING_MAX_COUNT < size then none
    else some (TX_EXTRA_TAG_PADDING :: List.replicate (size - 1) 0)
  | tx_extra_pub_key pub_key => some (TX_EXTRA_TAG_PUBKEY :: pub_key.data.toList)
  | tx_extra_nonce nonce =>
    if TX_EXTRA_NONCE_MAX_COUNT < nonce.length then none
    else some (TX_EXTRA_NONCE :: write_string nonce)
  | tx_extra_merge_mining_tag depth merkle_root =>
    some (TX_EXTRA_MERGE_MINING_TAG :: write_string (Varint.encode depth ++ merkle_root.data.toList))
  | tx_extra_additional_pub_keys data =>
    some (TX_EXTRA_TAG_ADDITIONAL_PUBKEYS ::
      (Varint.encode data.length ++ data.flatMap fun key => key.data.toList))
  | tx_extra_mysterious_minergate data =>
    some (TX_EXTRA_MYSTERIOUS_MINERGATE_TAG :: write_string data)

/-- Fields written one after the other, failing with the first that does not write. -/
def write_tx_extra_fields : List tx_extra_field → Option (List UInt8)
  | [] => some []
  | f :: fs => do
    let bytes ← write_tx_extra_field f
    let rest ← write_tx_extra_fields fs
    pure (bytes ++ rest)

/-- The fields that read back as themselves wherever they stand: every field but padding, which
reads to the end of the extra, with a nonce the nonce check admits and each count and depth
within the `size_t` varint it is written with. -/
def tx_extra_field.round_trips : tx_extra_field → Prop
  | tx_extra_padding _ => False
  | tx_extra_pub_key _ => True
  | tx_extra_nonce nonce => nonce.length ≤ TX_EXTRA_NONCE_MAX_COUNT
  | tx_extra_merge_mining_tag depth _ => depth < 2 ^ 64
  | tx_extra_additional_pub_keys data => data.length < 2 ^ 64
  | tx_extra_mysterious_minergate data => data.length < 2 ^ 64

instance (f : tx_extra_field) : Decidable f.round_trips := by
  cases f <;> unfold tx_extra_field.round_trips <;> infer_instance

@[simp] theorem write_tx_extra_fields_nil : write_tx_extra_fields [] = some [] := rfl

theorem write_tx_extra_fields_cons_eq_some {f : tx_extra_field} {fs : List tx_extra_field}
    {bytes : List UInt8} :
    write_tx_extra_fields (f :: fs) = some bytes ↔
      ∃ b bs, write_tx_extra_field f = some b ∧ write_tx_extra_fields fs = some bs ∧
        bytes = b ++ bs := by
  simp only [write_tx_extra_fields, Option.bind_eq_bind, Option.bind_eq_some_iff, Option.pure_def,
    Option.some.injEq]
  constructor
  · rintro ⟨b, hb, bs, hbs, rfl⟩
    exact ⟨b, bs, hb, hbs, rfl⟩
  · rintro ⟨b, bs, hb, hbs, rfl⟩
    exact ⟨b, hb, bs, hbs, rfl⟩

theorem write_tx_extra_fields_append (fs gs : List tx_extra_field) :
    write_tx_extra_fields (fs ++ gs) =
      (write_tx_extra_fields fs).bind fun a => (write_tx_extra_fields gs).map (a ++ ·) := by
  induction fs with
  | nil =>
    rw [List.nil_append, write_tx_extra_fields_nil, Option.bind_some]
    cases write_tx_extra_fields gs <;> rfl
  | cons f fs ih =>
    rw [List.cons_append, write_tx_extra_fields, write_tx_extra_fields, ih]
    cases write_tx_extra_field f <;> cases write_tx_extra_fields fs <;>
      cases write_tx_extra_fields gs <;> simp

/-! ## Reading back what was written -/

namespace binary_archive

theorem read_tx_extra_pub_key_append (k : Crypto.public_key) (rest : List UInt8) :
    read_tx_extra_pub_key ⟨k.data.toList ++ rest, true⟩ = some (k, ⟨rest, true⟩) := by
  rw [read_tx_extra_pub_key, serialize_pod_append]
  rfl

theorem read_tx_extra_nonce_write {nonce : List UInt8} (h : nonce.length ≤ TX_EXTRA_NONCE_MAX_COUNT)
    (rest : List UInt8) :
    read_tx_extra_nonce ⟨write_string nonce ++ rest, true⟩ = some (nonce, ⟨rest, true⟩) := by
  have hlen : nonce.length < 2 ^ 64 := lt_of_le_of_lt h (by decide)
  simp only [read_tx_extra_nonce, read_string_write_string hlen, Option.bind_eq_bind,
    Option.bind_some]
  rw [if_neg (by decide), if_neg (by omega)]

theorem read_tx_extra_merge_mining_tag_write {depth : ℕ} (h : depth < 2 ^ 64)
    (merkle_root : Crypto.Hash) (rest : List UInt8) :
    read_tx_extra_merge_mining_tag
        ⟨write_string (Varint.encode depth ++ merkle_root.data.toList) ++ rest, true⟩ =
      some ((depth, merkle_root), ⟨rest, true⟩) := by
  have hlen : (Varint.encode depth ++ merkle_root.data.toList).length < 2 ^ 64 := by
    have hdepth := Varint.length_encode_le (k := 9) (lt_of_lt_of_le h (by decide))
    simp only [List.length_append, Vector.length_toList]
    omega
  simp only [read_tx_extra_merge_mining_tag, read_string_write_string hlen, Option.bind_eq_bind,
    Option.bind_some, serialize_varint_encode h]
  rw [if_neg (by decide)]
  have hpod := serialize_pod_append merkle_root.data [] true
  rw [List.append_nil] at hpod
  rw [hpod]
  rfl

theorem read_public_keys_append (keys : List Crypto.public_key) (rest : List UInt8) :
    read_public_keys keys.length ⟨(keys.flatMap fun key => key.data.toList) ++ rest, true⟩ =
      some (keys, ⟨rest, true⟩) := by
  induction keys with
  | nil => rfl
  | cons key keys ih =>
    rw [List.length_cons, read_public_keys, List.flatMap_cons, List.append_assoc,
      serialize_pod_append]
    dsimp only
    rw [if_neg (by decide), ih]
    rfl

theorem length_flatMap_public_keys (keys : List Crypto.public_key) :
    (keys.flatMap fun key => key.data.toList).length = 32 * keys.length := by
  induction keys with
  | nil => rfl
  | cons key keys ih =>
    rw [List.flatMap_cons, List.length_append, ih, Vector.length_toList, List.length_cons]
    ring

theorem read_tx_extra_additional_pub_keys_write {keys : List Crypto.public_key}
    (h : keys.length < 2 ^ 64) (rest : List UInt8) :
    read_tx_extra_additional_pub_keys
        ⟨Varint.encode keys.length ++ (keys.flatMap fun key => key.data.toList) ++ rest, true⟩ =
      some (keys, ⟨rest, true⟩) := by
  rw [read_tx_extra_additional_pub_keys, List.append_assoc, serialize_varint_encode h]
  dsimp only
  -- the count check only asks for one byte per key, and each key has 32
  have hroom : keys.length ≤ ((keys.flatMap fun key => key.data.toList) ++ rest).length := by
    rw [List.length_append, length_flatMap_public_keys]
    omega
  rw [if_neg (by decide), remaining_bytes_mk_true, if_neg (by omega), read_public_keys_append]

theorem read_tx_extra_mysterious_minergate_write {data : List UInt8} (h : data.length < 2 ^ 64)
    (rest : List UInt8) :
    read_tx_extra_mysterious_minergate ⟨write_string data ++ rest, true⟩ =
      some (data, ⟨rest, true⟩) := by
  simp only [read_tx_extra_mysterious_minergate, read_string_write_string h, Option.bind_eq_bind,
    Option.bind_some]
  rw [if_neg (by decide)]

/-- **A field reads back as itself** from a good archive, whatever follows it. -/
theorem read_tx_extra_field_write {f : tx_extra_field} (hf : f.round_trips) {bytes : List UInt8}
    (hw : write_tx_extra_field f = some bytes) (rest : List UInt8) :
    read_tx_extra_field ⟨bytes ++ rest, true⟩ = some (f, ⟨rest, true⟩) := by
  cases f with
  | tx_extra_padding size => exact hf.elim
  | tx_extra_pub_key k =>
    cases hw
    rw [List.cons_append, read_tx_extra_field, serialize_uint8_cons]
    dsimp only
    rw [if_neg (by decide), if_pos rfl, read_tx_extra_pub_key_append]
    rfl
  | tx_extra_nonce nonce =>
    have hlen : ¬TX_EXTRA_NONCE_MAX_COUNT < nonce.length := Nat.not_lt.mpr hf
    rw [write_tx_extra_field, if_neg hlen] at hw
    cases hw
    rw [List.cons_append, read_tx_extra_field, serialize_uint8_cons]
    dsimp only
    rw [if_neg (by decide), if_neg (by decide), if_pos rfl, read_tx_extra_nonce_write hf]
    rfl
  | tx_extra_merge_mining_tag depth merkle_root =>
    cases hw
    rw [List.cons_append, read_tx_extra_field, serialize_uint8_cons]
    dsimp only
    rw [if_neg (by decide), if_neg (by decide), if_neg (by decide), if_pos rfl,
      read_tx_extra_merge_mining_tag_write hf]
    rfl
  | tx_extra_additional_pub_keys data =>
    cases hw
    rw [List.cons_append, read_tx_extra_field, serialize_uint8_cons]
    dsimp only
    rw [if_neg (by decide), if_neg (by decide), if_neg (by decide), if_neg (by decide),
      if_pos rfl, read_tx_extra_additional_pub_keys_write hf]
    rfl
  | tx_extra_mysterious_minergate data =>
    cases hw
    rw [List.cons_append, read_tx_extra_field, serialize_uint8_cons]
    dsimp only
    rw [if_neg (by decide), if_neg (by decide), if_neg (by decide), if_neg (by decide),
      if_neg (by decide), if_pos rfl, read_tx_extra_mysterious_minergate_write hf]
    rfl

/-- A field writes at least its tag. -/
theorem ne_nil_of_write_tx_extra_field {f : tx_extra_field} {bytes : List UInt8}
    (h : write_tx_extra_field f = some bytes) : bytes ≠ [] := by
  cases f <;> simp only [write_tx_extra_field] at h <;> (try split_ifs at h) <;> cases h <;> simp

/-- **The loop reads written fields back**, up to what follows them: over fields that round
trip, the loop reads them all and goes on with the bytes after them as it would alone. -/
theorem read_tx_extra_fields_write_append :
    ∀ {fields : List tx_extra_field} {bytes : List UInt8}, (∀ f ∈ fields, f.round_trips) →
      write_tx_extra_fields fields = some bytes → ∀ {rest : List UInt8}, rest ≠ [] →
        read_tx_extra_fields ⟨bytes ++ rest, true⟩ =
          ((read_tx_extra_fields ⟨rest, true⟩).1,
            fields ++ (read_tx_extra_fields ⟨rest, true⟩).2.1, (read_tx_extra_fields ⟨rest, true⟩).2.2)
  | [], _, _, hw, _, _ => by
    cases hw
    rfl
  | f :: fs, bytes, hrt, hw, rest, hrest => by
    obtain ⟨b, bs, hb, hbs, rfl⟩ := write_tx_extra_fields_cons_eq_some.mp hw
    have hread := read_tx_extra_field_write (hrt f List.mem_cons_self) hb (bs ++ rest)
    rw [List.append_assoc, read_tx_extra_fields_of_some hread]
    have hne : (binary_archive.mk (bs ++ rest) true).eof = false := by
      simp [hrest]
    rw [if_neg (by simp [hne]),
      read_tx_extra_fields_write_append (fun g hg => hrt g (List.mem_cons_of_mem f hg)) hbs hrest]
    rfl

/-- Written fields, and nothing after them, read back as the whole extra. -/
theorem read_tx_extra_fields_write :
    ∀ {fields : List tx_extra_field} {bytes : List UInt8}, fields ≠ [] →
      (∀ f ∈ fields, f.round_trips) → write_tx_extra_fields fields = some bytes →
        read_tx_extra_fields ⟨bytes, true⟩ = (true, fields, ⟨[], true⟩)
  | [], _, hne, _, _ => absurd rfl hne
  | [f], bytes, _, hrt, hw => by
    obtain ⟨b, bs, hb, hbs, rfl⟩ := write_tx_extra_fields_cons_eq_some.mp hw
    cases hbs
    have hread := read_tx_extra_field_write (hrt f List.mem_cons_self) hb []
    rw [read_tx_extra_fields_of_some hread]
    rfl
  | f :: g :: fs, bytes, _, hrt, hw => by
    obtain ⟨b, bs, hb, hbs, rfl⟩ := write_tx_extra_fields_cons_eq_some.mp hw
    have hread := read_tx_extra_field_write (hrt f List.mem_cons_self) hb bs
    -- the next field writes at least its tag, so the loop goes on
    obtain ⟨c, cs, hc, -, rfl⟩ := write_tx_extra_fields_cons_eq_some.mp hbs
    rw [read_tx_extra_fields_of_some hread, if_neg (by simp [ne_nil_of_write_tx_extra_field hc]),
      read_tx_extra_fields_write (by simp) (fun h hh => hrt h (List.mem_cons_of_mem f hh)) hbs]

end binary_archive

/-! ## Parsing and sorting -/

namespace Blob

open binary_archive

/-- `parse_tx_extra`: whether the whole extra parsed, and the fields read before the first that
did not. The callers that ignore the flag use those fields. -/
def parse_tx_extra (tx_extra : List UInt8) : Bool × List tx_extra_field :=
  if tx_extra.isEmpty then (true, [])
  else
    let (ok, fields, ar) := read_tx_extra_fields ⟨tx_extra, true⟩
    -- `check_stream_state`: the loop stops only at the end, so it asks for a good stream
    (ok && ar.good, fields)

/-- `pick<T>(nar, fields, tag)`: every field of the tag, in order, each written with the tag in
front. -/
def pick (fields : List tx_extra_field) (tag : UInt8) : Option (List UInt8) :=
  write_tx_extra_fields (fields.filter fun f => f.tag == tag)

/-- `sort_tx_extra(tx_extra, sorted_tx_extra, allow_partial)`. The fields read are written back
by `pick` in the order of `sort_tx_extra_order`; every tag is in that order, so the source's
check for fields left over never fails. With `allow_partial`, the bytes after the last field
that read are appended as they were. -/
def sort_tx_extra (tx_extra : List UInt8) ( allow_partial : Bool) : Option (List UInt8) :=
  if tx_extra.isEmpty then some []
  else
    let (ok, fields, ar) := read_tx_extra_fields ⟨tx_extra, true⟩
    if ! allow_partial && !(ok && ar.good) then none
    else do
      let picked ← sort_tx_extra_order.mapM (pick fields)
      let processed := tx_extra.length - ar.bytes.length
      if allow_partial && processed < tx_extra.length then
        some (picked.flatten ++ tx_extra.drop processed)
      else some picked.flatten

/-- **Fields written parse back.** An extra written from fields that round trip parses, to
those fields. -/
theorem parse_tx_extra_write {fields : List tx_extra_field} {bytes : List UInt8}
    (hrt : ∀ f ∈ fields, f.round_trips) (hw : write_tx_extra_fields fields = some bytes) :
    parse_tx_extra bytes = (true, fields) := by
  cases fields with
  | nil =>
    cases hw
    rfl
  | cons f fs =>
    have hread := read_tx_extra_fields_write (List.cons_ne_nil f fs) hrt hw
    obtain ⟨b, bs, hb, -, rfl⟩ := write_tx_extra_fields_cons_eq_some.mp hw
    have hne : b ++ bs ≠ [] := by simp [ne_nil_of_write_tx_extra_field hb]
    rw [parse_tx_extra, if_neg (by simpa using hne), hread]
    rfl

/-- The picks in a tag order write the fields grouped by that order. -/
theorem mapM_pick (fields : List tx_extra_field) :
    ∀ tags : List UInt8, (tags.mapM (pick fields)).map List.flatten =
      write_tx_extra_fields (tags.flatMap fun t => fields.filter fun f => f.tag == t)
  | [] => rfl
  | t :: tags => by
    rw [List.mapM_cons, List.flatMap_cons, write_tx_extra_fields_append, ← mapM_pick fields tags,
      pick]
    cases write_tx_extra_fields (fields.filter fun f => f.tag == t) <;>
      cases tags.mapM (pick fields) <;> simp

/-- **Sorting the bytes sorts the fields.** For an extra written from fields that round trip,
`sort_tx_extra` writes the fields in the order the field-level `sort_tx_extra` puts them, with or
without `allow_partial`. -/
theorem sort_tx_extra_write {fields : List tx_extra_field} {bytes : List UInt8}
    (hrt : ∀ f ∈ fields, f.round_trips) (hw : write_tx_extra_fields fields = some bytes)
    ( allow_partial : Bool) :
    sort_tx_extra bytes allow_partial = write_tx_extra_fields (Salvium.sort_tx_extra fields) := by
  cases fields with
  | nil =>
    cases hw
    simp [sort_tx_extra, Salvium.sort_tx_extra, sort_tx_extra_order]
  | cons f fs =>
    have hread := read_tx_extra_fields_write (List.cons_ne_nil f fs) hrt hw
    obtain ⟨b, bs, hb, -, rfl⟩ := write_tx_extra_fields_cons_eq_some.mp hw
    have hne : b ++ bs ≠ [] := by simp [ne_nil_of_write_tx_extra_field hb]
    rw [sort_tx_extra, if_neg (by simpa using hne), hread, Salvium.sort_tx_extra,
      ← mapM_pick]
    -- the whole extra was read, so nothing is left to append
    simp only [Bool.and_self, Bool.not_true, Bool.and_false, List.length_nil, Nat.sub_zero,
      lt_self_iff_false, decide_false, Bool.false_eq_true, if_false]
    cases sort_tx_extra_order.mapM (pick (f :: fs)) <;> simp

/-! ## The byte writers -/

/-- `add_tx_pub_key_to_extra(tx_extra, tx_pub_key)`: the tag and the 32 bytes, appended. -/
def add_tx_pub_key_to_extra (tx_extra : List UInt8) (tx_pub_key : Crypto.public_key) :
    List UInt8 :=
  tx_extra ++ TX_EXTRA_TAG_PUBKEY :: tx_pub_key.data.toList

/-- `add_additional_tx_pub_keys_to_extra`: the field as the archive writes it, appended. -/
def add_additional_tx_pub_keys_to_extra (tx_extra : List UInt8)
    (additional_pub_keys : List Crypto.public_key) : Option (List UInt8) :=
  (write_tx_extra_field (tx_extra_additional_pub_keys additional_pub_keys)).map (tx_extra ++ ·)

/-- `add_extra_nonce_to_tx_extra`: refuses a nonce over `TX_EXTRA_NONCE_MAX_COUNT` bytes, and
writes the tag, the nonce's length as one byte, and the nonce. -/
def add_extra_nonce_to_tx_extra (tx_extra extra_nonce : List UInt8) : Option (List UInt8) :=
  if extra_nonce.length ≤ TX_EXTRA_NONCE_MAX_COUNT then
    some (tx_extra ++ TX_EXTRA_NONCE :: UInt8.ofNat extra_nonce.length :: extra_nonce)
  else none

/-- `add_mm_merkle_root_to_tx_extra`: refuses a depth from 32 on, and writes the tag, the string
length `33`, the depth as one byte and the root. -/
def add_mm_merkle_root_to_tx_extra (tx_extra : List UInt8) (mm_merkle_root : Crypto.Hash)
    (mm_merkle_tree_depth : ℕ) : Option (List UInt8) :=
  if mm_merkle_tree_depth < 32 then
    some (tx_extra ++ TX_EXTRA_MERGE_MINING_TAG :: 33 :: UInt8.ofNat mm_merkle_tree_depth ::
      mm_merkle_root.data.toList)
  else none

/-- `set_encrypted_payment_id_to_tx_extra_nonce`: the marker byte, then the 8 bytes. -/
def set_encrypted_payment_id_to_tx_extra_nonce (payment_id : Crypto.hash8) : List UInt8 :=
  TX_EXTRA_NONCE_ENCRYPTED_PAYMENT_ID :: payment_id.data.toList

/-- `get_encrypted_payment_id_from_tx_extra_nonce`: exactly nine bytes, the first the marker. -/
def get_encrypted_payment_id_from_tx_extra_nonce (extra_nonce : List UInt8) :
    Option Crypto.hash8 :=
  match extra_nonce with
  | marker :: payment_id =>
    if h : payment_id.length = 8 ∧ marker = TX_EXTRA_NONCE_ENCRYPTED_PAYMENT_ID then
      some ⟨⟨payment_id.toArray, by simpa using h.1⟩⟩
    else none
  | [] => none

theorem get_encrypted_payment_id_from_tx_extra_nonce_set (payment_id : Crypto.hash8) :
    get_encrypted_payment_id_from_tx_extra_nonce
      (set_encrypted_payment_id_to_tx_extra_nonce payment_id) = some payment_id := by
  rw [set_encrypted_payment_id_to_tx_extra_nonce, get_encrypted_payment_id_from_tx_extra_nonce,
    dif_pos ⟨payment_id.data.length_toList, rfl⟩]
  rcases payment_id with ⟨⟨data, hdata⟩⟩
  simp

/-! ## The byte writers against the field writers -/

/-- The nonce writer writes what the archive writes for a nonce field as long as the length is
one varint byte. -/
theorem add_extra_nonce_to_tx_extra_eq_write (tx_extra : List UInt8) {extra_nonce : List UInt8}
    (h : extra_nonce.length < 0x80) :
    add_extra_nonce_to_tx_extra tx_extra extra_nonce =
      (write_tx_extra_field (tx_extra_nonce extra_nonce)).map (tx_extra ++ ·) := by
  have hmax : extra_nonce.length ≤ TX_EXTRA_NONCE_MAX_COUNT := by
    simp only [TX_EXTRA_NONCE_MAX_COUNT]
    omega
  rw [add_extra_nonce_to_tx_extra, if_pos hmax, write_tx_extra_field, if_neg (by omega),
    write_string, Varint.encode_of_lt h]
  rfl

/-- The merge-mining writer writes what the archive writes for the field. -/
theorem add_mm_merkle_root_to_tx_extra_eq_write (tx_extra : List UInt8)
    (mm_merkle_root : Crypto.Hash) {depth : ℕ} (h : depth < 32) :
    add_mm_merkle_root_to_tx_extra tx_extra mm_merkle_root depth =
      (write_tx_extra_field (tx_extra_merge_mining_tag depth mm_merkle_root)).map
        (tx_extra ++ ·) := by
  have hlen : (Varint.encode depth ++ mm_merkle_root.data.toList).length = 33 := by
    rw [List.length_append, Varint.length_encode_of_lt (show depth < 0x80 by omega),
      Vector.length_toList]
  rw [add_mm_merkle_root_to_tx_extra, if_pos h, write_tx_extra_field, write_string, hlen,
    Varint.encode_of_lt (show depth < 0x80 by omega), Varint.encode_of_lt (show 33 < 0x80 by norm_num)]
  rfl

/-- An extra written from fields that round trip, with one more field written after it, parses
to the fields and that one. -/
theorem parse_tx_extra_append_write {fields : List tx_extra_field} {bytes : List UInt8}
    (hrt : ∀ f ∈ fields, f.round_trips) (hw : write_tx_extra_fields fields = some bytes)
    {f : tx_extra_field} (hf : f.round_trips) {b : List UInt8} (hb : write_tx_extra_field f = some b) :
    parse_tx_extra (bytes ++ b) = (true, fields ++ [f]) := by
  have hall : ∀ g ∈ fields ++ [f], g.round_trips := by
    intro g hg
    rcases List.mem_append.mp hg with hg | hg
    · exact hrt g hg
    · rw [List.mem_singleton.mp hg]
      exact hf
  apply parse_tx_extra_write hall
  rw [write_tx_extra_fields_append, hw, Option.bind_some, write_tx_extra_fields, hb]
  simp

/-- A field that round trips is written. -/
theorem exists_write_tx_extra_field {f : tx_extra_field} (hf : f.round_trips) :
    ∃ b, write_tx_extra_field f = some b := by
  cases f
  case tx_extra_padding => exact hf.elim
  case tx_extra_nonce nonce => exact ⟨_, if_neg (not_lt.mpr hf)⟩
  all_goals exact ⟨_, rfl⟩

/-- Fields that round trip are written. -/
theorem exists_write_tx_extra_fields :
    ∀ {fields : List tx_extra_field}, (∀ f ∈ fields, f.round_trips) →
      ∃ bytes, write_tx_extra_fields fields = some bytes
  | [], _ => ⟨[], rfl⟩
  | f :: fs, h => by
    obtain ⟨b, hb⟩ := exists_write_tx_extra_field (h f List.mem_cons_self)
    obtain ⟨bs, hbs⟩ := exists_write_tx_extra_fields fun g hg => h g (List.mem_cons_of_mem f hg)
    exact ⟨b ++ bs, by simp [write_tx_extra_fields, hb, hbs]⟩

/-- **Sorting written fields.** The bytes of fields that round trip sort, without
`allow_partial`, to bytes that parse to the field-level sort of the fields. -/
theorem sort_tx_extra_parse {fields : List tx_extra_field} {bytes : List UInt8}
    (hrt : ∀ f ∈ fields, f.round_trips) (hw : write_tx_extra_fields fields = some bytes) :
    ∃ sorted, sort_tx_extra bytes false = some sorted ∧
      parse_tx_extra sorted = (true, Salvium.sort_tx_extra fields) := by
  -- the sort only regroups the fields
  have hrt' : ∀ f ∈ Salvium.sort_tx_extra fields, f.round_trips := by
    intro f hf
    simp only [Salvium.sort_tx_extra, List.mem_flatMap, List.mem_filter] at hf
    obtain ⟨-, -, hmem, -⟩ := hf
    exact hrt f hmem
  obtain ⟨sorted, hsorted⟩ := exists_write_tx_extra_fields hrt'
  exact ⟨sorted, (sort_tx_extra_write hrt hw false).trans hsorted,
    parse_tx_extra_write hrt' hsorted⟩

/-- A writer that appends the archive's bytes of a field that round trips keeps the extra
parsing, with the field last. -/
theorem parse_tx_extra_map_write {fields : List tx_extra_field} {bytes : List UInt8}
    (hrt : ∀ f ∈ fields, f.round_trips) (hw : write_tx_extra_fields fields = some bytes)
    {f : tx_extra_field} (hf : f.round_trips) :
    ∃ tx_extra, (write_tx_extra_field f).map (bytes ++ ·) = some tx_extra ∧
      parse_tx_extra tx_extra = (true, fields ++ [f]) := by
  obtain ⟨b, hb⟩ := exists_write_tx_extra_field hf
  refine ⟨bytes ++ b, ?_, parse_tx_extra_append_write hrt hw hf hb⟩
  rw [hb]
  rfl

/-! ## The writers after fields that round trip -/

theorem add_tx_pub_key_to_extra_parse {fields : List tx_extra_field} {bytes : List UInt8}
    (hrt : ∀ f ∈ fields, f.round_trips) (hw : write_tx_extra_fields fields = some bytes)
    (tx_pub_key : Crypto.public_key) :
    parse_tx_extra (add_tx_pub_key_to_extra bytes tx_pub_key) =
      (true, fields ++ [tx_extra_pub_key tx_pub_key]) :=
  @parse_tx_extra_append_write fields bytes hrt hw (tx_extra_pub_key tx_pub_key) trivial _ rfl

theorem add_additional_tx_pub_keys_to_extra_parse {fields : List tx_extra_field}
    {bytes : List UInt8} (hrt : ∀ f ∈ fields, f.round_trips)
    (hw : write_tx_extra_fields fields = some bytes) {additional_pub_keys : List Crypto.public_key}
    (hkeys : additional_pub_keys.length < 2 ^ 64) :
    ∃ tx_extra, add_additional_tx_pub_keys_to_extra bytes additional_pub_keys = some tx_extra ∧
      parse_tx_extra tx_extra = (true, fields ++ [tx_extra_additional_pub_keys additional_pub_keys]) :=
  parse_tx_extra_map_write hrt hw hkeys

/-- The nonce writer agrees with the parser up to a nonce of 127 bytes; from 128 bytes on it
does not (`add_extra_nonce_to_tx_extra_long`). -/
theorem add_extra_nonce_to_tx_extra_parse {fields : List tx_extra_field} {bytes : List UInt8}
    (hrt : ∀ f ∈ fields, f.round_trips) (hw : write_tx_extra_fields fields = some bytes)
    {extra_nonce : List UInt8} (hshort : extra_nonce.length < 0x80) :
    ∃ tx_extra, add_extra_nonce_to_tx_extra bytes extra_nonce = some tx_extra ∧
      parse_tx_extra tx_extra = (true, fields ++ [tx_extra_nonce extra_nonce]) := by
  have hmax : extra_nonce.length ≤ TX_EXTRA_NONCE_MAX_COUNT := by
    simp only [TX_EXTRA_NONCE_MAX_COUNT]
    omega
  rw [add_extra_nonce_to_tx_extra_eq_write bytes hshort]
  exact parse_tx_extra_map_write hrt hw hmax

/-- A transaction public key and a merge mining tag of depth `3`. -/
def pubkey_mm_fields : List tx_extra_field :=
  [tx_extra_pub_key ⟨Vector.replicate 32 5⟩, tx_extra_merge_mining_tag 3 ⟨Vector.replicate 32 6⟩]

/-- A nonce of three bytes after a public key and a merge mining tag parses back behind them. -/
theorem add_extra_nonce_to_tx_extra_parse_after_fields :
    ∃ tx_extra, add_extra_nonce_to_tx_extra ((write_tx_extra_fields pubkey_mm_fields).getD [])
        [1, 2, 3] = some tx_extra ∧
      parse_tx_extra tx_extra = (true, pubkey_mm_fields ++ [tx_extra_nonce [1, 2, 3]]) :=
  add_extra_nonce_to_tx_extra_parse (by decide) rfl (by decide)

theorem add_mm_merkle_root_to_tx_extra_parse {fields : List tx_extra_field} {bytes : List UInt8}
    (hrt : ∀ f ∈ fields, f.round_trips) (hw : write_tx_extra_fields fields = some bytes)
    (mm_merkle_root : Crypto.Hash) {depth : ℕ} (hdepth : depth < 32) :
    ∃ tx_extra, add_mm_merkle_root_to_tx_extra bytes mm_merkle_root depth = some tx_extra ∧
      parse_tx_extra tx_extra = (true, fields ++ [tx_extra_merge_mining_tag depth mm_merkle_root]) := by
  rw [add_mm_merkle_root_to_tx_extra_eq_write bytes mm_merkle_root hdepth]
  exact parse_tx_extra_map_write hrt hw (show depth < 2 ^ 64 by omega)

/-- A nonce whose length byte is a continuation byte does not read, whatever the stream. -/
theorem read_tx_extra_nonce_long {L : UInt8} {nonce : List UInt8} (good : Bool)
    (hL : 0x80 ≤ L.toNat) (hlen : nonce.length = L.toNat) :
    read_tx_extra_nonce ⟨L :: nonce, good⟩ = none := by
  rcases hs : read_string ⟨L :: nonce, good⟩ with _ | ⟨s, ar⟩
  · simp [read_tx_extra_nonce, hs]
  · have hg := read_string_good_eq_false good hL hlen hs
    simp [read_tx_extra_nonce, hs, hg]

/-- **A nonce of 128 bytes or more breaks the extra.** After fields that round trip, the nonce
writer's bytes for such a nonce do not parse: the parse stops before the nonce, and
`sort_tx_extra` without `allow_partial` fails. -/
theorem add_extra_nonce_to_tx_extra_long {fields : List tx_extra_field} {bytes : List UInt8}
    (hrt : ∀ f ∈ fields, f.round_trips) (hw : write_tx_extra_fields fields = some bytes)
    {extra_nonce : List UInt8} (hlong : 0x80 ≤ extra_nonce.length)
    (hmax : extra_nonce.length ≤ TX_EXTRA_NONCE_MAX_COUNT) :
    ∃ tx_extra, add_extra_nonce_to_tx_extra bytes extra_nonce = some tx_extra ∧
      parse_tx_extra tx_extra = (false, fields) ∧ sort_tx_extra tx_extra false = none := by
  let L := UInt8.ofNat extra_nonce.length
  have hL : L.toNat = extra_nonce.length := by
    simp only [L, UInt8.toNat_ofNat']
    exact Nat.mod_eq_of_lt (by simp only [TX_EXTRA_NONCE_MAX_COUNT] at hmax; omega)
  let rest := TX_EXTRA_NONCE :: L :: extra_nonce
  have hnone : read_tx_extra_field ⟨rest, true⟩ = none := by
    rw [read_tx_extra_field, serialize_uint8_cons]
    dsimp only
    rw [if_neg (by decide), if_neg (by decide), if_pos rfl,
      read_tx_extra_nonce_long true (hL ▸ hlong) hL.symm]
    rfl
  -- the loop reads the fields, then stops at the nonce
  have hloop : read_tx_extra_fields ⟨bytes ++ rest, true⟩ = (false, fields, ⟨rest, true⟩) := by
    rw [read_tx_extra_fields_write_append hrt hw (List.cons_ne_nil _ _),
      read_tx_extra_fields_of_none hnone, List.append_nil]
  refine ⟨bytes ++ rest, if_pos hmax, ?_, ?_⟩
  · rw [parse_tx_extra, if_neg (by simp [rest]), hloop]
    rfl
  · rw [sort_tx_extra, if_neg (by simp [rest]), hloop]
    rfl

/-- **The nonce writer and the parser disagree.** The empty extra parses, with no fields; the
nonce writer accepts a nonce of 128 zero bytes after it, and what it writes does not parse. -/
theorem add_extra_nonce_to_tx_extra_misparses :
    parse_tx_extra [] = (true, []) ∧
      ∃ tx_extra, add_extra_nonce_to_tx_extra [] (List.replicate 0x80 0) = some tx_extra ∧
        parse_tx_extra tx_extra = (false, []) ∧ sort_tx_extra tx_extra false = none :=
  ⟨rfl, @add_extra_nonce_to_tx_extra_long [] [] (by simp) rfl (List.replicate 0x80 0)
    (by simp) (by simp [TX_EXTRA_NONCE_MAX_COUNT])⟩

end Blob

end Salvium
