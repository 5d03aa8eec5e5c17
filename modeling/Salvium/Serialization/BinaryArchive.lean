import Mathlib
import Salvium.Common.Varint

/-!
# Salvium — the binary archive reader

`binary_archive<false>` (`serialization/binary_archive.h`) reads from a span of bytes and keeps
a stream state that every read and-assigns into: a read past the end takes the bytes there are
and fails the stream, it does not stop the caller. Only the callers' checks turn a failed
stream into a `false`: `FIELD` tests `ar.good()`, a string compares its length with
`remaining_bytes()`, which is zero once the stream has failed. Each primitive here returns its
value and the archive after it, with the stream state as a field of the archive.

Integers are read by `read_varint` (`Salvium.Common.Varint`); a failed read fails the stream,
and running out of bytes does not.

The results are the two directions a codec needs. A string and a fixed-size object read back
what the writer wrote, with any bytes after them (`read_string_write_string`,
`serialize_pod_append`). And a string whose length varint starts
with a continuation byte cannot be read from the bytes that length byte announces
(`read_string_good_eq_false`): the value is at least the first byte while fewer bytes are left.
-/

namespace Salvium

/-! ## The archive -/

/-- `binary_archive<false>`: the bytes not read yet, and the stream state `good_`. -/
structure binary_archive where
  bytes : List UInt8
  good : Bool
  deriving DecidableEq, Repr

namespace binary_archive

/-- `eof()`: no bytes left. -/
def eof (ar : binary_archive) : Bool := ar.bytes.isEmpty

/-- `remaining_bytes()`: none once the stream has failed. -/
def remaining_bytes (ar : binary_archive) : ℕ := if ar.good then ar.bytes.length else 0

/-- `set_fail()`. -/
def set_fail (ar : binary_archive) : binary_archive := { ar with good := false }

/-- `serialize_int` of a byte (`serialize_uint` with `sizeof(T) = 1`): `0` and a failed stream
when no byte is left. -/
def serialize_uint8 (ar : binary_archive) : UInt8 × binary_archive :=
  match ar.bytes with
  | [] => (0, ar.set_fail)
  | b :: rest => (b, ⟨rest, ar.good⟩)

/-- `serialize_blob(buf, len)`: `remove_prefix` takes at most what is left, and the stream
fails when that is less than `len`. -/
def serialize_blob (ar : binary_archive) (len : ℕ) : List UInt8 × binary_archive :=
  (ar.bytes.take len, ⟨ar.bytes.drop len, ar.good && decide (len ≤ ar.bytes.length)⟩)

/-- A blob read into an object of `n` bytes (`do_serialize` of a blob type): the bytes read,
and zero where there were none, which no caller reads since the stream has failed then. -/
def serialize_pod (ar : binary_archive) (n : ℕ) : Vector UInt8 n × binary_archive :=
  let (buf, ar) := ar.serialize_blob n
  (Vector.ofFn fun i => buf.getD i 0, ar)

/-- `serialize_varint` into an integer of `bits` bits (`serialize_uvarint`). -/
def serialize_varint (ar : binary_archive) (bits : ℕ) : ℕ × binary_archive :=
  let (code, v, rest) := read_varint bits ar.bytes
  (v, ⟨rest, ar.good && decide (0 ≤ code)⟩)

/-- `do_serialize(Archive<false>&, std::string&)`: a `size_t` varint length, then that many
bytes. `none` is the source's `false`: fewer bytes remain than the length, counting none once
the stream has failed. -/
def read_string (ar : binary_archive) : Option (List UInt8 × binary_archive) :=
  let (size, ar) := ar.serialize_varint 64
  if ar.remaining_bytes < size then none
  else some (ar.serialize_blob size)

end binary_archive

/-- `do_serialize(Archive<true>&, std::string&)` in a binary archive: the varint length, then the
bytes. -/
def write_string (s : List UInt8) : List UInt8 := Varint.encode s.length ++ s

/-! ## Reading back what was written -/

namespace binary_archive

@[simp] theorem eof_mk (bytes : List UInt8) (good : Bool) :
    eof ⟨bytes, good⟩ = bytes.isEmpty := rfl

@[simp] theorem remaining_bytes_mk_true (bytes : List UInt8) :
    remaining_bytes ⟨bytes, true⟩ = bytes.length := rfl

@[simp] theorem remaining_bytes_mk_false (bytes : List UInt8) :
    remaining_bytes ⟨bytes, false⟩ = 0 := rfl

@[simp] theorem serialize_uint8_cons (b : UInt8) (rest : List UInt8) (good : Bool) :
    serialize_uint8 ⟨b :: rest, good⟩ = (b, ⟨rest, good⟩) := rfl

/-- A blob of the length asked for reads as itself and keeps the stream good. -/
theorem serialize_blob_append (bs rest : List UInt8) (good : Bool) :
    serialize_blob ⟨bs ++ rest, good⟩ bs.length = (bs, ⟨rest, good⟩) := by
  simp [serialize_blob]

/-- An object's bytes read back as the object. -/
theorem serialize_pod_append {n : ℕ} (v : Vector UInt8 n) (rest : List UInt8) (good : Bool) :
    serialize_pod ⟨v.toList ++ rest, good⟩ n = (v, ⟨rest, good⟩) := by
  have hlen : v.toList.length = n := v.length_toList
  have hblob := serialize_blob_append v.toList rest good
  rw [hlen] at hblob
  rw [serialize_pod, hblob]
  dsimp only
  congr 1
  ext i hi
  simp [Vector.getElem_toList]

/-- A varint of a `size_t` value reads back as the value. -/
theorem serialize_varint_encode {n : ℕ} (hn : n < 2 ^ 64) (rest : List UInt8) (good : Bool) :
    serialize_varint ⟨Varint.encode n ++ rest, good⟩ 64 = (n, ⟨rest, good⟩) := by
  simp [serialize_varint, read_varint_encode hn rest]

/-- **A string reads back as itself** from a good archive, whatever follows it. -/
theorem read_string_write_string {s : List UInt8} (hs : s.length < 2 ^ 64) (rest : List UInt8) :
    read_string ⟨write_string s ++ rest, true⟩ = some (s, ⟨rest, true⟩) := by
  rw [read_string, write_string, List.append_assoc, serialize_varint_encode hs]
  simp only [remaining_bytes_mk_true, List.length_append]
  rw [if_neg (by omega), serialize_blob_append]

/-- **A length that starts with a continuation byte cannot be read** from the bytes that byte
announces: whatever the archive was, a string read from `L :: bytes` with `L ≥ 0x80` and
`bytes.length = L` fails, or returns with the stream failed. -/
theorem read_string_good_eq_false {L : UInt8} {bytes : List UInt8} (good : Bool)
    (hL : 0x80 ≤ L.toNat) (hlen : bytes.length = L.toNat) {s : List UInt8} {ar : binary_archive}
    (h : read_string ⟨L :: bytes, good⟩ = some (s, ar)) : ar.good = false := by
  rw [read_string, serialize_varint] at h
  rcases hread : read_varint 64 (L :: bytes) with ⟨code, v, rest⟩
  rw [hread] at h
  dsimp only at h
  split_ifs at h with hlt
  cases h
  show (good && decide (0 ≤ code) && decide (v ≤ rest.length)) = false
  cases hg : good
  · rfl
  · by_cases hok : 0 ≤ code
    · -- a good read: `v ≥ L` while fewer than `L` bytes are left
      have hbound := @le_read_varint_of_continued 64 L bytes hL (by norm_num)
        (by omega) (by rw [hread]; exact hok)
      rw [hread] at hbound
      have : ¬v ≤ rest.length := by simp only at hbound; omega
      simp [this]
    · simp [hok]

end binary_archive

end Salvium
