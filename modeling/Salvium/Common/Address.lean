import Mathlib
import Salvium.Common.Base58
import Salvium.Common.Varint

/-!
# Salvium — checked addresses (`encode_addr`, `decode_addr` of `common/base58.cpp`)

An address is the base58 of three parts: the tag as a varint, the data, and the first
`addr_checksum_size` bytes of `cn_fast_hash` of the first two. The hash is a parameter of
everything here, so nothing below uses more of it than that it is a function.

Decoding an encoding gives the tag and the data back (`decode_addr_encode_addr`). The other
direction holds except in one case (`encode_addr_decode_addr`). The decoder reads the tag
with `read_varint`, which accepts a run of continuation bytes that reaches the end. Such an
address decodes to no data and is not the encoding of what it decodes to
(`decode_addr_accepts_truncated_tag`).
-/

namespace Salvium

namespace Base58

def addr_checksum_size : ℕ := 4

/-- `tools::get_varint_data`. -/
def get_varint_data (v : ℕ) : List UInt8 := write_varint v

section

variable (cn_fast_hash : List UInt8 → Crypto.Hash)

/-- The checksum both directions compute: the first `addr_checksum_size` bytes of the hash. -/
def addr_checksum (buf : List UInt8) : List UInt8 :=
  (cn_fast_hash buf).data.toList.take addr_checksum_size

def encode_addr (tag : UInt64) (data : List UInt8) : List UInt8 :=
  let buf := get_varint_data tag.toNat ++ data
  encode (buf ++ addr_checksum cn_fast_hash buf)

/-- `decode_addr`: `none` is the source's `false`. The tag is read into a `uint64_t`. -/
def decode_addr (addr : List UInt8) : Option (UInt64 × List UInt8) :=
  (decode addr).bind fun addr_data =>
    if addr_data.length ≤ addr_checksum_size then none
    else
      let checksum := addr_data.drop (addr_data.length - addr_checksum_size)
      let addr_data := addr_data.take (addr_data.length - addr_checksum_size)
      if addr_checksum cn_fast_hash addr_data ≠ checksum then none
      else
        let (read, tag, _) := read_varint 64 addr_data
        if read ≤ 0 then none
        else some (UInt64.ofNat tag, addr_data.drop read.toNat)

theorem length_addr_checksum (buf : List UInt8) :
    (addr_checksum cn_fast_hash buf).length = addr_checksum_size := by
  simp [addr_checksum, addr_checksum_size]

/-- What the decoder does with bytes that carry their own checksum: read the tag. -/
theorem decode_addr_of_decode {addr buf : List UInt8}
    (h : decode addr = some (buf ++ addr_checksum cn_fast_hash buf)) (hbuf : buf ≠ []) :
    decode_addr cn_fast_hash addr =
      if (read_varint 64 buf).1 ≤ 0 then none
      else some (UInt64.ofNat (read_varint 64 buf).2.1, buf.drop (read_varint 64 buf).1.toNat) := by
  have hlen := length_addr_checksum cn_fast_hash buf
  have hpos : 0 < buf.length := List.length_pos_iff.mpr hbuf
  have hsplit : (buf ++ addr_checksum cn_fast_hash buf).length - addr_checksum_size = buf.length := by
    rw [List.length_append, hlen]
    omega
  rw [decode_addr, h, Option.bind_some, if_neg (by rw [List.length_append, hlen]; omega), hsplit]
  dsimp only
  rw [List.drop_left, List.take_left, if_neg (not_not.mpr rfl)]

/-- What a successful decode read: bytes that carry their checksum, and a tag read from them. -/
theorem decode_addr_eq_some {addr : List UInt8} {tag : UInt64} {data : List UInt8}
    (h : decode_addr cn_fast_hash addr = some (tag, data)) :
    ∃ buf, decode addr = some (buf ++ addr_checksum cn_fast_hash buf) ∧
      0 < (read_varint 64 buf).1 ∧ tag = UInt64.ofNat (read_varint 64 buf).2.1 ∧
      data = buf.drop (read_varint 64 buf).1.toNat := by
  rcases hd : decode addr with _ | addr_data
  · rw [decode_addr, hd] at h
    cases h
  rw [decode_addr, hd, Option.bind_some] at h
  split_ifs at h with hshort
  dsimp only at h
  split_ifs at h with hsum hread0
  -- the checksum the decoder compared is the last bytes of what base58 decoded
  have hcs : addr_data = addr_data.take (addr_data.length - addr_checksum_size) ++
      addr_checksum cn_fast_hash (addr_data.take (addr_data.length - addr_checksum_size)) := by
    rw [not_not.mp hsum, List.take_append_drop]
  refine ⟨addr_data.take (addr_data.length - addr_checksum_size), congrArg some hcs, by omega, ?_⟩
  cases h
  exact ⟨rfl, rfl⟩

/-- **Encoding then decoding gives the tag and the data back**, for every hash function. -/
theorem decode_addr_encode_addr (tag : UInt64) (data : List UInt8) :
    decode_addr cn_fast_hash (encode_addr cn_fast_hash tag data) = some (tag, data) := by
  have hread := read_varint_encode tag.toNat_lt data
  have hne : get_varint_data tag.toNat ++ data ≠ [] :=
    List.append_ne_nil_of_left_ne_nil (Varint.encode_ne_nil _) data
  rw [encode_addr, decode_addr_of_decode cn_fast_hash (decode_encode _) hne, get_varint_data,
    write_varint, hread]
  have hpos : 0 < (Varint.encode tag.toNat).length :=
    List.length_pos_iff.mpr (Varint.encode_ne_nil _)
  dsimp only
  rw [if_neg (by omega), UInt64.ofNat_toNat]
  simp

/-- **Decoding then encoding gives the address back**, unless the tag was read from a run of
continuation bytes that takes up all of what the checksum covers, which leaves no data. -/
theorem encode_addr_decode_addr {addr : List UInt8} {tag : UInt64} {data : List UInt8}
    (h : decode_addr cn_fast_hash addr = some (tag, data)) :
    encode_addr cn_fast_hash tag data = addr ∨
      ∃ buf, decode addr = some (buf ++ addr_checksum cn_fast_hash buf) ∧ data = [] ∧
        ∀ b ∈ buf, 0x80 ≤ b.toNat := by
  obtain ⟨buf, hdec, hread, rfl, rfl⟩ := decode_addr_eq_some cn_fast_hash h
  rcases read_varint_loop_canonical buf (le_of_lt hread) with
      ⟨m, k, htake, -, hcode, hval, -⟩ | ⟨-, hcode, hcont⟩
  · -- the tag bytes are the writer's bytes of the value read
    left
    have hbuf : buf = write_varint m ++ buf.drop k := by
      rw [write_varint, ← htake, List.take_append_drop]
    have hcode' : (read_varint 64 buf).1.toNat = k := by
      rw [read_varint, hcode]
      simp
    have hval' : (read_varint 64 buf).2.1 = m := by
      rw [read_varint, hval]
      simp
    -- a value of `2 ^ 64` or more would have overflowed
    have hm : m < 2 ^ 64 := by
      by_contra hge
      have hover := read_varint_write_varint_overflow (not_lt.mp hge) (buf.drop k)
      rw [← hbuf] at hover
      rw [hover] at hread
      simp [EVARINT_OVERFLOW] at hread
    have htag : (UInt64.ofNat m).toNat = m := by
      rw [UInt64.toNat_ofNat']
      exact Nat.mod_eq_of_lt hm
    rw [hcode', hval', encode_addr, get_varint_data, htag, ← hbuf]
    exact encode_decode hdec
  · -- the tag ran to the end: nothing is left for the data
    right
    refine ⟨buf, hdec, ?_, hcont⟩
    have hcode' : (read_varint 64 buf).1.toNat = buf.length := by
      rw [read_varint, hcode]
      simp
    rw [hcode', List.drop_length]

/-- Two addresses under the null hash: three data bytes behind tag `18` encode back to
themselves, and the byte `0x80` with its checksum decodes to tag `0` and no data, read from a
tag that runs to the end, so only the second disjunct holds of it. -/
theorem encode_addr_decode_addr_null_hash :
    (encode_addr (fun _ => Crypto.null_hash) 18 [1, 2, 3] =
        encode_addr (fun _ => Crypto.null_hash) 18 [1, 2, 3] ∨
      ∃ buf, decode (encode_addr (fun _ => Crypto.null_hash) 18 [1, 2, 3]) =
          some (buf ++ addr_checksum (fun _ => Crypto.null_hash) buf) ∧
        ([1, 2, 3] : List UInt8) = [] ∧ ∀ b ∈ buf, 0x80 ≤ b.toNat) ∧
      decode_addr (fun _ => Crypto.null_hash)
          (encode ([0x80] ++ addr_checksum (fun _ => Crypto.null_hash) [0x80])) = some (0, []) ∧
      (encode_addr (fun _ => Crypto.null_hash) 0 [] =
          encode ([0x80] ++ addr_checksum (fun _ => Crypto.null_hash) [0x80]) ∨
        ∃ buf, decode (encode ([0x80] ++ addr_checksum (fun _ => Crypto.null_hash) [0x80])) =
            some (buf ++ addr_checksum (fun _ => Crypto.null_hash) buf) ∧
          ([] : List UInt8) = [] ∧ ∀ b ∈ buf, 0x80 ≤ b.toNat) := by
  have htrunc : decode_addr (fun _ => Crypto.null_hash)
      (encode ([0x80] ++ addr_checksum (fun _ => Crypto.null_hash) [0x80])) = some (0, []) := by
    rw [decode_addr_of_decode _ (decode_encode _) (List.cons_ne_nil _ _),
      read_varint_continuation_byte]
    rfl
  exact ⟨encode_addr_decode_addr _ (decode_addr_encode_addr _ 18 [1, 2, 3]), htrunc,
    encode_addr_decode_addr _ htrunc⟩

/-- **A truncated tag is accepted.** Whatever the hash, the address made of the byte `0x80`
and its checksum decodes to tag `0` and no data, and is not the encoding of that pair, whose
tag byte is `0x00`. -/
theorem decode_addr_accepts_truncated_tag :
    decode_addr cn_fast_hash (encode ([0x80] ++ addr_checksum cn_fast_hash [0x80])) =
        some (0, []) ∧
      encode_addr cn_fast_hash 0 [] ≠ encode ([0x80] ++ addr_checksum cn_fast_hash [0x80]) := by
  constructor
  · rw [decode_addr_of_decode cn_fast_hash (decode_encode _) (List.cons_ne_nil _ _),
      read_varint_continuation_byte]
    rfl
  · intro heq
    -- base58 is injective, and the first bytes differ
    have hbytes := congrArg decode heq
    rw [encode_addr, get_varint_data, write_varint, Varint.encode_of_lt (by norm_num),
      decode_encode, decode_encode] at hbytes
    have := congrArg List.head? (Option.some.inj hbytes)
    simp at this

end

end Base58

end Salvium
