import Mathlib
import Salvium.Lib.Sorted

/-!
# Salvium — basic types

The fixed-size byte types of `crypto/crypto.h`, `crypto/hash.h` and `carrot_core/core_types.h`,
and the transaction type enumeration of `cryptonote_protocol/enums.h`. Each fixed-size value is
a `Vector` of its length, so a value of the wrong size cannot be built.
-/

namespace Salvium

/-- `crypto::hash`: a 32-byte digest. -/
structure Crypto.Hash where
  data : Vector UInt8 32
  deriving DecidableEq, Repr

/-- `crypto::null_hash`: all zero bytes. -/
def Crypto.null_hash : Crypto.Hash := ⟨Vector.replicate 32 0⟩

/-- `crypto::public_key`: 32 bytes, an Ed25519 point (an X25519 one where Carrot stores an
ephemeral key in the same slot). -/
structure Crypto.public_key where
  data : Vector UInt8 32
  deriving DecidableEq, Repr

/-- `crypto::null_pkey`: all zero bytes. -/
def Crypto.null_pkey : Crypto.public_key := ⟨Vector.replicate 32 0⟩

/-- `crypto::public_key`'s `operator<`: `memcmp` of the 32 bytes, so lexicographic order. -/
instance : LT Crypto.public_key := ⟨fun a b => a.data.toList < b.data.toList⟩

instance (a b : Crypto.public_key) : Decidable (a < b) :=
  inferInstanceAs (Decidable (a.data.toList < b.data.toList))

/-- Two different keys are ordered one way or the other. -/
theorem Crypto.public_key.lt_or_gt_of_ne {a b : Crypto.public_key} (h : a ≠ b) : a < b ∨ b < a :=
  List.lt_or_gt_of_ne_trichotomous fun hl => h (by
    cases a; cases b
    simpa [Vector.toList_inj] using hl)

/-- The null key is below every other key: nothing is below a zero byte. -/
theorem Crypto.null_pkey_lt {k : Crypto.public_key} (h : k ≠ Crypto.null_pkey) :
    Crypto.null_pkey < k := by
  have hnot : ¬ k < Crypto.null_pkey := by
    have hzero : ∀ x : UInt8, ¬ x < 0 := fun _ => UInt8.not_lt.mpr UInt8.zero_le
    have hmin := List.not_lt_replicate hzero k.data.toList
    rw [Vector.length_toList] at hmin
    show ¬ k.data.toList < (Vector.replicate 32 (0 : UInt8)).toList
    rwa [Vector.toList_replicate]
  exact (Crypto.public_key.lt_or_gt_of_ne h).resolve_left hnot

/-- `epee::string_tools::pod_to_hex`: two lower-case hex digits per byte. -/
def Crypto.pod_to_hex {n : ℕ} (pod : Vector UInt8 n) : String :=
  String.ofList (pod.toList.flatMap fun b =>
    [Nat.digitChar (b.toNat / 16), Nat.digitChar (b.toNat % 16)])

/-- The value of a hex digit of either case (`epee::misc_utils::parse::isx`). -/
def Crypto.hex_digit (c : Char) : Option UInt8 :=
  if '0' ≤ c ∧ c ≤ '9' then some (UInt8.ofNat (c.toNat - '0'.toNat))
  else if 'a' ≤ c ∧ c ≤ 'f' then some (UInt8.ofNat (c.toNat - 'a'.toNat + 10))
  else if 'A' ≤ c ∧ c ≤ 'F' then some (UInt8.ofNat (c.toNat - 'A'.toNat + 10))
  else none

/-- `from_hex::to_buffer_unchecked`: pairs of hex digits, high digit first. -/
def Crypto.hex_to_bytes : List Char → Option (List UInt8)
  | [] => some []
  | hi :: lo :: rest => do
    let h ← Crypto.hex_digit hi
    let l ← Crypto.hex_digit lo
    let bytes ← Crypto.hex_to_bytes rest
    pure ((h <<< 4 ||| l) :: bytes)
  | [_] => none

/-- `epee::string_tools::hex_to_pod` into `n` bytes: the string must have `2 * n` (or `2 * n + 1`,
which then fails as odd) characters, all hex digits. -/
def Crypto.hex_to_pod (n : ℕ) (hex_str : String) : Option (Vector UInt8 n) :=
  if hex_str.length / 2 = n then
    match Crypto.hex_to_bytes hex_str.toList with
    | some bytes => if h : bytes.length = n then some ⟨bytes.toArray, by simpa using h⟩ else none
    | none => none
  else none

/-- `crypto::view_tag`: the one-byte view tag of a `txout_to_tagged_key`. -/
structure Crypto.view_tag where
  data : UInt8
  deriving DecidableEq, Repr

/-- `carrot::view_tag_t`: the three-byte Carrot view tag. -/
structure Carrot.view_tag_t where
  bytes : Vector UInt8 3
  deriving DecidableEq, Repr

/-- `carrot::encrypted_janus_anchor_t`: the sixteen-byte encrypted Janus anchor. -/
structure Carrot.encrypted_janus_anchor_t where
  bytes : Vector UInt8 16
  deriving DecidableEq, Repr

/-- `cryptonote::transaction_type`. -/
inductive transaction_type where
  | UNSET
  | MINER
  | PROTOCOL
  | TRANSFER
  | CONVERT
  | BURN
  | STAKE
  | RETURN
  | AUDIT
  deriving DecidableEq, Repr

end Salvium
