import Mathlib
import Salvium.Lib.Varint

/-!
# Salvium — transaction weight and the prunable part

A transaction's weight is its serialized size plus a clawback for aggregated range proofs
(`get_transaction_weight`). A node holding a pruned transaction no longer has the prunable
part — range proofs, ring signatures, pseudo-outputs — so `get_pruned_transaction_weight`
adds a closed-form size for it to the pruned blob. The comment over
`serialize_rctsig_prunable` asks that the formula follow the serializer.

It does for every ring signature type but one. For `RCTTypeSalviumOne` the serializer writes a
TCLSAG per input (two response vectors, `c1` and `D`: `2 * ring + 2` keys), while the formula
asks `is_rct_clsag`, which is false for that type, and falls back to the MLSAG size of
`2 * ring + 1` keys. `pruned_weight_add_gap` proves, for every transaction whose prunable
part serializes and whose one range proof has the canonical length, that the pruned weight
plus `32` bytes per input for `RCTTypeSalviumOne` (and nothing for the other types) is the
full weight; `pruned_weight_salvium_one_short` is a one-input transaction where the two
differ by `32`.

The serialized prefix and signature base are kept as bytes: both weights count them alike.
-/

namespace Salvium

/-! ## RingCT types and proofs -/

/-- The `rct::RCTType*` values. -/
inductive RCTType where
  | RCTTypeNull
  | RCTTypeFull
  | RCTTypeSimple
  | RCTTypeBulletproof
  | RCTTypeBulletproof2
  | RCTTypeCLSAG
  | RCTTypeBulletproofPlus
  | RCTTypeFullProofs
  | RCTTypeSalviumZero
  | RCTTypeSalviumOne
  deriving DecidableEq, Repr

open RCTType

/-- `rct::is_rct_bulletproof`. -/
def is_rct_bulletproof : RCTType → Bool
  | RCTTypeBulletproof | RCTTypeBulletproof2 | RCTTypeCLSAG => true
  | _ => false

/-- `rct::is_rct_bulletproof_plus`. -/
def is_rct_bulletproof_plus : RCTType → Bool
  | RCTTypeBulletproofPlus | RCTTypeFullProofs | RCTTypeSalviumZero | RCTTypeSalviumOne => true
  | _ => false

/-- `rct::is_rct_clsag`: `RCTTypeSalviumOne` is listed, and answers `false`. -/
def is_rct_clsag : RCTType → Bool
  | RCTTypeCLSAG | RCTTypeBulletproofPlus | RCTTypeFullProofs | RCTTypeSalviumZero => true
  | _ => false

/-- `rct::is_rct_tclsag`. -/
def is_rct_tclsag : RCTType → Bool
  | RCTTypeSalviumOne => true
  | _ => false

/-- `rct::key`: 32 bytes. -/
abbrev rct.key := Vector UInt8 32

/-- `rct::Bulletproof`, by the two fields the weight code reads: its `L` and `R` vectors, whose
length fixes the padded output count. -/
structure Bulletproof where
  L : List rct.key
  R : List rct.key

/-- `rct::BulletproofPlus`; `V` is not serialized and not kept. -/
structure BulletproofPlus where
  A : rct.key
  A1 : rct.key
  B : rct.key
  r1 : rct.key
  s1 : rct.key
  d1 : rct.key
  L : List rct.key
  R : List rct.key

/-- `rct::clsag` without the key image `I`, which is not serialized. -/
structure clsag where
  s : List rct.key
  c1 : rct.key
  D : rct.key

/-- `rct::tclsag` without the key image `I`. -/
structure tclsag where
  sx : List rct.key
  sy : List rct.key
  c1 : rct.key
  D : rct.key

/-- The parts of `rct::rctSigPrunable` written for the types with Bulletproof+ proofs, and the
older proofs, whose count the weight reads. -/
structure rctSigPrunable where
  bulletproofs_plus : List BulletproofPlus
  CLSAGs : List clsag
  TCLSAGs : List tclsag
  pseudoOuts : List rct.key
  bulletproofs : List Bulletproof := []

def BULLETPROOF_PLUS_MAX_OUTPUTS : ℕ := 16

/-- `rct::n_bulletproof_max_amounts_base`: the padded amount count `2 ^ (L - 6)` of a proof
whose `L` and `R` have these lengths, `0` for a malformed one. Both kinds of proof allow `16`
outputs, so both share it. -/
def n_bulletproof_max_amounts_base (L_size R_size : ℕ) : ℕ :=
  if L_size < 6 then 0
  else if L_size ≠ R_size then 0
  else if L_size > 6 + 4 then 0
  else 2 ^ (L_size - 6)

/-- No proof pads to more than `16` amounts. -/
theorem n_bulletproof_max_amounts_base_le (L_size R_size : ℕ) :
    n_bulletproof_max_amounts_base L_size R_size ≤ 2 ^ 4 := by
  unfold n_bulletproof_max_amounts_base
  split_ifs with h1 h2 h3
  · omega
  · omega
  · omega
  · exact Nat.pow_le_pow_right (by norm_num) (by omega)

/-- A well-formed proof pads to `2 ^ (L - 6)` amounts. -/
theorem n_bulletproof_max_amounts_base_of_le (L_size R_size : ℕ) (h6 : 6 ≤ L_size)
    (hR : L_size = R_size) (h10 : L_size ≤ 6 + 4) :
    n_bulletproof_max_amounts_base L_size R_size = 2 ^ (L_size - 6) := by
  unfold n_bulletproof_max_amounts_base
  rw [if_neg (by omega), if_neg (by omega), if_neg (by omega)]

/-- `rct::n_bulletproof_plus_max_amounts` of one proof. -/
def n_bulletproof_plus_max_amounts (proof : BulletproofPlus) : ℕ :=
  n_bulletproof_max_amounts_base proof.L.length proof.R.length

/-- `rct::n_bulletproof_max_amounts` of one proof. -/
def n_bulletproof_max_amounts (proof : Bulletproof) : ℕ :=
  n_bulletproof_max_amounts_base proof.L.length proof.R.length

/-- The loop both list overloads run, with the count of one proof `max_amounts`, from the count
`n` so far: the sum, or `0` if a proof is malformed or the count leaves `uint32_t`. -/
def n_bulletproof_max_amounts_loop {α : Type} (max_amounts : α → ℕ) : ℕ → List α → ℕ
  | n, [] => n
  | n, proof :: proofs =>
    let n2 := max_amounts proof
    if n2 + n ≥ 0xffffffff then 0
    else if n2 = 0 then 0
    else n_bulletproof_max_amounts_loop max_amounts (n + n2) proofs

/-- `rct::n_bulletproof_plus_max_amounts` of a list of proofs. -/
def n_bulletproof_plus_max_amounts_list (proofs : List BulletproofPlus) : ℕ :=
  n_bulletproof_max_amounts_loop n_bulletproof_plus_max_amounts 0 proofs

/-- `rct::n_bulletproof_max_amounts` of a list of proofs. -/
def n_bulletproof_max_amounts_list (proofs : List Bulletproof) : ℕ :=
  n_bulletproof_max_amounts_loop n_bulletproof_max_amounts 0 proofs

/-! ## The binary writer -/

/-- A key is written as its 32 bytes. -/
def write_key (k : rct.key) : List UInt8 := k.toList

/-- Keys written back to back, with no count (the custom vectors of the serializer). -/
def write_keys (ks : List rct.key) : List UInt8 := ks.flatMap write_key

/-- A `std::vector` field: its count as a varint, then its items. -/
def write_vector (ks : List rct.key) : List UInt8 := Varint.encode ks.length ++ write_keys ks

/-- `BulletproofPlus::serialize`. -/
def BulletproofPlus.write (p : BulletproofPlus) : List UInt8 :=
  write_keys [p.A, p.A1, p.B, p.r1, p.s1, p.d1] ++ write_vector p.L ++ write_vector p.R

/-- `rctSigPrunable::serialize_rctsig_prunable` into a binary archive: the bytes written, or
`none` where it returns `false`. `mixin` is the ring size less one. -/
def rctSigPrunable.serialize_rctsig_prunable (p : rctSigPrunable) (type : RCTType)
    (inputs outputs mixin : ℕ) : Option (List UInt8) := do
  if inputs ≥ 0xffffffff ∨ outputs ≥ 0xffffffff ∨ mixin ≥ 0xffffffff then none
  if type = RCTTypeNull then return []
  if type ≠ RCTTypeBulletproofPlus ∧ type ≠ RCTTypeFullProofs ∧ type ≠ RCTTypeSalviumZero
      ∧ type ≠ RCTTypeSalviumOne then none
  let nbp := p.bulletproofs_plus.length
  if nbp > outputs then none
  if n_bulletproof_plus_max_amounts_list p.bulletproofs_plus < outputs then none
  let bpp := Varint.encode nbp ++ p.bulletproofs_plus.flatMap BulletproofPlus.write
  let sigs ←
    if type = RCTTypeSalviumOne then do
      if p.TCLSAGs.length ≠ inputs then none
      if p.TCLSAGs.any fun sig => sig.sx.length ≠ mixin + 1 ∨ sig.sy.length ≠ mixin + 1 then none
      pure (p.TCLSAGs.flatMap fun sig =>
        write_keys sig.sx ++ write_keys sig.sy ++ write_key sig.c1 ++ write_key sig.D)
    else do
      if p.CLSAGs.length ≠ inputs then none
      if p.CLSAGs.any fun sig => sig.s.length ≠ mixin + 1 then none
      pure (p.CLSAGs.flatMap fun sig => write_keys sig.s ++ write_key sig.c1 ++ write_key sig.D)
  if p.pseudoOuts.length ≠ inputs then none
  return bpp ++ sigs ++ write_keys p.pseudoOuts

/-! ## Sizes of what the serializer writes -/

@[simp] theorem length_write_key (k : rct.key) : (write_key k).length = 32 := by
  simp [write_key]

@[simp] theorem length_write_keys (ks : List rct.key) : (write_keys ks).length = 32 * ks.length := by
  induction ks with
  | nil => simp [write_keys]
  | cons k ks ih =>
    simp only [write_keys, List.flatMap_cons, List.length_append, length_write_key] at ih ⊢
    rw [ih, List.length_cons]
    ring

/-- Items of one size `c` written back to back take `c` bytes each. -/
theorem length_flatMap_of_forall {α : Type} {l : List α} {f : α → List UInt8} {c : ℕ}
    (h : ∀ x ∈ l, (f x).length = c) : (l.flatMap f).length = l.length * c := by
  induction l with
  | nil => simp
  | cons x l ih =>
    rw [List.flatMap_cons, List.length_append, h x (by simp),
      ih fun y hy => h y (List.mem_cons_of_mem x hy), List.length_cons]
    ring

theorem length_BulletproofPlus_write (p : BulletproofPlus) (hL : p.L.length < 0x80)
    (hR : p.R.length < 0x80) :
    p.write.length = 32 * 6 + (1 + 32 * p.L.length) + (1 + 32 * p.R.length) := by
  simp [BulletproofPlus.write, write_vector, Varint.length_encode_of_lt hL,
    Varint.length_encode_of_lt hR]
  omega

/-- **The size of the prunable part.** What `serialize_rctsig_prunable` writes for a type with
Bulletproof+ proofs: the proof count, the proofs, one CLSAG (`ring + 2` keys) or TCLSAG
(`2 * ring + 2` keys) per input, and one pseudo-output per input. -/
theorem length_serialize_rctsig_prunable {p : rctSigPrunable} {type : RCTType}
    {inputs outputs mixin : ℕ} {bytes : List UInt8} (hnull : type ≠ RCTTypeNull)
    (h : p.serialize_rctsig_prunable type inputs outputs mixin = some bytes) :
    bytes.length = (Varint.encode p.bulletproofs_plus.length).length
      + (p.bulletproofs_plus.flatMap BulletproofPlus.write).length
      + (if type = RCTTypeSalviumOne then inputs * ((2 * (mixin + 1) + 2) * 32)
          else inputs * ((mixin + 1 + 2) * 32))
      + 32 * inputs := by
  simp [rctSigPrunable.serialize_rctsig_prunable, hnull] at h
  obtain ⟨-, -, -, -, h⟩ := h
  -- the branches that return `false` give `none`; what is left is the two signature layouts
  split_ifs at h with hSO hlen hbad hps hlen hbad hps <;> cases h
  · push Not at hbad
    have hsigs : (p.TCLSAGs.flatMap fun sig =>
        write_keys sig.sx ++ (write_keys sig.sy ++ (write_key sig.c1 ++ write_key sig.D))).length
        = inputs * ((2 * (mixin + 1) + 2) * 32) := by
      rw [length_flatMap_of_forall fun sig hsig => ?_, hlen]
      obtain ⟨hsx, hsy⟩ := hbad sig hsig
      simp only [List.length_append, length_write_keys, length_write_key, hsx, hsy]
      ring
    simp only [List.length_append, hsigs, length_write_keys, hps, if_pos hSO]
    ring
  · push Not at hbad
    have hsigs : (p.CLSAGs.flatMap fun sig =>
        write_keys sig.s ++ (write_key sig.c1 ++ write_key sig.D)).length
        = inputs * ((mixin + 1 + 2) * 32) := by
      rw [length_flatMap_of_forall fun sig hsig => ?_, hlen]
      simp only [List.length_append, length_write_keys, length_write_key, hbad sig hsig]
      ring
    simp only [List.length_append, hsigs, length_write_keys, hps, if_neg hSO]
    ring

/-- The serializer accepts no fewer padded amounts than outputs. -/
theorem outputs_le_of_serialize_rctsig_prunable {p : rctSigPrunable} {type : RCTType}
    {inputs outputs mixin : ℕ} {bytes : List UInt8} (hnull : type ≠ RCTTypeNull)
    (h : p.serialize_rctsig_prunable type inputs outputs mixin = some bytes) :
    outputs ≤ n_bulletproof_plus_max_amounts_list p.bulletproofs_plus := by
  simp [rctSigPrunable.serialize_rctsig_prunable, hnull] at h
  exact h.2.2.2.1

/-- One proof's padded amount count is the list's. -/
theorem n_bulletproof_plus_max_amounts_list_singleton (proof : BulletproofPlus) :
    n_bulletproof_plus_max_amounts_list [proof] = n_bulletproof_plus_max_amounts proof := by
  have hle : n_bulletproof_plus_max_amounts proof ≤ 2 ^ 4 := n_bulletproof_max_amounts_base_le _ _
  simp only [n_bulletproof_plus_max_amounts_list, n_bulletproof_max_amounts_loop]
  split_ifs with h1 h2 <;> omega

/-! ## Transactions and their weights -/

/-- The input variants the weight code tells apart. -/
inductive txin_v where
  | txin_gen (height : ℕ)
  | txin_to_key (amount : UInt64) (key_offsets : List UInt64)
  deriving DecidableEq, Repr

/-- What the weight functions read of a `cryptonote::transaction`. `unprunable` is the
serialized prefix and signature base, the bytes a pruned blob consists of. -/
structure transaction where
  version : ℕ
  vin : List txin_v
  vout_size : ℕ
  type : RCTType
  p : rctSigPrunable
  unprunable : List UInt8
  pruned : Bool

/-- The ring size of an input (`key_offsets.size()`), `0` for a coinbase input. -/
def txin_v.ring_size : txin_v → ℕ
  | .txin_gen _ => 0
  | .txin_to_key _ key_offsets => key_offsets.length

/-- `mixin` as `transaction::serialize` passes it: the first input's ring size less one. -/
def transaction.mixin (tx : transaction) : ℕ :=
  match tx.vin with
  | .txin_to_key _ key_offsets :: _ => key_offsets.length - 1
  | _ => 0

/-- The binary serialization of a RingCT transaction: the unprunable bytes, then the prunable
part unless the transaction is pruned. -/
def transaction.serialize (tx : transaction) : Option (List UInt8) :=
  if tx.vin = [] ∨ tx.pruned ∨ tx.type = RCTTypeNull then some tx.unprunable
  else (tx.unprunable ++ ·) <$>
    tx.p.serialize_rctsig_prunable tx.type tx.vin.length tx.vout_size tx.mixin

/-- `cryptonote::get_transaction_weight_clawback`. `RCTTypeSalviumZero` is commented out of the
source's list, so it gets the Bulletproof base size. -/
def get_transaction_weight_clawback (tx : transaction) (n_padded_outputs : ℕ) : Except String ℕ :=
  let plus := tx.type = RCTTypeBulletproofPlus ∨ tx.type = RCTTypeFullProofs
    ∨ tx.type = RCTTypeSalviumOne
  let bp_base := (32 * ((if plus then 6 else 9) + 7 * 2)) / 2
  let n_outputs := tx.vout_size
  if n_padded_outputs ≤ 2 then .ok 0
  else
    let nlr := Nat.clog 2 n_padded_outputs + 6
    let bp_size := 32 * ((if plus then 6 else 9) + 2 * nlr)
    if n_outputs > BULLETPROOF_PLUS_MAX_OUTPUTS then .error "maximum number of outputs is 16 per transaction"
    else if bp_base * n_padded_outputs < bp_size then .error "Invalid bulletproof clawback"
    else .ok ((bp_base * n_padded_outputs - bp_size) * 4 / 5)

def UINT64_MAX : ℕ := 2 ^ 64 - 1

/-- `cryptonote::get_transaction_weight(tx, blob_size)`: the blob size, plus for a transaction
with aggregated range proofs a clawback for the outputs its proofs pad. -/
def get_transaction_weight (tx : transaction) (blob_size : ℕ) : Except String ℕ := do
  if tx.pruned then return UINT64_MAX
  if tx.version < 2 then return blob_size
  let bulletproof := is_rct_bulletproof tx.type
  let bulletproof_plus := is_rct_bulletproof_plus tx.type
  if !bulletproof && !bulletproof_plus then return blob_size
  let n_padded_outputs := if bulletproof_plus then
      n_bulletproof_plus_max_amounts_list tx.p.bulletproofs_plus
    else n_bulletproof_max_amounts_list tx.p.bulletproofs
  let bp_clawback ← get_transaction_weight_clawback tx n_padded_outputs
  if bp_clawback > UINT64_MAX - blob_size then throw "Weight overflow"
  return blob_size + bp_clawback

/-- `cryptonote::get_pruned_transaction_weight`, for the weight of a pruned transaction from its
pruned blob: the prunable part's size is computed, not read. -/
def get_pruned_transaction_weight (tx : transaction) : Except String ℕ := do
  if ¬tx.pruned then return UINT64_MAX
  if tx.version < 2 then return UINT64_MAX
  if tx.type ∉ [RCTTypeBulletproof2, RCTTypeCLSAG, RCTTypeBulletproofPlus, RCTTypeFullProofs,
      RCTTypeSalviumZero, RCTTypeSalviumOne] then return UINT64_MAX
  -- an empty `vin`, or a first input that is not a key input, gives `UINT64_MAX` ("empty vin")
  let .txin_to_key _ key_offsets :: _ := tx.vin | return UINT64_MAX
  let ring_size := key_offsets.length
  let weight := (tx.serialize.map List.length).getD 0
  -- nbps (technically varint)
  let weight := weight + 1
  -- the proof's size for the padded output count, assuming one proof in canonical form
  let nrl := Nat.clog 2 tx.vout_size
  let n_padded_outputs := 2 ^ nrl
  let extra := 32 * ((if is_rct_bulletproof_plus tx.type then 6 else 9) + 2 * (nrl + 6)) + 2
  let weight := weight + extra
  let extra := if is_rct_clsag tx.type then tx.vin.length * (ring_size + 2) * 32
    else tx.vin.length * (ring_size * (1 + 1) * 32 + 32)
  let weight := weight + extra
  let weight := weight + 32 * tx.vin.length
  let bp_clawback ← get_transaction_weight_clawback tx n_padded_outputs
  if bp_clawback > UINT64_MAX - weight then throw "Weight overflow"
  return weight + bp_clawback

end Salvium

namespace Salvium

open RCTType

/-- The clawback never exceeds the notional size of the padded outputs' proofs. -/
theorem get_transaction_weight_clawback_le {tx : transaction} {n c : ℕ}
    (h : get_transaction_weight_clawback tx n = .ok c) : c ≤ 368 * n := by
  simp only [get_transaction_weight_clawback] at h
  split_ifs at h <;> cases h <;> omega

/-- The pruned blob is the unprunable bytes. -/
theorem serialize_pruned (tx : transaction) :
    ({ tx with pruned := true } : transaction).serialize = some tx.unprunable := by
  simp [transaction.serialize]

/-- **The pruned weight falls short by `32` bytes per input for `RCTTypeSalviumOne`.** For every
RingCT transaction with Bulletproof+ proofs whose prunable part serializes, whose first input
spends a ring of at least one member, and whose one range proof has the canonical length for
its outputs, the weight a pruned node computes, plus `32 * inputs` for `RCTTypeSalviumOne` and
nothing for the other types, is the weight of the full transaction. -/
theorem pruned_weight_add_gap {tx : transaction} {bytes : List UInt8} {proof : BulletproofPlus}
    {amount : UInt64} {key_offsets : List UInt64} {rest : List txin_v}
    (hv : 2 ≤ tx.version) (hpruned : tx.pruned = false)
    (htype : is_rct_bulletproof_plus tx.type = true)
    (hvin : tx.vin = .txin_to_key amount key_offsets :: rest) (hring : 1 ≤ key_offsets.length)
    (hbp : tx.p.bulletproofs_plus = [proof])
    (hL : proof.L.length = Nat.clog 2 tx.vout_size + 6) (hR : proof.R.length = proof.L.length)
    (hser : tx.serialize = some bytes) (hsize : bytes.length < 2 ^ 32) :
    (· + if tx.type = RCTTypeSalviumOne then 32 * tx.vin.length else 0) <$>
        get_pruned_transaction_weight { tx with pruned := true }
      = get_transaction_weight tx bytes.length := by
  have hnull : tx.type ≠ RCTTypeNull := by
    intro h; rw [h] at htype; cases htype
  -- the full blob is the pruned blob followed by the prunable part
  obtain ⟨pb, hpb, rfl⟩ : ∃ pb, tx.p.serialize_rctsig_prunable tx.type tx.vin.length
      tx.vout_size tx.mixin = some pb ∧ bytes = tx.unprunable ++ pb := by
    simp only [transaction.serialize, hvin, hpruned, hnull, reduceCtorEq, Bool.false_eq_true,
      or_self, if_false] at hser
    obtain ⟨pb, hpb, rfl⟩ := Option.map_eq_some_iff.mp hser
    exact ⟨pb, by rwa [hvin], rfl⟩
  have hmixin : tx.mixin + 1 = key_offsets.length := by
    simp only [transaction.mixin, hvin]; omega
  -- the one proof pads the outputs to `2 ^ clog`, so its length is at most `10`
  have hout := outputs_le_of_serialize_rctsig_prunable hnull hpb
  rw [hbp, n_bulletproof_plus_max_amounts_list_singleton] at hout
  have hclog : Nat.clog 2 tx.vout_size ≤ 4 :=
    Nat.clog_le_of_le_pow (hout.trans (n_bulletproof_max_amounts_base_le _ _))
  have hpad : n_bulletproof_plus_max_amounts proof = 2 ^ Nat.clog 2 tx.vout_size := by
    rw [n_bulletproof_plus_max_amounts, n_bulletproof_max_amounts_base_of_le proof.L.length
      proof.R.length (by omega) (by omega) (by omega), hL, Nat.add_sub_cancel]
  have hlen := length_serialize_rctsig_prunable hnull hpb
  rw [hbp, List.flatMap_singleton, length_BulletproofPlus_write proof (by omega) (by omega),
    Varint.length_encode_of_lt (by simp), hmixin, hR, hL] at hlen
  have h16 : 2 ^ Nat.clog 2 tx.vout_size ≤ 2 ^ 4 := Nat.pow_le_pow_right (by norm_num) hclog
  have hv1 : ¬tx.version ≤ 1 := by omega
  have htypes : tx.type = RCTTypeBulletproofPlus ∨ tx.type = RCTTypeFullProofs
      ∨ tx.type = RCTTypeSalviumZero ∨ tx.type = RCTTypeSalviumOne := by
    revert htype; cases tx.type <;> simp [is_rct_bulletproof_plus]
  -- both weights ask the same clawback of the same padded count
  rcases hc : get_transaction_weight_clawback tx (2 ^ Nat.clog 2 tx.vout_size) with e | c
  · have hc' : get_transaction_weight_clawback { tx with pruned := true }
        (2 ^ Nat.clog 2 tx.vout_size) = .error e := hc
    simp only [get_pruned_transaction_weight, get_transaction_weight, htype, ↓reduceIte, hbp,
      n_bulletproof_plus_max_amounts_list_singleton, hpad]
    rw [hc', hc]
    rcases htypes with ht | ht | ht | ht <;>
      simp [hpruned, hvin, hv1, ht, is_rct_bulletproof, bind, Except.bind, Functor.map,
        Except.map]
  · have hc' : get_transaction_weight_clawback { tx with pruned := true }
        (2 ^ Nat.clog 2 tx.vout_size) = .ok c := hc
    have hcle := get_transaction_weight_clawback_le hc
    simp only [get_pruned_transaction_weight, get_transaction_weight, htype, ↓reduceIte, hbp,
      n_bulletproof_plus_max_amounts_list_singleton, hpad]
    rw [hc', hc]
    rcases htypes with ht | ht | ht | ht <;>
      simp [hpruned, hvin, hv1, ht, is_rct_bulletproof, is_rct_clsag, bind, Except.bind, pure,
        Except.pure, Functor.map, Except.map, transaction.serialize, UINT64_MAX]
    -- neither sum comes near `2^64`; the prunable sizes agree up to the TCLSAG gap
    all_goals
      rw [hvin, ht] at hlen
      simp only [List.length_cons, reduceCtorEq, if_true, if_false] at hlen
      rw [List.length_append] at hsize
      -- the ring-size products, in one normal form on both sides
      ring_nf at hlen ⊢
      split_ifs <;> first | omega | (simp only [Except.ok.injEq]; omega)

/-- A one-input `RCTTypeSalviumOne` transaction spending a ring of 16, with two outputs, one
range proof for them and empty prefix bytes. -/
def salviumOneTx : transaction where
  version := 2
  vin := [.txin_to_key 0 (List.replicate 16 1)]
  vout_size := 2
  type := RCTTypeSalviumOne
  p :=
    { bulletproofs_plus := [⟨0, 0, 0, 0, 0, 0, List.replicate 7 0, List.replicate 7 0⟩]
      CLSAGs := []
      TCLSAGs := [⟨List.replicate 16 0, List.replicate 16 0, 0, 0⟩]
      pseudoOuts := [0] }
  unprunable := []
  pruned := false

/-- The transaction serializes to `1763` bytes, its weight is `1763`, and a pruned node counts
`1731` for it. -/
theorem pruned_weight_salvium_one_short :
    salviumOneTx.serialize.map List.length = some 1763
      ∧ get_transaction_weight salviumOneTx 1763 = .ok 1763
      ∧ get_pruned_transaction_weight { salviumOneTx with pruned := true } = .ok 1731 := by
  decide +kernel

end Salvium
