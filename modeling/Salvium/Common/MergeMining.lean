import Mathlib
import Salvium.Lib.BitField

/-!
# Salvium — the merge-mining depth

The merge-mining tag of a block carries one 32-bit `depth` that packs three fields: the bits of
the aux-chain slot path less one (`n_bits - 1`, in three bits), the number of aux chains less one
(in `n_bits` bits, from bit `3`) and the nonce of the slot hash (from bit `3 + n_bits`).
`encode_mm_depth` takes `n_bits` as the bits needed for `n_aux_chains - 1`, up to `16`;
`decode_mm_depth` reads `n_bits - 1` back from the three low bits.

For up to `256` chains `n_bits - 1` fits in three bits, and every nonce the aux-pow server
searches comes back (`decode_encode_mm_depth`). Above that the field overflows into the chain
count: `encode_mm_depth` accepts every positive count (`encode_mm_depth_ok`, its check on
`n_bits` never fails) but `decode_mm_depth` never reads more than `256` chains
(`decode_mm_depth_n_aux_chains_le`), so the count does not come back
(`decode_encode_mm_depth_ne`).
-/

namespace Salvium

namespace MergeMining

/-- The loop of `encode_mm_depth`: `++n_bits` while `(1u << n_bits) < n_aux_chains` and
`n_bits < 16`. The guard on `n_bits` stops it after at most fifteen turns, within the `16` turns
of fuel it is given. -/
def encode_mm_depth_n_bits (n_aux_chains : UInt32) : ℕ → UInt32 → UInt32
  | 0, n_bits => n_bits
  | fuel + 1, n_bits =>
    if (1 <<< n_bits) < n_aux_chains ∧ n_bits < 16 then
      encode_mm_depth_n_bits n_aux_chains fuel (n_bits + 1)
    else n_bits

/-- `encode_mm_depth(n_aux_chains, nonce)`. -/
def encode_mm_depth (n_aux_chains nonce : UInt32) : Except String UInt32 := do
  if ¬n_aux_chains > 0 then throw "n_aux_chains is 0"
  -- how many bits we need to represent `n_aux_chains - 1`
  let n_bits := encode_mm_depth_n_bits n_aux_chains 16 1
  if ¬n_bits ≤ 16 then throw "Way too many bits required"
  pure ((n_bits - 1 : UInt32) ||| ((n_aux_chains - 1) <<< 3) ||| (nonce <<< (3 + n_bits)))

/-- `decode_mm_depth(depth, n_aux_chains, nonce)`: the pair `(n_aux_chains, nonce)` it writes;
it always returns `true`. -/
def decode_mm_depth (depth : UInt32) : UInt32 × UInt32 :=
  let n_bits : UInt32 := 1 + (depth &&& 7)
  ((1 : UInt32) + (depth >>> 3 &&& ((1 <<< n_bits) - 1)), depth >>> (3 + n_bits))

/-! ## The bits of the chain count -/

theorem toNat_one_shiftLeft {b : UInt32} (hb : b.toNat < 32) :
    ((1 : UInt32) <<< b).toNat = 2 ^ b.toNat := by
  have hpow : (2 : ℕ) ^ b.toNat < 2 ^ 32 := Nat.pow_lt_pow_right (by norm_num) hb
  rw [UInt32.toNat_shiftLeft, UInt32.toNat_one, Nat.mod_eq_of_lt hb, Nat.one_shiftLeft,
    Nat.mod_eq_of_lt hpow]

/-- **The loop of `encode_mm_depth`.** Started at `s` with fuel enough to reach `16`, it stops at
the first `r ≥ s` with `n_aux_chains ≤ 2 ^ r`, or at `16`. The induction is on the fuel; each turn
that goes on has checked `2 ^ n_bits < n_aux_chains`. -/
theorem encode_mm_depth_n_bits_spec (n : UInt32) :
    ∀ (fuel : ℕ) (s : UInt32), s.toNat ≤ 16 → 16 ≤ s.toNat + fuel →
      s.toNat ≤ (encode_mm_depth_n_bits n fuel s).toNat ∧
        (encode_mm_depth_n_bits n fuel s).toNat ≤ 16 ∧
        ((encode_mm_depth_n_bits n fuel s).toNat = 16 ∨
          n.toNat ≤ 2 ^ (encode_mm_depth_n_bits n fuel s).toNat) ∧
        ∀ j, s.toNat ≤ j → j < (encode_mm_depth_n_bits n fuel s).toNat → 2 ^ j < n.toNat
  | 0, s, hs, hf => by
    simp only [encode_mm_depth_n_bits]
    exact ⟨le_rfl, hs, Or.inl (by omega), fun j hj hj' => absurd hj' (by omega)⟩
  | fuel + 1, s, hs, hf => by
    have hpow := toNat_one_shiftLeft (b := s) (by omega)
    unfold encode_mm_depth_n_bits
    split_ifs with hc
    · -- one more turn: `2 ^ s < n_aux_chains`, and the rest from `s + 1`
      have hlt : 2 ^ s.toNat < n.toNat := by
        rw [← hpow, ← UInt32.lt_iff_toNat_lt]
        exact hc.1
      have hs16 : s.toNat < 16 := UInt32.lt_iff_toNat_lt.1 hc.2
      have hsucc : (s + 1).toNat = s.toNat + 1 := by
        rw [UInt32.toNat_add, UInt32.toNat_one, Nat.mod_eq_of_lt (by omega)]
      obtain ⟨hle, h16, hstop, hbelow⟩ :=
        encode_mm_depth_n_bits_spec n fuel (s + 1) (by omega) (by omega)
      rw [hsucc] at hle hbelow
      refine ⟨by omega, h16, hstop, fun j hj hj' => ?_⟩
      rcases Nat.eq_or_lt_of_le hj with rfl | hj
      · exact hlt
      · exact hbelow j hj hj'
    · -- the loop stops: `16` bits, or enough for the chains
      refine ⟨le_rfl, hs, ?_, fun j hj hj' => absurd hj' (by omega)⟩
      rw [not_and_or, UInt32.not_lt, UInt32.not_lt, UInt32.le_iff_toNat_le,
        UInt32.le_iff_toNat_le, hpow] at hc
      rcases hc with hc | hc
      · exact Or.inr hc
      · exact Or.inl (by simp only [UInt32.toNat_ofNat] at hc; omega)

/-- Up to `256` chains, `encode_mm_depth` takes between `1` and `8` bits, enough for the count. -/
theorem encode_mm_depth_n_bits_of_le {n : UInt32} (hn : n.toNat ≤ 256) :
    1 ≤ (encode_mm_depth_n_bits n 16 1).toNat ∧ (encode_mm_depth_n_bits n 16 1).toNat ≤ 8 ∧
      n.toNat ≤ 2 ^ (encode_mm_depth_n_bits n 16 1).toNat := by
  obtain ⟨hle, -, hstop, hbelow⟩ := encode_mm_depth_n_bits_spec n 16 1 (by decide) (by decide)
  -- nine bits or more would have checked `2 ^ 8 < n_aux_chains`
  have h8 : (encode_mm_depth_n_bits n 16 1).toNat ≤ 8 := by
    by_contra h
    have := hbelow 8 (by decide) (by omega)
    omega
  refine ⟨hle, h8, ?_⟩
  rcases hstop with h | h
  · omega
  · exact h

/-! ## Encoding and decoding -/

/-- **Every positive count is accepted**: the check on `n_bits` never fails. -/
theorem encode_mm_depth_ok {n : UInt32} (hn : 0 < n) (nonce : UInt32) :
    encode_mm_depth n nonce = .ok ((encode_mm_depth_n_bits n 16 1 - 1 : UInt32) ||| ((n - 1) <<< 3) |||
      (nonce <<< (3 + encode_mm_depth_n_bits n 16 1))) := by
  obtain ⟨-, h16, -⟩ := encode_mm_depth_n_bits_spec n 16 1 (by decide) (by decide)
  have h16' : encode_mm_depth_n_bits n 16 1 ≤ 16 := UInt32.le_iff_toNat_le.2 h16
  simp only [encode_mm_depth, hn, h16', not_true_eq_false, if_false]
  rfl

/-- **What `decode_mm_depth` reads**: the low three bits give `n_bits - 1`, the next `n_bits`
bits the count less one, and what lies above them the nonce. -/
theorem toNat_decode_mm_depth (depth : UInt32) :
    (decode_mm_depth depth).1.toNat = 1 + (depth.toNat >>> 3 &&& (2 ^ (1 + (depth.toNat &&& 7)) - 1)) ∧
      (decode_mm_depth depth).2.toNat = depth.toNat >>> (3 + (1 + (depth.toNat &&& 7))) := by
  have h7 : depth.toNat &&& 7 ≤ 7 := Nat.and_le_right
  have hbits : ((1 : UInt32) + (depth &&& 7)).toNat = 1 + (depth.toNat &&& 7) := by
    rw [UInt32.toNat_add, UInt32.toNat_one, UInt32.toNat_and, Nat.mod_eq_of_lt (by simp; omega)]
    rfl
  have hpow := toNat_one_shiftLeft (b := (1 : UInt32) + (depth &&& 7)) (by omega)
  rw [hbits] at hpow
  have hone : (1 : UInt32) ≤ 1 <<< ((1 : UInt32) + (depth &&& 7)) := by
    rw [UInt32.le_iff_toNat_le, hpow, UInt32.toNat_one]
    exact Nat.one_le_two_pow
  have hmask : ((1 <<< ((1 : UInt32) + (depth &&& 7))) - 1 : UInt32).toNat =
      2 ^ (1 + (depth.toNat &&& 7)) - 1 := by
    rw [UInt32.toNat_sub_of_le _ _ hone, hpow, UInt32.toNat_one]
  have hfield : depth.toNat >>> 3 &&& (2 ^ (1 + (depth.toNat &&& 7)) - 1) < 2 ^ 8 :=
    Nat.lt_of_le_of_lt Nat.and_le_right (by
      have : 2 ^ (1 + (depth.toNat &&& 7)) ≤ 2 ^ 8 := Nat.pow_le_pow_right (by norm_num) (by omega)
      omega)
  constructor
  · show ((1 : UInt32) + (depth >>> 3 &&& ((1 <<< ((1 : UInt32) + (depth &&& 7))) - 1))).toNat = _
    have h3 : (3 : UInt32).toNat % 32 = 3 := rfl
    rw [UInt32.toNat_add, UInt32.toNat_one, UInt32.toNat_and, hmask, UInt32.toNat_shiftRight, h3]
    exact Nat.mod_eq_of_lt (by omega)
  · show (depth >>> (3 + ((1 : UInt32) + (depth &&& 7)))).toNat = _
    have hshift : (3 + ((1 : UInt32) + (depth &&& 7))).toNat = 3 + (1 + (depth.toNat &&& 7)) := by
      rw [UInt32.toNat_add, hbits, Nat.mod_eq_of_lt (by simp; omega)]
      rfl
    rw [UInt32.toNat_shiftRight, hshift, Nat.mod_eq_of_lt (by omega)]

/-- **`decode_mm_depth` reads at most `256` chains**: the count field has at most eight bits. -/
theorem decode_mm_depth_n_aux_chains_le (depth : UInt32) :
    (decode_mm_depth depth).1.toNat ≤ 256 := by
  have h7 : depth.toNat &&& 7 ≤ 7 := Nat.and_le_right
  have hpow : 2 ^ (1 + (depth.toNat &&& 7)) ≤ 2 ^ 8 := Nat.pow_le_pow_right (by norm_num) (by omega)
  have hfield : depth.toNat >>> 3 &&& (2 ^ (1 + (depth.toNat &&& 7)) - 1) ≤
      2 ^ (1 + (depth.toNat &&& 7)) - 1 := Nat.and_le_right
  rw [(toNat_decode_mm_depth depth).1]
  omega

/-- The depth that `encode_mm_depth` packs, for `n_bits` of at most `8` bits, no more chains than
they count and a nonce of sixteen bits: the three fields side by side. -/
theorem toNat_mm_depth {n_bits n nonce : UInt32} (hb1 : 1 ≤ n_bits.toNat) (hb8 : n_bits.toNat ≤ 8)
    (hn1 : 1 ≤ n.toNat) (hnb : n.toNat ≤ 2 ^ n_bits.toNat) (hnonce : nonce.toNat ≤ 65535) :
    ((n_bits - 1 : UInt32) ||| ((n - 1) <<< 3) ||| (nonce <<< (3 + n_bits))).toNat =
      (n_bits.toNat - 1) + ((n.toNat - 1) + nonce.toNat * 2 ^ n_bits.toNat) * 2 ^ 3 := by
  have hb : (n_bits - 1).toNat = n_bits.toNat - 1 :=
    UInt32.toNat_sub_of_le _ _ (UInt32.le_iff_toNat_le.2 (by simpa using hb1))
  have hn : (n - 1).toNat = n.toNat - 1 :=
    UInt32.toNat_sub_of_le _ _ (UInt32.le_iff_toNat_le.2 (by simpa using hn1))
  have hpow8 : 2 ^ n_bits.toNat ≤ 2 ^ 8 := Nat.pow_le_pow_right (by norm_num) hb8
  have hshift : (3 + n_bits).toNat = 3 + n_bits.toNat := by
    rw [UInt32.toNat_add, Nat.mod_eq_of_lt (by simp; omega)]
    rfl
  -- neither shift loses a bit
  have hcount : ((n - 1) <<< 3 : UInt32).toNat = (n.toNat - 1) <<< 3 := by
    rw [UInt32.toNat_shiftLeft, hn, Nat.mod_eq_of_lt (by simp : (3 : UInt32).toNat < 32)]
    rw [Nat.mod_eq_of_lt (by rw [Nat.shiftLeft_eq]; simp; omega)]
    rfl
  have hnonce' : (nonce <<< (3 + n_bits)).toNat = nonce.toNat <<< (3 + n_bits.toNat) := by
    have hlt : nonce.toNat * 2 ^ (3 + n_bits.toNat) < 2 ^ 32 := by
      have : 2 ^ (3 + n_bits.toNat) ≤ 2 ^ 11 := Nat.pow_le_pow_right (by norm_num) (by omega)
      calc nonce.toNat * 2 ^ (3 + n_bits.toNat) ≤ 65535 * 2 ^ 11 := Nat.mul_le_mul hnonce this
        _ < 2 ^ 32 := by norm_num
    rw [UInt32.toNat_shiftLeft, hshift, Nat.mod_eq_of_lt (show 3 + n_bits.toNat < 32 by omega),
      Nat.shiftLeft_eq, Nat.mod_eq_of_lt hlt]
  have hlow : n_bits.toNat - 1 < 2 ^ 3 := by simp; omega
  have hmid : n.toNat - 1 < 2 ^ n_bits.toNat := by omega
  rw [UInt32.toNat_or, UInt32.toNat_or, hb, hcount, hnonce', BitField.or_shiftLeft_eq_add hlow,
    BitField.or_shiftLeft_eq_add (BitField.add_mul_two_pow_lt hlow hmid), Nat.pow_add, Nat.add_mul,
    Nat.mul_assoc, Nat.mul_comm (2 ^ n_bits.toNat), Nat.add_assoc]

/-- **Round trip**: up to `256` chains, `decode_mm_depth` gives back the count and every nonce of
sixteen bits that `encode_mm_depth` packed. -/
theorem decode_encode_mm_depth {n nonce : UInt32} (hn1 : 1 ≤ n.toNat) (hn : n.toNat ≤ 256)
    (hnonce : nonce.toNat ≤ 65535) :
    ∃ depth, encode_mm_depth n nonce = .ok depth ∧ decode_mm_depth depth = (n, nonce) := by
  obtain ⟨hb1, hb8, hnb⟩ := encode_mm_depth_n_bits_of_le hn
  set b := encode_mm_depth_n_bits n 16 1 with hbdef
  refine ⟨_, encode_mm_depth_ok (UInt32.lt_iff_toNat_lt.2 (by simp only [UInt32.toNat_zero]; omega))
    nonce, ?_⟩
  have hdepth := toNat_mm_depth hb1 hb8 hn1 hnb hnonce
  set depth := (b - 1 : UInt32) ||| ((n - 1) <<< 3) ||| (nonce <<< (3 + b)) with hd
  have hlow : b.toNat - 1 < 2 ^ 3 := by simp; omega
  have hmid : n.toNat - 1 < 2 ^ b.toNat := by omega
  -- the three fields, read back from the packed depth
  have hbits : depth.toNat &&& 7 = b.toNat - 1 := by
    rw [hdepth]
    exact BitField.and_two_pow_sub_one_add_mul hlow
  have hrest : depth.toNat >>> 3 = (n.toNat - 1) + nonce.toNat * 2 ^ b.toNat := by
    rw [hdepth]
    exact BitField.add_mul_shiftRight hlow
  obtain ⟨h1, h2⟩ := toNat_decode_mm_depth depth
  rw [hbits, hrest, show 1 + (b.toNat - 1) = b.toNat by omega,
    BitField.and_two_pow_sub_one_add_mul hmid] at h1
  rw [hbits, show 3 + (1 + (b.toNat - 1)) = 3 + b.toNat by omega, Nat.shiftRight_add, hrest,
    BitField.add_mul_shiftRight hmid] at h2
  refine Prod.ext ?_ ?_
  · show (decode_mm_depth depth).1 = n
    rw [← UInt32.toNat_inj, h1]
    omega
  · show (decode_mm_depth depth).2 = nonce
    rw [← UInt32.toNat_inj, h2]

theorem decode_encode_mm_depth_three :
    ∃ depth, encode_mm_depth 3 7 = .ok depth ∧ decode_mm_depth depth = (3, 7) :=
  decode_encode_mm_depth (by decide) (by decide) (by decide)

/-- **Above `256` chains the count does not come back.** -/
theorem decode_encode_mm_depth_ne {n nonce depth : UInt32} (hn : 256 < n.toNat)
    (_ : encode_mm_depth n nonce = .ok depth) : decode_mm_depth depth ≠ (n, nonce) := by
  intro heq
  have hfst : (decode_mm_depth depth).1 = n := congrArg Prod.fst heq
  have hle := decode_mm_depth_n_aux_chains_le depth
  rw [hfst] at hle
  omega

/-- `257` chains and the nonce `0`: the nine bits of the count set bit `3` of the depth, which the
decoder takes for the count's low bit, so `2056` decodes to two chains and the nonce `128`. -/
theorem decode_encode_mm_depth_257 :
    encode_mm_depth 257 0 = .ok 2056 ∧ decode_mm_depth 2056 = (2, 128) := by
  constructor <;> decide

end MergeMining

end Salvium
