import Mathlib
import Salvium.Lib.Residue

/-!
# Salvium — the pruning schedule (`common/pruning.h`, `common/pruning.cpp`)

A pruned node keeps the prunable data of one stripe of blocks: heights are cut into runs of
`CRYPTONOTE_PRUNING_STRIPE_SIZE`, the runs are dealt round `2 ^ log_stripes` stripes, and the
last `CRYPTONOTE_PRUNING_TIP_BLOCKS` blocks are kept by every node. A pruning seed packs the
stripe and `log_stripes` into a `uint32_t`; seed `0` is a node that prunes nothing.

`has_unpruned_block` says pointwise which heights a seed keeps; `get_next_unpruned_block_height`
and `get_next_pruned_block_height` compute the next kept and the next pruned height in closed
form. The model keeps the source's fixed-width types and its guards, and shows, over `ℕ`, that
`get_next_unpruned_block_height` is the least kept height from `block_height` on
(`get_next_unpruned_block_height_least`), and that `get_next_pruned_block_height` is the least
pruned height whenever there is one (`get_next_pruned_block_height_least`). When there is none
below the tip it does not return `blockchain_height`: it returns the start of the tip zone, a
height the seed keeps (`get_next_pruned_block_height_unpruned_result`).
-/

namespace Salvium

namespace Pruning

def PRUNING_SEED_LOG_STRIPES_SHIFT : UInt32 := 7
def PRUNING_SEED_LOG_STRIPES_MASK : UInt32 := 0x7
def PRUNING_SEED_STRIPE_SHIFT : UInt32 := 0
def PRUNING_SEED_STRIPE_MASK : UInt32 := 0x7f

def CRYPTONOTE_MAX_BLOCK_NUMBER : UInt64 := 500000000
def CRYPTONOTE_PRUNING_STRIPE_SIZE : UInt64 := 4096
def CRYPTONOTE_PRUNING_LOG_STRIPES : UInt64 := 3
def CRYPTONOTE_PRUNING_TIP_BLOCKS : UInt64 := 5500

/-! ## The source functions -/

/-- `get_pruning_log_stripes(pruning_seed)`. -/
def get_pruning_log_stripes (pruning_seed : UInt32) : UInt32 :=
  (pruning_seed >>> PRUNING_SEED_LOG_STRIPES_SHIFT) &&& PRUNING_SEED_LOG_STRIPES_MASK

/-- `get_pruning_stripe(pruning_seed)`: `0` for the seed that prunes nothing. -/
def get_pruning_stripe (pruning_seed : UInt32) : UInt32 :=
  if pruning_seed = 0 then 0
  else 1 + ((pruning_seed >>> PRUNING_SEED_STRIPE_SHIFT) &&& PRUNING_SEED_STRIPE_MASK)

/-- `make_pruning_seed(stripe, log_stripes)`; `1ul << log_stripes` is 64-bit. -/
def make_pruning_seed (stripe log_stripes : UInt32) : Except String UInt32 := do
  if ¬log_stripes ≤ PRUNING_SEED_LOG_STRIPES_MASK then throw "log_stripes out of range"
  if ¬(stripe > 0 ∧ stripe.toUInt64 ≤ (1 : UInt64) <<< log_stripes.toUInt64) then
    throw "stripe out of range"
  pure ((log_stripes <<< PRUNING_SEED_LOG_STRIPES_SHIFT) |||
    ((stripe - 1) <<< PRUNING_SEED_STRIPE_SHIFT))

/-- The overload `get_pruning_stripe(block_height, blockchain_height, log_stripes)`: `0` in the
tip zone, the stripe of the block's run otherwise. -/
def get_pruning_stripe_at (block_height blockchain_height : UInt64) (log_stripes : UInt32) :
    UInt32 :=
  if block_height + CRYPTONOTE_PRUNING_TIP_BLOCKS ≥ blockchain_height then 0
  else (((block_height / CRYPTONOTE_PRUNING_STRIPE_SIZE) &&&
    (((1 : UInt64) <<< log_stripes.toUInt64) - 1)) + 1).toUInt32

/-- `has_unpruned_block(block_height, blockchain_height, pruning_seed)`. -/
def has_unpruned_block (block_height blockchain_height : UInt64) (pruning_seed : UInt32) :
    Bool :=
  let stripe := get_pruning_stripe pruning_seed
  if stripe = 0 then true
  else
    let log_stripes := get_pruning_log_stripes pruning_seed
    let block_stripe := get_pruning_stripe_at block_height blockchain_height log_stripes
    block_stripe = 0 || block_stripe = stripe

/-- `get_pruning_seed(block_height, blockchain_height, log_stripes)`. -/
def get_pruning_seed (block_height blockchain_height : UInt64) (log_stripes : UInt32) :
    Except String UInt32 :=
  let stripe := get_pruning_stripe_at block_height blockchain_height log_stripes
  if stripe = 0 then pure 0 else make_pruning_seed stripe log_stripes

/-- The `log_stripes` the next-height functions use: the seed's, or the default for `0`. -/
def seed_log_stripes_or_default (pruning_seed : UInt32) : UInt64 :=
  let seed_log_stripes := get_pruning_log_stripes pruning_seed
  if seed_log_stripes ≠ 0 then seed_log_stripes.toUInt64 else CRYPTONOTE_PRUNING_LOG_STRIPES

/-- `get_next_unpruned_block_height(block_height, blockchain_height, pruning_seed)`. A failed
`CHECK_AND_ASSERT_MES` returns `block_height`. -/
def get_next_unpruned_block_height (block_height blockchain_height : UInt64)
    (pruning_seed : UInt32) : UInt64 :=
  if ¬block_height ≤ CRYPTONOTE_MAX_BLOCK_NUMBER + 1 then block_height
  else if ¬blockchain_height ≤ CRYPTONOTE_MAX_BLOCK_NUMBER + 1 then block_height
  else
    let stripe := get_pruning_stripe pruning_seed
    if stripe = 0 then block_height
    else if block_height + CRYPTONOTE_PRUNING_TIP_BLOCKS ≥ blockchain_height then block_height
    else
      let log_stripes := seed_log_stripes_or_default pruning_seed
      let mask := ((1 : UInt64) <<< log_stripes) - 1
      let block_pruning_stripe : UInt32 :=
        (((block_height / CRYPTONOTE_PRUNING_STRIPE_SIZE) &&& mask) + 1).toUInt32
      if block_pruning_stripe = stripe then block_height
      else
        let cycles := (block_height / CRYPTONOTE_PRUNING_STRIPE_SIZE) >>> log_stripes
        let cycle_start := cycles + (if stripe > block_pruning_stripe then 0 else 1)
        -- `(stripe - 1) * CRYPTONOTE_PRUNING_STRIPE_SIZE` is a 32-bit product
        let h := cycle_start * (CRYPTONOTE_PRUNING_STRIPE_SIZE <<< log_stripes) +
          ((stripe - 1) * 4096).toUInt64
        if h + CRYPTONOTE_PRUNING_TIP_BLOCKS > blockchain_height then
          if blockchain_height < CRYPTONOTE_PRUNING_TIP_BLOCKS then 0
          else blockchain_height - CRYPTONOTE_PRUNING_TIP_BLOCKS
        else if ¬h ≥ block_height then block_height
        else h

/-- `get_next_pruned_block_height(block_height, blockchain_height, pruning_seed)`: the next
unpruned height of the next stripe. -/
def get_next_pruned_block_height (block_height blockchain_height : UInt64)
    (pruning_seed : UInt32) : Except String UInt64 := do
  let stripe := get_pruning_stripe pruning_seed
  if stripe = 0 then return blockchain_height
  if block_height + CRYPTONOTE_PRUNING_TIP_BLOCKS ≥ blockchain_height then
    return blockchain_height
  let log_stripes := seed_log_stripes_or_default pruning_seed
  let mask := ((1 : UInt64) <<< log_stripes) - 1
  let block_pruning_seed : UInt32 :=
    (((block_height / CRYPTONOTE_PRUNING_STRIPE_SIZE) &&& mask) + 1).toUInt32
  if block_pruning_seed ≠ stripe then return block_height
  let next_stripe : UInt32 := (1 + (block_pruning_seed.toUInt64 &&& mask)).toUInt32
  let seed ← make_pruning_seed next_stripe log_stripes.toUInt32
  return get_next_unpruned_block_height block_height blockchain_height seed

/-! ## Seeds -/

/-- A seed of a pruning node: one that `make_pruning_seed stripe log_stripes` returns without
throwing, whose checks ask for `log_stripes ≤ PRUNING_SEED_LOG_STRIPES_MASK = 7` and
`1 ≤ stripe ≤ 2 ^ log_stripes`, other than `0`. At `log_stripes = 0` the only stripe is `1`,
whose seed is `0`, the seed of a node that prunes nothing. -/
structure ValidSeed where
  stripe : ℕ
  log_stripes : ℕ
  log_stripes_pos : 1 ≤ log_stripes
  log_stripes_le : log_stripes ≤ 7
  stripe_pos : 1 ≤ stripe
  stripe_le : stripe ≤ 2 ^ log_stripes

namespace ValidSeed

variable (v : ValidSeed)

/-- The packed seed: `log_stripes` above bit 7, `stripe - 1` below. -/
def seed : UInt32 := UInt32.ofNat (v.log_stripes * 2 ^ 7 + (v.stripe - 1))

theorem stripe_le_128 : v.stripe ≤ 128 :=
  v.stripe_le.trans (Nat.pow_le_pow_right (by norm_num) v.log_stripes_le)

theorem two_le_pow : 2 ≤ 2 ^ v.log_stripes :=
  (Nat.pow_le_pow_right (by norm_num) v.log_stripes_pos).trans_eq' (pow_one 2).symm

theorem toNat_seed : v.seed.toNat = v.log_stripes * 2 ^ 7 + (v.stripe - 1) := by
  have := v.stripe_le_128
  have := v.log_stripes_le
  rw [seed, UInt32.toNat_ofNat']
  omega

theorem seed_ne_zero : v.seed ≠ 0 := by
  intro h
  have h' := congrArg UInt32.toNat h
  rw [toNat_seed] at h'
  have := v.log_stripes_pos
  simp only [UInt32.toNat_zero] at h'
  omega

theorem toNat_get_pruning_log_stripes : (get_pruning_log_stripes v.seed).toNat = v.log_stripes := by
  have := v.stripe_le_128
  have := v.log_stripes_le
  rw [get_pruning_log_stripes, UInt32.toNat_and, UInt32.toNat_shiftRight, toNat_seed]
  show (v.log_stripes * 2 ^ 7 + (v.stripe - 1)) >>> 7 &&& (2 ^ 3 - 1) = v.log_stripes
  rw [Nat.and_two_pow_sub_one_eq_mod, Nat.shiftRight_eq_div_pow]
  omega

theorem toNat_get_pruning_stripe : (get_pruning_stripe v.seed).toNat = v.stripe := by
  have := v.stripe_le_128
  have := v.stripe_pos
  rw [get_pruning_stripe, if_neg v.seed_ne_zero, UInt32.toNat_add, UInt32.toNat_and,
    UInt32.toNat_shiftRight, toNat_seed]
  show (1 + ((v.log_stripes * 2 ^ 7 + (v.stripe - 1)) >>> 0 &&& (2 ^ 7 - 1))) % 2 ^ 32 = v.stripe
  rw [Nat.and_two_pow_sub_one_eq_mod, Nat.shiftRight_zero]
  omega

/-- The `log_stripes` the next-height functions use is the seed's own. -/
theorem toNat_seed_log_stripes_or_default :
    (seed_log_stripes_or_default v.seed).toNat = v.log_stripes := by
  have hl := v.toNat_get_pruning_log_stripes
  have hne : get_pruning_log_stripes v.seed ≠ 0 := by
    intro h
    rw [h, UInt32.toNat_zero] at hl
    have := v.log_stripes_pos
    omega
  rw [seed_log_stripes_or_default, if_pos hne, UInt32.toNat_toUInt64, hl]

end ValidSeed

/-- `make_pruning_seed` packs a valid stripe and `log_stripes`. -/
theorem make_pruning_seed_valid (v : ValidSeed) :
    make_pruning_seed (UInt32.ofNat v.stripe) (UInt32.ofNat v.log_stripes) = .ok v.seed := by
  have hs := v.stripe_le_128
  have hl := v.log_stripes_le
  have hsp := v.stripe_pos
  have hpow : (2 : ℕ) ^ v.log_stripes < 2 ^ 64 := Nat.pow_lt_pow_right (by norm_num) (by omega)
  have hst : (UInt32.ofNat v.stripe).toNat = v.stripe := by
    rw [UInt32.toNat_ofNat']
    omega
  have hlt : (UInt32.ofNat v.log_stripes).toNat = v.log_stripes := by
    rw [UInt32.toNat_ofNat']
    omega
  have hguard1 : UInt32.ofNat v.log_stripes ≤ PRUNING_SEED_LOG_STRIPES_MASK := by
    rw [UInt32.le_iff_toNat_le, hlt]
    exact hl
  have hguard2 : UInt32.ofNat v.stripe > 0 ∧ (UInt32.ofNat v.stripe).toUInt64 ≤
      (1 : UInt64) <<< (UInt32.ofNat v.log_stripes).toUInt64 := by
    constructor
    · rw [gt_iff_lt, UInt32.lt_iff_toNat_lt, hst]
      exact hsp
    · rw [UInt64.le_iff_toNat_le, UInt32.toNat_toUInt64, UInt64.toNat_shiftLeft,
        UInt32.toNat_toUInt64, hst, hlt, UInt64.toNat_one, Nat.one_shiftLeft,
        Nat.mod_eq_of_lt (by omega : v.log_stripes < 64), Nat.mod_eq_of_lt hpow]
      exact v.stripe_le
  rw [make_pruning_seed, if_neg (not_not.mpr hguard1), if_neg (not_not.mpr hguard2)]
  show Except.ok _ = Except.ok _
  congr 1
  apply UInt32.toNat_inj.mp
  have hsub : (UInt32.ofNat v.stripe - 1).toNat = v.stripe - 1 := by
    rw [UInt32.toNat_sub_of_le _ _ (by rw [UInt32.le_iff_toNat_le, hst]; exact hsp), hst]
    rfl
  rw [ValidSeed.toNat_seed, UInt32.toNat_or, UInt32.toNat_shiftLeft, UInt32.toNat_shiftLeft,
    hsub, hlt]
  show v.log_stripes <<< 7 % 2 ^ 32 ||| (v.stripe - 1) <<< 0 % 2 ^ 32 = _
  rw [Nat.shiftLeft_zero, Nat.mod_eq_of_lt (by omega : v.stripe - 1 < 2 ^ 32),
    Nat.shiftLeft_eq, Nat.mod_eq_of_lt (by omega : v.log_stripes * 2 ^ 7 < 2 ^ 32),
    ← Nat.shiftLeft_eq, ← Nat.shiftLeft_add_eq_or_of_lt (by omega : v.stripe - 1 < 2 ^ 7),
    Nat.shiftLeft_eq]

/-! ## Heights over ℕ

Heights up to `CRYPTONOTE_MAX_BLOCK_NUMBER + 1` are far from `2 ^ 64`: no sum below overflows,
and each test of the source is a test on the heights' values. -/

/-- What a seed of stripe `t` out of `m` keeps at height `x` of a chain of height `H`: the tip
zone, and the runs of its stripe. -/
def unpruned_at (H t m x : ℕ) : Prop := H ≤ x + 5500 ∨ x / 4096 % m = t - 1

instance (H t m x : ℕ) : Decidable (unpruned_at H t m x) :=
  inferInstanceAs (Decidable (_ ∨ _))

/-- `get_next_unpruned_block_height` over ℕ, for a seed of stripe `t` out of `m`. -/
def next_unpruned (H t m h : ℕ) : ℕ :=
  if H ≤ h + 5500 then h
  else if h / 4096 % m = t - 1 then h
  else
    let h2 := Residue.next_with_residue m (t - 1) (h / 4096) * 4096
    if H < h2 + 5500 then H - 5500 else h2

/-- `get_next_pruned_block_height` over ℕ: the next unpruned height of the next stripe. -/
def next_pruned (H t m h : ℕ) : ℕ :=
  if H ≤ h + 5500 then H
  else if h / 4096 % m ≠ t - 1 then h
  else next_unpruned H (t % m + 1) m h

@[simp] theorem toNat_TIP_BLOCKS : CRYPTONOTE_PRUNING_TIP_BLOCKS.toNat = 5500 := rfl

@[simp] theorem toNat_STRIPE_SIZE : CRYPTONOTE_PRUNING_STRIPE_SIZE.toNat = 4096 := rfl

theorem toNat_MAX_BLOCK_NUMBER_succ : (CRYPTONOTE_MAX_BLOCK_NUMBER + 1).toNat = 500000001 := rfl

/-- The tip test, on values. -/
theorem tip_iff {h H : UInt64} (hh : h.toNat + 5500 < 2 ^ 64) :
    h + CRYPTONOTE_PRUNING_TIP_BLOCKS ≥ H ↔ H.toNat ≤ h.toNat + 5500 := by
  rw [ge_iff_le, UInt64.le_iff_toNat_le, UInt64.toNat_add, toNat_TIP_BLOCKS, Nat.mod_eq_of_lt hh]

theorem toNat_one_shiftLeft {ls : UInt64} (hls : ls.toNat ≤ 7) :
    ((1 : UInt64) <<< ls).toNat = 2 ^ ls.toNat := by
  have hpow : (2 : ℕ) ^ ls.toNat < 2 ^ 64 := Nat.pow_lt_pow_right (by norm_num) (by omega)
  rw [UInt64.toNat_shiftLeft, UInt64.toNat_one, Nat.mod_eq_of_lt (by omega : ls.toNat < 64),
    Nat.one_shiftLeft, Nat.mod_eq_of_lt hpow]

/-- The stripe of a block's run, `((block_height / CRYPTONOTE_PRUNING_STRIPE_SIZE) & mask) + 1`,
on values. -/
theorem toNat_block_stripe (h : UInt64) {ls : UInt64} (hls : ls.toNat ≤ 7) :
    ((((h / CRYPTONOTE_PRUNING_STRIPE_SIZE) &&& (((1 : UInt64) <<< ls) - 1)) + 1).toUInt32).toNat =
      h.toNat / 4096 % 2 ^ ls.toNat + 1 := by
  have hone := toNat_one_shiftLeft hls
  have hpos : (1 : UInt64) ≤ (1 : UInt64) <<< ls := by
    rw [UInt64.le_iff_toNat_le, hone, UInt64.toNat_one]
    exact Nat.one_le_two_pow
  have hmod : h.toNat / 4096 % 2 ^ ls.toNat < 2 ^ 7 :=
    (Nat.mod_lt _ (by positivity)).trans_le (Nat.pow_le_pow_right (by norm_num) hls)
  rw [UInt64.toNat_toUInt32, UInt64.toNat_add, UInt64.toNat_and, UInt64.toNat_sub_of_le _ _ hpos,
    hone, UInt64.toNat_div, toNat_STRIPE_SIZE, UInt64.toNat_one, Nat.and_two_pow_sub_one_eq_mod]
  omega

namespace ValidSeed

variable (v : ValidSeed)

theorem toNat_seed_log_stripes_le : (seed_log_stripes_or_default v.seed).toNat ≤ 7 := by
  rw [toNat_seed_log_stripes_or_default]
  exact v.log_stripes_le

theorem get_pruning_stripe_ne_zero : get_pruning_stripe v.seed ≠ 0 := by
  intro h0
  have hst := v.toNat_get_pruning_stripe
  rw [h0, UInt32.toNat_zero] at hst
  have := v.stripe_pos
  omega

end ValidSeed

/-- `get_pruning_stripe(block_height, blockchain_height, log_stripes)` on values. -/
theorem toNat_get_pruning_stripe_at {h H : UInt64} {ls : UInt32} (hls : ls.toNat ≤ 7)
    (hh : h.toNat + 5500 < 2 ^ 64) :
    (get_pruning_stripe_at h H ls).toNat =
      if H.toNat ≤ h.toNat + 5500 then 0 else h.toNat / 4096 % 2 ^ ls.toNat + 1 := by
  have hls' : ls.toUInt64.toNat ≤ 7 := by rwa [UInt32.toNat_toUInt64]
  rw [get_pruning_stripe_at]
  by_cases htip : H.toNat ≤ h.toNat + 5500
  · rw [if_pos ((tip_iff hh).mpr htip), if_pos htip, UInt32.toNat_zero]
  · rw [if_neg (mt (tip_iff hh).mp htip), if_neg htip, toNat_block_stripe h hls',
      UInt32.toNat_toUInt64]

/-- **What a seed keeps.** For a valid seed, `has_unpruned_block` holds exactly in the tip zone
and on the runs of the seed's stripe. -/
theorem has_unpruned_block_valid (v : ValidSeed) {h H : UInt64} (hh : h.toNat + 5500 < 2 ^ 64) :
    has_unpruned_block h H v.seed =
      decide (unpruned_at H.toNat v.stripe (2 ^ v.log_stripes) h.toNat) := by
  have hst := v.toNat_get_pruning_stripe
  have hsp := v.stripe_pos
  have hne := v.get_pruning_stripe_ne_zero
  have hat := toNat_get_pruning_stripe_at (H := H) (v.toNat_get_pruning_log_stripes ▸ v.log_stripes_le) hh
  rw [v.toNat_get_pruning_log_stripes] at hat
  rw [has_unpruned_block, if_neg hne, Bool.eq_iff_iff]
  simp only [Bool.or_eq_true, decide_eq_true_eq, unpruned_at]
  rw [← UInt32.toNat_inj, ← UInt32.toNat_inj, hat, hst, UInt32.toNat_zero]
  by_cases htip : H.toNat ≤ h.toNat + 5500
  · simp [htip]
  · -- off the tip the block's stripe is never `0`
    simp only [htip, if_false, false_or, decide_eq_true_eq]
    constructor <;> intro hc <;> omega

/-! ## The next heights over ℕ -/

section Schedule

variable {H t m h : ℕ}

/-- Heights of `h`'s run share its block index, hence its stripe. -/
theorem div_eq_of_same_run {x : ℕ} (hx : h ≤ x) (hx' : x < (h / 4096 + 1) * 4096) :
    x / 4096 = h / 4096 := by
  have h1 : h / 4096 ≤ x / 4096 := Nat.div_le_div_right hx
  have h2 : x / 4096 < h / 4096 + 1 := (Nat.div_lt_iff_lt_mul (by norm_num)).mpr hx'
  omega

/-- When `h`'s run is the seed's and the tip zone starts before the next run, the seed keeps
every height from `h` on. -/
theorem unpruned_at_of_run (hq : h / 4096 % m = t - 1) (hH : H ≤ (h / 4096 + 1) * 4096 + 5500)
    {x : ℕ} (hx : h ≤ x) : unpruned_at H t m x := by
  by_cases hrun : x < (h / 4096 + 1) * 4096
  · exact Or.inr (by rw [div_eq_of_same_run hx hrun, hq])
  · exact Or.inl (by omega)

/-- **`get_next_unpruned_block_height` is the least kept height from `h` on**, over ℕ. -/
theorem next_unpruned_least (ht1 : 1 ≤ t) (htm : t ≤ m) :
    h ≤ next_unpruned H t m h ∧ unpruned_at H t m (next_unpruned H t m h) ∧
      ∀ x, h ≤ x → x < next_unpruned H t m h → ¬unpruned_at H t m x := by
  unfold next_unpruned
  by_cases htip : H ≤ h + 5500
  · rw [if_pos htip]
    exact ⟨le_rfl, Or.inl htip, fun x hx hx' => absurd hx' (by omega)⟩
  rw [if_neg htip]
  by_cases hres : h / 4096 % m = t - 1
  · rw [if_pos hres]
    exact ⟨le_rfl, Or.inr hres, fun x hx hx' => absurd hx' (by omega)⟩
  rw [if_neg hres]
  -- the next run of the seed's stripe starts at block index `n`
  set n := Residue.next_with_residue m (t - 1) (h / 4096) with hn
  have hnmod : n % m = t - 1 := Residue.next_with_residue_mod (by omega)
  have hqn : h / 4096 < n := by
    have hle : h / 4096 ≤ n := Residue.le_next_with_residue (by omega)
    rcases hle.lt_or_eq with hlt | heq
    · exact hlt
    · exact absurd (heq ▸ hnmod) hres
  have hbelow : ∀ x, h ≤ x → x < n * 4096 → x / 4096 % m ≠ t - 1 := fun x hx hx' =>
    Residue.mod_ne_of_lt_next_with_residue (by omega) (Nat.div_le_div_right hx)
      ((Nat.div_lt_iff_lt_mul (by norm_num)).mpr hx')
  have hhn : h < n * 4096 := by
    have := Nat.lt_mul_div_succ h (by norm_num : 0 < 4096)
    calc h < 4096 * (h / 4096 + 1) := this
      _ ≤ n * 4096 := by rw [Nat.mul_comm]; exact Nat.mul_le_mul_right _ hqn
  by_cases hclamp : H < n * 4096 + 5500
  · -- the run starts inside the tip zone, which starts first
    rw [if_pos hclamp]
    refine ⟨by omega, Or.inl (by omega), fun x hx hx' => ?_⟩
    rintro (hxt | hxr)
    · omega
    · exact hbelow x hx (by omega) hxr
  · rw [if_neg hclamp]
    refine ⟨hhn.le, Or.inr (by rw [Nat.mul_div_cancel _ (by norm_num)]; exact hnmod),
      fun x hx hx' => ?_⟩
    rintro (hxt | hxr)
    · omega
    · exact hbelow x hx hx' hxr

/-- **`get_next_pruned_block_height` is the least pruned height**, over ℕ, whenever some
height of `[h, H)` is pruned. -/
theorem next_pruned_least (hm : 2 ≤ m) (ht1 : 1 ≤ t) (htm : t ≤ m)
    (hex : ∃ x, h ≤ x ∧ x < H ∧ ¬unpruned_at H t m x) :
    h ≤ next_pruned H t m h ∧ next_pruned H t m h < H ∧
      ¬unpruned_at H t m (next_pruned H t m h) ∧
      ∀ x, h ≤ x → x < next_pruned H t m h → unpruned_at H t m x := by
  obtain ⟨x₀, hx₀, hx₀H, hx₀p⟩ := hex
  unfold next_pruned
  by_cases htip : H ≤ h + 5500
  · exact absurd (Or.inl (by omega)) hx₀p
  rw [if_neg htip]
  by_cases hres : h / 4096 % m ≠ t - 1
  · rw [if_pos hres]
    refine ⟨le_rfl, by omega, ?_, fun x hx hx' => absurd hx' (by omega)⟩
    rintro (hxt | hxr)
    · omega
    · exact hres hxr
  rw [if_neg hres]
  rw [not_not] at hres
  -- the next stripe's next run starts right after `h`'s run
  have hnext : (t % m + 1) - 1 = (t - 1 + 1) % m := by
    rw [Nat.add_sub_cancel, Nat.sub_add_cancel ht1]
  have hn : Residue.next_with_residue m ((t % m + 1) - 1) (h / 4096) = h / 4096 + 1 := by
    rw [hnext]
    exact Residue.next_with_residue_succ (by omega) hres
  have hwrap : t % m ≠ t - 1 := by
    rcases htm.lt_or_eq with hlt | heq
    · rw [Nat.mod_eq_of_lt hlt]
      omega
    · rw [heq, Nat.mod_self]
      omega
  have hne : h / 4096 % m ≠ (t % m + 1) - 1 := by
    rw [hres, Nat.add_sub_cancel]
    exact fun e => hwrap e.symm
  unfold next_unpruned
  rw [if_neg htip, if_neg hne, hn]
  by_cases hclamp : H < (h / 4096 + 1) * 4096 + 5500
  · exact absurd (unpruned_at_of_run hres hclamp.le hx₀) hx₀p
  rw [if_neg hclamp]
  rcases (not_lt.mp hclamp).lt_or_eq with hlt | heq
  · -- the next run starts below the tip zone: its first height is pruned
    have hr : (h / 4096 + 1) * 4096 / 4096 = h / 4096 + 1 := Nat.mul_div_cancel _ (by norm_num)
    have hsucc : (h / 4096 + 1) % m ≠ t - 1 := by
      rw [Nat.add_mod, hres, Nat.mod_eq_of_lt (by omega : 1 < m), Nat.sub_add_cancel ht1]
      exact hwrap
    have hrunH : (h / 4096 + 1) * 4096 < H := (Nat.le_add_right _ 5500).trans_lt hlt
    refine ⟨by omega, hrunH, ?_, fun x hx hx' => Or.inr ?_⟩
    · rintro (hxt | hxr)
      · omega
      · rw [hr] at hxr
        exact hsucc hxr
    · rw [div_eq_of_same_run hx hx', hres]
  · exact absurd (unpruned_at_of_run hres heq.symm.le hx₀) hx₀p

/-- The next kept height is at most the chain height. -/
theorem next_unpruned_le (hhH : h ≤ H) : next_unpruned H t m h ≤ H := by
  unfold next_unpruned
  dsimp only
  split_ifs <;> omega

end Schedule

/-! ## The source's next heights are the ℕ ones -/

/-- The start of the next run of `stripe`, as the source computes it, on values. -/
theorem toNat_cycle_height {h ls : UInt64} {stripe block_pruning_stripe : UInt32}
    (hls : ls.toNat ≤ 7) (hh : h.toNat ≤ 500000001) (hst1 : 1 ≤ stripe.toNat)
    (hst : stripe.toNat ≤ 128) :
    (((h / CRYPTONOTE_PRUNING_STRIPE_SIZE) >>> ls +
        (if stripe > block_pruning_stripe then 0 else 1)) *
      (CRYPTONOTE_PRUNING_STRIPE_SIZE <<< ls) + ((stripe - 1) * 4096).toUInt64).toNat =
      ((h.toNat / 4096 / 2 ^ ls.toNat + if stripe > block_pruning_stripe then 0 else 1) *
        2 ^ ls.toNat + (stripe.toNat - 1)) * 4096 := by
  have hpow : 2 ^ ls.toNat ≤ 2 ^ 7 := Nat.pow_le_pow_right (by norm_num) hls
  have hpos : 0 < 2 ^ ls.toNat := by positivity
  have hshift : (CRYPTONOTE_PRUNING_STRIPE_SIZE <<< ls).toNat = 4096 * 2 ^ ls.toNat := by
    rw [UInt64.toNat_shiftLeft, toNat_STRIPE_SIZE, Nat.mod_eq_of_lt (by omega : ls.toNat < 64),
      Nat.shiftLeft_eq, Nat.mod_eq_of_lt (by omega)]
  have hcyc : ((h / CRYPTONOTE_PRUNING_STRIPE_SIZE) >>> ls).toNat = h.toNat / 4096 / 2 ^ ls.toNat := by
    rw [UInt64.toNat_shiftRight, UInt64.toNat_div, toNat_STRIPE_SIZE,
      Nat.mod_eq_of_lt (by omega : ls.toNat < 64), Nat.shiftRight_eq_div_pow]
  have hlow : ((stripe - 1) * 4096 : UInt32).toUInt64.toNat = (stripe.toNat - 1) * 4096 := by
    have hsub : (stripe - 1).toNat = stripe.toNat - 1 := by
      rw [UInt32.toNat_sub_of_le _ _ (by rw [UInt32.le_iff_toNat_le]; exact hst1)]
      rfl
    rw [UInt32.toNat_toUInt64, UInt32.toNat_mul, hsub]
    exact Nat.mod_eq_of_lt (by show (stripe.toNat - 1) * 4096 < 2 ^ 32; omega)
  have hq : h.toNat / 4096 / 2 ^ ls.toNat ≤ h.toNat := (Nat.div_le_self _ _).trans (Nat.div_le_self _ _)
  have hb : (if stripe > block_pruning_stripe then (0 : UInt64) else 1).toNat =
      if stripe > block_pruning_stripe then 0 else 1 := by
    split_ifs <;> rfl
  have hbound : (h.toNat / 4096 / 2 ^ ls.toNat + if stripe > block_pruning_stripe then 0 else 1) ≤
      h.toNat + 1 := by
    split_ifs <;> omega
  have hprod : (h.toNat / 4096 / 2 ^ ls.toNat + if stripe > block_pruning_stripe then 0 else 1) *
      (4096 * 2 ^ ls.toNat) ≤ (h.toNat + 1) * (4096 * 2 ^ 7) :=
    Nat.mul_le_mul hbound (Nat.mul_le_mul_left _ hpow)
  -- no step of the sum wraps
  have e1 : ((h / CRYPTONOTE_PRUNING_STRIPE_SIZE) >>> ls +
      (if stripe > block_pruning_stripe then 0 else 1)).toNat =
      h.toNat / 4096 / 2 ^ ls.toNat + if stripe > block_pruning_stripe then 0 else 1 := by
    rw [UInt64.toNat_add, hcyc, hb]
    exact Nat.mod_eq_of_lt (by omega)
  have e2 : (((h / CRYPTONOTE_PRUNING_STRIPE_SIZE) >>> ls +
      (if stripe > block_pruning_stripe then 0 else 1)) *
      (CRYPTONOTE_PRUNING_STRIPE_SIZE <<< ls)).toNat =
      (h.toNat / 4096 / 2 ^ ls.toNat + if stripe > block_pruning_stripe then 0 else 1) *
        (4096 * 2 ^ ls.toNat) := by
    rw [UInt64.toNat_mul, e1, hshift]
    exact Nat.mod_eq_of_lt (by omega)
  rw [UInt64.toNat_add, e2, hlow, Nat.mod_eq_of_lt (by omega)]
  ring

/-- **The source's `get_next_unpruned_block_height` is `next_unpruned`** on values, for a valid
seed and heights up to `CRYPTONOTE_MAX_BLOCK_NUMBER + 1`. -/
theorem toNat_get_next_unpruned_block_height (v : ValidSeed) {h H : UInt64}
    (hh : h.toNat ≤ 500000001) (hH : H.toNat ≤ 500000001) :
    (get_next_unpruned_block_height h H v.seed).toNat =
      next_unpruned H.toNat v.stripe (2 ^ v.log_stripes) h.toNat := by
  have hst := v.toNat_get_pruning_stripe
  have hls := v.toNat_seed_log_stripes_or_default
  have hls7 := v.toNat_seed_log_stripes_le
  have hh' : h.toNat + 5500 < 2 ^ 64 := by omega
  have hg1 : h ≤ CRYPTONOTE_MAX_BLOCK_NUMBER + 1 := by
    rw [UInt64.le_iff_toNat_le, toNat_MAX_BLOCK_NUMBER_succ]
    exact hh
  have hg2 : H ≤ CRYPTONOTE_MAX_BLOCK_NUMBER + 1 := by
    rw [UInt64.le_iff_toNat_le, toNat_MAX_BLOCK_NUMBER_succ]
    exact hH
  rw [get_next_unpruned_block_height, if_neg (not_not.mpr hg1), if_neg (not_not.mpr hg2)]
  simp only [if_neg v.get_pruning_stripe_ne_zero]
  unfold next_unpruned
  by_cases htip : H.toNat ≤ h.toNat + 5500
  · rw [if_pos ((tip_iff hh').mpr htip), if_pos htip]
  rw [if_neg (mt (tip_iff hh').mp htip), if_neg htip]
  set bps := (((h / CRYPTONOTE_PRUNING_STRIPE_SIZE) &&&
    (((1 : UInt64) <<< seed_log_stripes_or_default v.seed) - 1)) + 1).toUInt32 with hbps_def
  have hbs : bps.toNat = h.toNat / 4096 % 2 ^ v.log_stripes + 1 := by
    rw [hbps_def, toNat_block_stripe h hls7, hls]
  by_cases hres : h.toNat / 4096 % 2 ^ v.log_stripes = v.stripe - 1
  · rw [if_pos (UInt32.toNat_inj.mp (by rw [hbs, hst]; have := v.stripe_pos; omega)), if_pos hres]
  have hbne : bps ≠ get_pruning_stripe v.seed := fun e => hres (by
    have := congrArg UInt32.toNat e
    rw [hbs, hst] at this
    omega)
  rw [if_neg hbne, if_neg hres]
  -- the next run of the stripe, as the source computes it
  have hcyc := @toNat_cycle_height _ _ _ bps hls7 hh
    (hst ▸ v.stripe_pos) (hst ▸ v.stripe_le_128)
  rw [hls, hst] at hcyc
  have hcmp : (get_pruning_stripe v.seed > bps) ↔
      ¬v.stripe - 1 < h.toNat / 4096 % 2 ^ v.log_stripes := by
    rw [gt_iff_lt, UInt32.lt_iff_toNat_lt, hbs, hst]
    omega
  have hh2 : (if get_pruning_stripe v.seed > bps then 0 else 1 : ℕ) =
      if v.stripe - 1 < h.toNat / 4096 % 2 ^ v.log_stripes then 1 else 0 := by
    by_cases hc : get_pruning_stripe v.seed > bps
    · rw [if_pos hc, if_neg (hcmp.mp hc)]
    · rw [if_neg hc, if_pos (not_not.mp (mt hcmp.mpr hc))]
  rw [hh2] at hcyc
  set h2 := ((h / CRYPTONOTE_PRUNING_STRIPE_SIZE) >>> seed_log_stripes_or_default v.seed +
    (if get_pruning_stripe v.seed > bps then 0 else 1)) *
      (CRYPTONOTE_PRUNING_STRIPE_SIZE <<< seed_log_stripes_or_default v.seed) +
    ((get_pruning_stripe v.seed - 1) * 4096).toUInt64 with hh2_def
  have hcyc' : h2.toNat =
      Residue.next_with_residue (2 ^ v.log_stripes) (v.stripe - 1) (h.toNat / 4096) * 4096 := by
    rw [hcyc]
    rfl
  -- the run starts after `h`, and far below `2 ^ 64`
  have hlt : h.toNat / 4096 <
      Residue.next_with_residue (2 ^ v.log_stripes) (v.stripe - 1) (h.toNat / 4096) := by
    have hle := Residue.le_next_with_residue (q := h.toNat / 4096)
      (by have := v.stripe_le; have := v.stripe_pos; omega : v.stripe - 1 < 2 ^ v.log_stripes)
    rcases hle.lt_or_eq with hlt | heq
    · exact hlt
    · exact absurd (heq ▸ Residue.next_with_residue_mod
        (by have := v.stripe_le; have := v.stripe_pos; omega)) hres
  have hge : h.toNat ≤ h2.toNat := by
    rw [hcyc']
    calc h.toNat ≤ 4096 * (h.toNat / 4096 + 1) :=
          (Nat.lt_mul_div_succ h.toNat (by norm_num : 0 < 4096)).le
      _ ≤ 4096 * Residue.next_with_residue (2 ^ v.log_stripes) (v.stripe - 1) (h.toNat / 4096) :=
          Nat.mul_le_mul_left _ hlt
      _ = _ := Nat.mul_comm _ _
  have hsmall : h2.toNat < 2 ^ 32 := by
    rw [hcyc]
    have hpow : 2 ^ v.log_stripes ≤ 2 ^ 7 := Nat.pow_le_pow_right (by norm_num) v.log_stripes_le
    have hq : h.toNat / 4096 / 2 ^ v.log_stripes * 2 ^ v.log_stripes ≤ h.toNat / 4096 :=
      Nat.div_mul_le_self _ _
    have hq' : h.toNat / 4096 ≤ 122071 := by omega
    have hs : v.stripe - 1 ≤ 127 := by have := v.stripe_le_128; omega
    split_ifs <;> linarith
  have hclamp_iff : h2 + CRYPTONOTE_PRUNING_TIP_BLOCKS > H ↔ H.toNat < h2.toNat + 5500 := by
    rw [gt_iff_lt, UInt64.lt_iff_toNat_lt, UInt64.toNat_add, toNat_TIP_BLOCKS,
      Nat.mod_eq_of_lt (by omega)]
  rw [← hcyc']
  show _ = if H.toNat < h2.toNat + 5500 then H.toNat - 5500 else h2.toNat
  by_cases hclamp : H.toNat < h2.toNat + 5500
  · have hH5 : ¬H < CRYPTONOTE_PRUNING_TIP_BLOCKS := by
      rw [UInt64.lt_iff_toNat_lt, toNat_TIP_BLOCKS]
      omega
    rw [if_pos (hclamp_iff.mpr hclamp), if_pos hclamp, if_neg hH5,
      UInt64.toNat_sub_of_le _ _ (by rw [UInt64.le_iff_toNat_le, toNat_TIP_BLOCKS]; omega),
      toNat_TIP_BLOCKS]
  · rw [if_neg (mt hclamp_iff.mp hclamp), if_neg hclamp,
      if_neg (not_not.mpr (UInt64.le_iff_toNat_le.mpr hge))]

/-- The next stripe, `1 + (stripe & mask)`: after the last stripe comes the first. -/
def ValidSeed.next (v : ValidSeed) : ValidSeed where
  stripe := v.stripe % 2 ^ v.log_stripes + 1
  log_stripes := v.log_stripes
  log_stripes_pos := v.log_stripes_pos
  log_stripes_le := v.log_stripes_le
  stripe_pos := Nat.le_add_left _ _
  stripe_le := Nat.mod_lt _ (by positivity)

/-- **The source's `get_next_pruned_block_height` is `next_pruned`** on values: it never throws
for a valid seed, since the next stripe's seed is valid too. -/
theorem get_next_pruned_block_height_valid (v : ValidSeed) {h H : UInt64}
    (hh : h.toNat ≤ 500000001) (hH : H.toNat ≤ 500000001) :
    ∃ r, get_next_pruned_block_height h H v.seed = .ok r ∧
      r.toNat = next_pruned H.toNat v.stripe (2 ^ v.log_stripes) h.toNat := by
  have hst := v.toNat_get_pruning_stripe
  have hls := v.toNat_seed_log_stripes_or_default
  have hls7 := v.toNat_seed_log_stripes_le
  have hh' : h.toNat + 5500 < 2 ^ 64 := by omega
  rw [get_next_pruned_block_height]
  simp only [if_neg v.get_pruning_stripe_ne_zero]
  unfold next_pruned
  by_cases htip : H.toNat ≤ h.toNat + 5500
  · rw [if_pos ((tip_iff hh').mpr htip), if_pos htip]
    exact ⟨H, rfl, rfl⟩
  rw [if_neg (mt (tip_iff hh').mp htip), if_neg htip]
  set bps := (((h / CRYPTONOTE_PRUNING_STRIPE_SIZE) &&&
    (((1 : UInt64) <<< seed_log_stripes_or_default v.seed) - 1)) + 1).toUInt32 with hbps_def
  have hbs : bps.toNat = h.toNat / 4096 % 2 ^ v.log_stripes + 1 := by
    rw [hbps_def, toNat_block_stripe h hls7, hls]
  by_cases hres : h.toNat / 4096 % 2 ^ v.log_stripes ≠ v.stripe - 1
  · have hbne : bps ≠ get_pruning_stripe v.seed := fun e => hres (by
      have := congrArg UInt32.toNat e
      rw [hbs, hst] at this
      omega)
    rw [if_pos hbne, if_pos hres]
    exact ⟨h, rfl, rfl⟩
  have hbeq : bps = get_pruning_stripe v.seed :=
    UInt32.toNat_inj.mp (by rw [hbs, hst]; have := v.stripe_pos; omega)
  rw [if_neg (not_not.mpr hbeq), if_neg hres]
  -- the next stripe and its seed
  have hmask : ((1 : UInt64) <<< seed_log_stripes_or_default v.seed) - 1 =
      UInt64.ofNat (2 ^ v.log_stripes - 1) := by
    apply UInt64.toNat_inj.mp
    have hone := toNat_one_shiftLeft hls7
    have hle1 : (1 : UInt64) ≤ (1 : UInt64) <<< seed_log_stripes_or_default v.seed := by
      rw [UInt64.le_iff_toNat_le, hone, UInt64.toNat_one]
      exact Nat.one_le_two_pow
    rw [UInt64.toNat_sub_of_le _ _ hle1, hone, hls, UInt64.toNat_one, UInt64.toNat_ofNat']
    have : 2 ^ v.log_stripes ≤ 2 ^ 7 := Nat.pow_le_pow_right (by norm_num) v.log_stripes_le
    omega
  have hnext : (1 + (bps.toUInt64 &&& (((1 : UInt64) <<< seed_log_stripes_or_default v.seed) - 1))).toUInt32 =
      UInt32.ofNat v.next.stripe := by
    apply UInt32.toNat_inj.mp
    have : 2 ^ v.log_stripes ≤ 2 ^ 7 := Nat.pow_le_pow_right (by norm_num) v.log_stripes_le
    have hsl := v.stripe_le_128
    rw [hmask, hbeq, UInt64.toNat_toUInt32, UInt64.toNat_add, UInt64.toNat_and, UInt32.toNat_toUInt64,
      hst, UInt64.toNat_ofNat', UInt64.toNat_one, Nat.mod_eq_of_lt (by omega : 2 ^ v.log_stripes - 1 < 2 ^ 64),
      Nat.and_two_pow_sub_one_eq_mod, UInt32.toNat_ofNat']
    simp only [ValidSeed.next]
    have : v.stripe % 2 ^ v.log_stripes < 2 ^ 7 :=
      (Nat.mod_lt _ (by positivity)).trans_le this
    omega
  have hlog : (seed_log_stripes_or_default v.seed).toUInt32 = UInt32.ofNat v.next.log_stripes := by
    apply UInt32.toNat_inj.mp
    rw [UInt64.toNat_toUInt32, hls, UInt32.toNat_ofNat']
    rfl
  rw [hnext, hlog, make_pruning_seed_valid v.next]
  refine ⟨_, rfl, ?_⟩
  rw [toNat_get_next_unpruned_block_height v.next hh hH]
  rfl

/-! ## The schedule the node follows -/

/-- **`get_next_unpruned_block_height` is the least height from `block_height` on that the seed
keeps**, for every valid seed and heights `h ≤ H ≤ CRYPTONOTE_MAX_BLOCK_NUMBER + 1`. -/
theorem get_next_unpruned_block_height_least (v : ValidSeed) {h H : UInt64} (hhH : h ≤ H)
    (hH : H.toNat ≤ 500000001) :
    IsLeast {x : UInt64 | h ≤ x ∧ has_unpruned_block x H v.seed = true}
      (get_next_unpruned_block_height h H v.seed) := by
  have hhH' := UInt64.le_iff_toNat_le.mp hhH
  have hr := toNat_get_next_unpruned_block_height v (by omega : h.toNat ≤ 500000001) hH
  obtain ⟨hle, hkept, hbelow⟩ := next_unpruned_least (H := H.toNat) (h := h.toNat)
    v.stripe_pos v.stripe_le
  have hrH : (get_next_unpruned_block_height h H v.seed).toNat ≤ H.toNat :=
    hr ▸ next_unpruned_le hhH'
  refine ⟨⟨UInt64.le_iff_toNat_le.mpr (hr ▸ hle), ?_⟩, fun x ⟨hx, hxk⟩ => ?_⟩
  · rw [has_unpruned_block_valid v (by omega), hr]
    exact decide_eq_true hkept
  · -- a kept height below the answer would contradict `next_unpruned_least`
    rw [UInt64.le_iff_toNat_le]
    by_contra hlt
    rw [not_le] at hlt
    rw [has_unpruned_block_valid v (by omega)] at hxk
    exact hbelow x.toNat (UInt64.le_iff_toNat_le.mp hx) (hr ▸ hlt) (of_decide_eq_true hxk)

/-- The node of stripe `2` out of `8`. -/
def stripe_two : ValidSeed := ⟨2, 3, by decide, by decide, by decide, by decide⟩

/-- On a chain of height `10000` the node of stripe `2` keeps its first block at `4096`. -/
theorem get_next_unpruned_block_height_least_stripe_two :
    get_next_unpruned_block_height 0 10000 stripe_two.seed = 4096 ∧
      IsLeast {x : UInt64 | 0 ≤ x ∧ has_unpruned_block x 10000 stripe_two.seed = true} 4096 := by
  have hleast := get_next_unpruned_block_height_least stripe_two (h := 0) (H := 10000) (by decide)
    (by decide)
  have hv : get_next_unpruned_block_height 0 10000 stripe_two.seed = 4096 := by decide
  rw [hv] at hleast
  exact ⟨hv, hleast⟩

/-- With seed `0` nothing is pruned: every height is kept and the next kept one is `h`. -/
theorem has_unpruned_block_zero (h H : UInt64) : has_unpruned_block h H 0 = true := rfl

/-- **`get_next_pruned_block_height` is the least pruned height of `[h, H)`** whenever there is
one, for every valid seed. -/
theorem get_next_pruned_block_height_least (v : ValidSeed) {h H : UInt64} (hhH : h ≤ H)
    (hH : H.toNat ≤ 500000001)
    (hex : ∃ x, h ≤ x ∧ x < H ∧ has_unpruned_block x H v.seed = false) :
    ∃ r, get_next_pruned_block_height h H v.seed = .ok r ∧
      IsLeast {x : UInt64 | h ≤ x ∧ x < H ∧ has_unpruned_block x H v.seed = false} r := by
  have hhH' := UInt64.le_iff_toNat_le.mp hhH
  obtain ⟨r, hrun, hr⟩ := get_next_pruned_block_height_valid v (by omega : h.toNat ≤ 500000001) hH
  -- the pruned height, over ℕ
  have hexN : ∃ x, h.toNat ≤ x ∧ x < H.toNat ∧
      ¬unpruned_at H.toNat v.stripe (2 ^ v.log_stripes) x := by
    obtain ⟨x, hx, hxH, hxp⟩ := hex
    have hxH' := UInt64.lt_iff_toNat_lt.mp hxH
    rw [has_unpruned_block_valid v (by omega)] at hxp
    exact ⟨x.toNat, UInt64.le_iff_toNat_le.mp hx, hxH', of_decide_eq_false hxp⟩
  obtain ⟨hle, hlt, hpruned, hbelow⟩ := next_pruned_least v.two_le_pow v.stripe_pos v.stripe_le hexN
  refine ⟨r, hrun, ⟨UInt64.le_iff_toNat_le.mpr (hr ▸ hle), UInt64.lt_iff_toNat_lt.mpr (hr ▸ hlt), ?_⟩,
    fun x ⟨hx, hxH, hxp⟩ => ?_⟩
  · rw [has_unpruned_block_valid v (by omega), hr]
    exact decide_eq_false hpruned
  · rw [UInt64.le_iff_toNat_le]
    by_contra hxr
    rw [not_le] at hxr
    have hxH' := UInt64.lt_iff_toNat_lt.mp hxH
    rw [has_unpruned_block_valid v (by omega)] at hxp
    exact of_decide_eq_false hxp (hbelow x.toNat (UInt64.le_iff_toNat_le.mp hx) (hr ▸ hxr))

/-- On a chain of height `100000` the node of stripe `2` keeps `4096`, the first block of its
span, and the next height it prunes is `8192`, where stripe `3`'s span begins. -/
theorem get_next_pruned_block_height_least_stripe_two :
    stripe_two.seed = 385 ∧ has_unpruned_block 4096 100000 stripe_two.seed = true ∧
      get_next_pruned_block_height 4096 100000 stripe_two.seed = .ok 8192 ∧
      IsLeast {x : UInt64 | 4096 ≤ x ∧ x < 100000 ∧
        has_unpruned_block x 100000 stripe_two.seed = false} 8192 := by
  obtain ⟨r, hr, hleast⟩ := get_next_pruned_block_height_least stripe_two (h := 4096)
    (H := 100000) (by decide) (by decide) ⟨8192, by decide, by decide, by decide⟩
  have hnext : get_next_pruned_block_height 4096 100000 stripe_two.seed = .ok 8192 := by decide
  rw [hr, Except.ok.injEq] at hnext
  subst hnext
  exact ⟨rfl, by decide, hr, hleast⟩

/-! ## Seeds read back -/

/-- **A height's seed carries the height's stripe**: `get_pruning_stripe (get_pruning_seed h H l)`
is `get_pruning_stripe h H l`, for `1 ≤ l ≤ 7` and heights whose tip test does not wrap. -/
theorem get_pruning_stripe_get_pruning_seed {h H : UInt64} {l : ℕ} (hl1 : 1 ≤ l) (hl7 : l ≤ 7)
    (hh : h.toNat + 5500 < 2 ^ 64) :
    get_pruning_stripe <$> get_pruning_seed h H (UInt32.ofNat l) =
      .ok (get_pruning_stripe_at h H (UInt32.ofNat l)) := by
  have hlt : (UInt32.ofNat l).toNat = l := by
    rw [UInt32.toNat_ofNat']
    omega
  have hat := toNat_get_pruning_stripe_at (H := H) (hlt ▸ hl7) hh
  rw [hlt] at hat
  rw [get_pruning_seed]
  by_cases h0 : get_pruning_stripe_at h H (UInt32.ofNat l) = 0
  · rw [if_pos h0, h0]
    rfl
  rw [if_neg h0]
  -- a stripe off the tip is a valid stripe for `l`
  have hpos : 1 ≤ (get_pruning_stripe_at h H (UInt32.ofNat l)).toNat := by
    rw [← UInt32.toNat_inj, UInt32.toNat_zero] at h0
    omega
  have hle : (get_pruning_stripe_at h H (UInt32.ofNat l)).toNat ≤ 2 ^ l := by
    rw [hat]
    split_ifs
    · exact Nat.zero_le _
    · exact Nat.mod_lt _ (by positivity)
  let w : ValidSeed := ⟨_, l, hl1, hl7, hpos, hle⟩
  have hw : get_pruning_stripe_at h H (UInt32.ofNat l) = UInt32.ofNat w.stripe := by
    simp only [w, UInt32.ofNat_toNat]
  rw [hw, make_pruning_seed_valid w]
  show Except.ok (get_pruning_stripe w.seed) = Except.ok (UInt32.ofNat w.stripe)
  congr 1
  apply UInt32.toNat_inj.mp
  rw [w.toNat_get_pruning_stripe, UInt32.toNat_ofNat']
  have := w.stripe_le_128
  omega

/-- **A seed carries its `log_stripes`**: `get_pruning_log_stripes (make_pruning_seed t l) = l`. -/
theorem get_pruning_log_stripes_make_pruning_seed (v : ValidSeed) :
    get_pruning_log_stripes <$>
        make_pruning_seed (UInt32.ofNat v.stripe) (UInt32.ofNat v.log_stripes) =
      .ok (UInt32.ofNat v.log_stripes) := by
  rw [make_pruning_seed_valid]
  show Except.ok (get_pruning_log_stripes v.seed) = _
  congr 1
  apply UInt32.toNat_inj.mp
  rw [v.toNat_get_pruning_log_stripes, UInt32.toNat_ofNat']
  have := v.log_stripes_le
  omega

/-! ## The next pruned height at the tip -/

/-- **`get_next_pruned_block_height` can return a height the seed keeps.** For the seed of stripe
`1` out of `8` (`make_pruning_seed 1 3 = 384`) on a chain of height `9000`, nothing below `9000`
is pruned: heights `0` to `4095` are stripe `1`'s and heights from `3500` on are the tip. The
least pruned height of `[0, 9000)` does not exist, so the answer should be `9000`; the function
returns `3500`, the start of the tip zone, where the next stripe's node starts keeping blocks. -/
theorem get_next_pruned_block_height_unpruned_result :
    make_pruning_seed 1 3 = .ok 384 ∧ get_next_pruned_block_height 0 9000 384 = .ok 3500 ∧
      has_unpruned_block 3500 9000 384 = true ∧
      ∀ x : UInt64, x < 9000 → has_unpruned_block x 9000 384 = true := by
  let v : ValidSeed := ⟨1, 3, by norm_num, by norm_num, le_rfl, by norm_num⟩
  have hseed : v.seed = 384 := rfl
  refine ⟨make_pruning_seed_valid v, by decide, by decide, fun x hx => ?_⟩
  have h9 : (9000 : UInt64).toNat = 9000 := rfl
  have hx' := UInt64.lt_iff_toNat_lt.mp hx
  rw [h9] at hx'
  rw [← hseed, has_unpruned_block_valid v (by omega)]
  apply decide_eq_true
  -- below `4096` the run is stripe `1`'s; from `3500` on the tip keeps everything
  by_cases hlow : x.toNat < 4096
  · right
    show x.toNat / 4096 % 2 ^ 3 = 1 - 1
    rw [Nat.div_eq_of_lt hlow]
    rfl
  · left
    rw [h9]
    omega

end Pruning

end Salvium
