import Mathlib
import Salvium.Chain.Miner

/-!
# Salvium — the block reward against its formula

`get_block_reward` computes the emission curve's penalty for a block heavier than the median in
machine words. The multiplicand `(2M - W) * W` is one 64-bit word, its product with the base
reward is 128 bits (`mul128`), and two divisions by `M` (`div128_64`) bring it back to a word.

`penalized_reward` states the curve in exact arithmetic. `map_toNat_get_block_reward` proves
that the code computes it as long as the softened median `M` is at most `2 ^ 32`. Then
`(2M - W) * W`, which stays below `M ^ 2`, fits its word, and two floored divisions by `M` are
one by `M ^ 2`. From `2 ^ 33` on the multiplicand wraps, and the reward falls far below the
formula's (`get_block_reward_wraps`).
-/

namespace Salvium

namespace Coinbase

/-! ## The formula -/

/-- The emission curve for weight `W` against median `M` and base reward `B`: all of `B` up to
the median, `B * (2M - W) * W / M ^ 2` up to twice the median, and no block above that. -/
def penalized_reward (B M W : ℕ) : Option ℕ :=
  if 2 * M < W then none
  else if W ≤ M then some B
  else some (B * ((2 * M - W) * W) / M ^ 2)

/-- The base reward: what is left to emit, shifted down by the emission speed factor, and at
least the tail emission. -/
def base_reward_exact (already_generated_coins : UInt64) : ℕ :=
  let target_minutes := DIFFICULTY_TARGET_V2.toNat / 60
  let emission_speed_factor := EMISSION_SPEED_FACTOR_PER_MINUTE.toNat - (target_minutes - 1)
  max (FINAL_SUBSIDY_PER_MINUTE.toNat * target_minutes)
    ((MONEY_SUPPLY.toNat - already_generated_coins.toNat) / 2 ^ emission_speed_factor)

/-- The median the penalty is measured against, raised to the full reward zone. -/
def soft_median_weight (median_weight : UInt64) (version : UInt8) : ℕ :=
  max median_weight.toNat (get_min_block_weight version).toNat

def block_reward_exact (median_weight current_block_weight already_generated_coins : UInt64)
    (version : UInt8) : Option ℕ :=
  penalized_reward (base_reward_exact already_generated_coins)
    (soft_median_weight median_weight version) current_block_weight.toNat

/-- Between the median and twice the median the penalty's product and the square of the
distance to the median add up to `M ^ 2`. -/
theorem penalty_add_sq {M W : ℕ} (hlo : M ≤ W) (hhi : W ≤ 2 * M) :
    (2 * M - W) * W + (W - M) ^ 2 = M ^ 2 := by
  obtain ⟨d, rfl⟩ := Nat.exists_eq_add_of_le hlo
  obtain ⟨e, rfl⟩ := Nat.exists_eq_add_of_le (show d ≤ M by omega)
  rw [show 2 * (d + e) - (d + e + d) = e by omega, show d + e + d - (d + e) = d by omega]
  ring

theorem penalty_lt_sq {M W : ℕ} (hlo : M < W) (hhi : W ≤ 2 * M) : (2 * M - W) * W < M ^ 2 := by
  have hsq := penalty_add_sq hlo.le hhi
  have hpos : 0 < (W - M) ^ 2 := pow_pos (by omega) 2
  omega

theorem penalized_reward_le {B M W r : ℕ} (h : penalized_reward B M W = some r) : r ≤ B := by
  unfold penalized_reward at h
  split_ifs at h with hover hfull
  · cases h
    exact le_rfl
  · cases h
    apply Nat.div_le_of_le_mul
    rw [mul_comm (M ^ 2)]
    exact Nat.mul_le_mul_left B (@penalty_lt_sq M W (by omega) (by omega)).le

/-- **The reward does not grow with the weight.** -/
theorem penalized_reward_antitone {B M W₁ W₂ r₁ r₂ : ℕ} (hW : W₁ ≤ W₂)
    (h₁ : penalized_reward B M W₁ = some r₁) (h₂ : penalized_reward B M W₂ = some r₂) :
    r₂ ≤ r₁ := by
  have hle₂ := penalized_reward_le h₂
  unfold penalized_reward at h₁ h₂
  split_ifs at h₁ with hover₁ hfull₁
  · -- the lighter block has all of `B`
    cases h₁
    exact hle₂
  · split_ifs at h₂ with hover₂ hfull₂
    · omega
    · -- both are penalized: the product falls as the distance to the median grows
      cases h₁
      cases h₂
      have hsq₁ := penalty_add_sq (M := M) (W := W₁) (by omega) (by omega)
      have hsq₂ := penalty_add_sq (M := M) (W := W₂) (by omega) (by omega)
      have hdist : (W₁ - M) ^ 2 ≤ (W₂ - M) ^ 2 := Nat.pow_le_pow_left (by omega) 2
      apply Nat.div_le_div_right
      exact Nat.mul_le_mul_left B (by omega)

/-! ## The words of `get_block_reward` -/

/-- The base reward `get_block_reward` computes, in its word. -/
def reward_base_word (already_generated_coins : UInt64) : UInt64 :=
  let target_minutes := DIFFICULTY_TARGET_V2 / 60
  let emission_speed_factor := EMISSION_SPEED_FACTOR_PER_MINUTE - (target_minutes - 1)
  let base_reward := (MONEY_SUPPLY - already_generated_coins) >>> emission_speed_factor
  if base_reward < FINAL_SUBSIDY_PER_MINUTE * target_minutes then
    FINAL_SUBSIDY_PER_MINUTE * target_minutes else base_reward

/-- The penalty path of `get_block_reward`, from the base reward and the softened median. -/
def penalty_reward_word (base_reward median_weight current_block_weight : UInt64) : UInt64 :=
  let multiplicand := (2 * median_weight - current_block_weight) * current_block_weight
  let (product_lo, product_hi) := mul128 base_reward multiplicand
  let (reward_hi, reward_lo) := div128_64 product_hi product_lo median_weight
  let (_, reward_lo) := div128_64 reward_hi reward_lo median_weight
  reward_lo

theorem get_block_reward_eq {M W g : UInt64} {v : UInt8} (hg : g ≠ 0) :
    get_block_reward M W g v =
      let M' := if M < get_min_block_weight v then get_min_block_weight v else M
      if W ≤ M' then some (reward_base_word g)
      else if W > 2 * M' then none
      else some (penalty_reward_word (reward_base_word g) M' W) := by
  unfold get_block_reward
  rw [if_neg hg]
  rfl

theorem toNat_reward_base_word {g : UInt64} (hg : g ≤ MONEY_SUPPLY) :
    (reward_base_word g).toNat = base_reward_exact g := by
  have htarget : DIFFICULTY_TARGET_V2 / 60 = 2 := by decide
  have hfactor : EMISSION_SPEED_FACTOR_PER_MINUTE - (2 - 1) = 20 := by decide
  have hsub : (MONEY_SUPPLY - g).toNat = MONEY_SUPPLY.toNat - g.toNat :=
    UInt64.toNat_sub_of_le _ _ hg
  have hshift : ((MONEY_SUPPLY - g) >>> 20).toNat = (MONEY_SUPPLY.toNat - g.toNat) / 2 ^ 20 := by
    rw [UInt64.toNat_shiftRight, hsub, Nat.shiftRight_eq_div_pow]
    rfl
  have htail : (FINAL_SUBSIDY_PER_MINUTE * 2).toNat = FINAL_SUBSIDY_PER_MINUTE.toNat * 2 := by
    decide
  simp only [reward_base_word, base_reward_exact, htarget, hfactor]
  rw [show DIFFICULTY_TARGET_V2.toNat / 60 = 2 from rfl,
    show EMISSION_SPEED_FACTOR_PER_MINUTE.toNat - (2 - 1) = 20 from rfl]
  split_ifs with hlt
  · rw [UInt64.lt_iff_toNat_lt, hshift, htail] at hlt
    rw [htail]
    omega
  · rw [UInt64.lt_iff_toNat_lt, hshift, htail] at hlt
    rw [hshift]
    omega

theorem toNat_soft_median {M : UInt64} {v : UInt8} :
    (if M < get_min_block_weight v then get_min_block_weight v else M).toNat =
      soft_median_weight M v := by
  unfold soft_median_weight
  split_ifs with hlt
  · rw [UInt64.lt_iff_toNat_lt] at hlt
    omega
  · rw [UInt64.lt_iff_toNat_lt] at hlt
    omega

/-- `div128_64` by its words: the quotient's high and low words, when the quotient fits in 128
bits, which it does for every divisor. -/
theorem div128_64_toNat (hi lo d : UInt64) :
    (div128_64 hi lo d).1.toNat = (hi.toNat * 2 ^ 64 + lo.toNat) / d.toNat / 2 ^ 64 ∧
      (div128_64 hi lo d).2.toNat = (hi.toNat * 2 ^ 64 + lo.toNat) / d.toNat % 2 ^ 64 := by
  have hhi := hi.toNat_lt
  have hlo := lo.toNat_lt
  have hq : (hi.toNat * 2 ^ 64 + lo.toNat) / d.toNat < 2 ^ 128 :=
    lt_of_le_of_lt (Nat.div_le_self _ _) (by omega)
  simp only [div128_64, UInt64.toNat_ofNat']
  exact ⟨Nat.mod_eq_of_lt (by omega), trivial⟩

/-- **The penalty in words is the exact penalty** while the median is at most `2 ^ 32`: the
multiplicand is below `M ^ 2 ≤ 2 ^ 64`, and the two divisions by `M` are one by `M ^ 2`. -/
theorem toNat_penalty_reward_word {B M W : UInt64} (hM : M.toNat ≤ 2 ^ 32) (hlo : M < W)
    (hhi : W ≤ 2 * M) :
    (penalty_reward_word B M W).toNat =
      B.toNat * ((2 * M.toNat - W.toNat) * W.toNat) / M.toNat ^ 2 := by
  have h2M : (2 * M).toNat = 2 * M.toNat := by
    rw [UInt64.toNat_mul, Nat.mod_eq_of_lt (by simp only [UInt64.reduceToNat]; omega)]
    rfl
  rw [UInt64.lt_iff_toNat_lt] at hlo
  have hhi' : W.toNat ≤ 2 * M.toNat := by
    rw [UInt64.le_iff_toNat_le, h2M] at hhi
    exact hhi
  have hsq : M.toNat ^ 2 ≤ 2 ^ 64 :=
    calc M.toNat ^ 2 ≤ (2 ^ 32) ^ 2 := Nat.pow_le_pow_left hM 2
      _ = 2 ^ 64 := by norm_num
  have hpen := penalty_lt_sq hlo hhi'
  -- the multiplicand does not wrap
  have hmul : ((2 * M - W) * W).toNat = (2 * M.toNat - W.toNat) * W.toNat := by
    rw [UInt64.toNat_mul, UInt64.toNat_sub_of_le _ _ hhi, h2M]
    exact Nat.mod_eq_of_lt (by omega)
  set x := (2 * M.toNat - W.toNat) * W.toNat with hx
  have hB := B.toNat_lt
  unfold penalty_reward_word
  dsimp only
  obtain ⟨hplo, hphi⟩ := mul128_exact B ((2 * M - W) * W)
  rw [hmul] at hplo hphi
  generalize mul128 B ((2 * M - W) * W) = product at hplo hphi ⊢
  -- the first division: the product over `M`
  have hprod : product.2.toNat * 2 ^ 64 + product.1.toNat = B.toNat * x := by
    rw [hplo, hphi]
    exact Nat.div_add_mod' _ _
  obtain ⟨h1hi, h1lo⟩ := div128_64_toNat product.2 product.1 M
  rw [hprod] at h1hi h1lo
  generalize div128_64 product.2 product.1 M = reward at h1hi h1lo ⊢
  -- the second: the quotient over `M` again, which is below `B`
  have hq1 : reward.1.toNat * 2 ^ 64 + reward.2.toNat = B.toNat * x / M.toNat := by
    rw [h1hi, h1lo]
    exact Nat.div_add_mod' _ _
  have hle : B.toNat * x / M.toNat ^ 2 ≤ B.toNat := by
    apply Nat.div_le_of_le_mul
    rw [mul_comm (M.toNat ^ 2)]
    exact Nat.mul_le_mul_left _ hpen.le
  obtain ⟨-, h2lo⟩ := div128_64_toNat reward.1 reward.2 M
  rw [hq1, Nat.div_div_eq_div_mul, ← sq] at h2lo
  rw [h2lo]
  exact Nat.mod_eq_of_lt (by omega)

/-! ## The code against the formula -/

/-- **`get_block_reward` computes the emission curve** for every weight, as long as the softened
median is at most `2 ^ 32`. -/
theorem map_toNat_get_block_reward {M g : UInt64} {v : UInt8} (hg : 0 < g)
    (hgs : g ≤ MONEY_SUPPLY) (hM : soft_median_weight M v ≤ 2 ^ 32) (W : UInt64) :
    (get_block_reward M W g v).map UInt64.toNat = block_reward_exact M W g v := by
  have hsoft := @toNat_soft_median M v
  rw [get_block_reward_eq (UInt64.pos_iff_ne_zero.mp hg), block_reward_exact,
    ← toNat_reward_base_word hgs]
  dsimp only
  generalize (if M < get_min_block_weight v then get_min_block_weight v else M) = M' at hsoft ⊢
  rw [← hsoft] at hM ⊢
  have h2M : (2 * M').toNat = 2 * M'.toNat := by
    rw [UInt64.toNat_mul, Nat.mod_eq_of_lt (by simp only [UInt64.reduceToNat]; omega)]
    rfl
  have hle : W ≤ M' ↔ W.toNat ≤ M'.toNat := UInt64.le_iff_toNat_le
  have hgt : W > 2 * M' ↔ 2 * M'.toNat < W.toNat := by
    rw [gt_iff_lt, UInt64.lt_iff_toNat_lt, h2M]
  simp only [hle, hgt]
  unfold penalized_reward
  by_cases hfull : W.toNat ≤ M'.toNat
  · -- up to the median: the whole base reward
    rw [if_pos hfull, if_neg (by omega), if_pos hfull]
    rfl
  by_cases hover : 2 * M'.toNat < W.toNat
  · rw [if_neg hfull, if_pos hover, if_pos hover]
    rfl
  · -- the penalty, computed exactly
    rw [if_neg hfull, if_neg hover, if_neg hover, if_neg hfull, Option.map_some,
      toNat_penalty_reward_word hM (UInt64.lt_iff_toNat_lt.mpr (by omega))
        (UInt64.le_iff_toNat_le.mpr (by rw [h2M]; omega))]

/-- **The reward, bounded and non-increasing.** While the softened median is at most `2 ^ 32`,
`get_block_reward` is the emission curve in exact arithmetic, never more than the base reward,
and does not grow with the block's weight. -/
theorem get_block_reward_exact {M g : UInt64} {v : UInt8} (hg : 0 < g) (hgs : g ≤ MONEY_SUPPLY)
    (hM : soft_median_weight M v ≤ 2 ^ 32) :
    (∀ W, (get_block_reward M W g v).map UInt64.toNat = block_reward_exact M W g v) ∧
      (∀ W r, get_block_reward M W g v = some r → r.toNat ≤ base_reward_exact g) ∧
      ∀ W₁ W₂ r₁ r₂, W₁ ≤ W₂ → get_block_reward M W₁ g v = some r₁ →
        get_block_reward M W₂ g v = some r₂ → r₂ ≤ r₁ := by
  have hexact := map_toNat_get_block_reward hg hgs hM
  -- a reward the code returns is the formula's
  have hof : ∀ W r, get_block_reward M W g v = some r → block_reward_exact M W g v = some r.toNat := by
    intro W r h
    rw [← hexact W, h]
    rfl
  refine ⟨hexact, fun W r h => penalized_reward_le (hof W r h), ?_⟩
  intro W₁ W₂ r₁ r₂ hW h₁ h₂
  rw [UInt64.le_iff_toNat_le]
  exact penalized_reward_antitone (UInt64.le_iff_toNat_le.mp hW) (hof W₁ r₁ h₁) (hof W₂ r₂ h₂)

theorem get_block_reward_exact_mainnet :
    0 < (1 : UInt64) ∧ (1 : UInt64) ≤ MONEY_SUPPLY ∧ soft_median_weight 300000 10 ≤ 2 ^ 32 ∧
      ((∀ W, (get_block_reward 300000 W 1 10).map UInt64.toNat = block_reward_exact 300000 W 1 10) ∧
        (∀ W r, get_block_reward 300000 W 1 10 = some r → r.toNat ≤ base_reward_exact 1) ∧
        ∀ W₁ W₂ r₁ r₂, W₁ ≤ W₂ → get_block_reward 300000 W₁ 1 10 = some r₁ →
          get_block_reward 300000 W₂ 1 10 = some r₂ → r₂ ≤ r₁) :=
  ⟨by decide, by decide, by decide, get_block_reward_exact (by decide) (by decide) (by decide)⟩

/-- **From a median of `2 ^ 33` on, the multiplicand wraps.** One byte over that median,
`(2M - W) * W = 2 ^ 66 - 1` is cut to `2 ^ 64 - 1`, and the block earns about a quarter of what
the curve gives, which is one atomic unit below the base reward. -/
theorem get_block_reward_wraps :
    get_block_reward 8589934592 8589934593 1 10 = some 4396438598 ∧
      block_reward_exact 8589934592 8589934593 1 10 = some 17585754393 :=
  ⟨by decide, by decide⟩

end Coinbase

end Salvium
