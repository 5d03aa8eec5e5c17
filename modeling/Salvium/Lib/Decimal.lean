import Mathlib

/-!
# Decimal digit strings

A string of decimal digits has the value `Nat.ofDigitChars 10 l 0`, and `Nat.toDigits 10 n` is
the string of `n`. Joining two strings shifts the first by the length of the second, so zeros
appended multiply by a power of ten and zeros in front change nothing; a string is below ten to
its length, and is zero exactly when it is all zeros. Cut after `k` digits, the two parts are the
quotient and the remainder by ten to the length of the second.

The last part is about rounding up: the numbers with at most `d` significant digits are the
`m * 10 ^ k` with `m < 10 ^ d`, and for a number of `d + e` digits the least of them at or above
it is its ceiling at the `e`-th digit (`isLeast_ceil_mul_pow`).
-/

namespace Decimal

/-- The value of a digit. -/
theorem toNat_sub_lt_of_isDigit {c : Char} (h : c.isDigit = true) : c.toNat - 48 < 10 := by
  have := Char.isDigit_iff_toNat.1 h
  simp only [Char.reduceToNat] at this
  omega

/-- Joining two strings: the first is shifted by the length of the second. -/
theorem ofDigitChars_append_eq (l₁ l₂ : List Char) :
    Nat.ofDigitChars 10 (l₁ ++ l₂) 0 =
      Nat.ofDigitChars 10 l₁ 0 * 10 ^ l₂.length + Nat.ofDigitChars 10 l₂ 0 := by
  rw [Nat.ofDigitChars_append, Nat.ofDigitChars_eq_ofDigitChars_zero, Nat.mul_comm]

/-- Zeros appended multiply by a power of ten. -/
theorem ofDigitChars_append_replicate (l : List Char) (k : ℕ) :
    Nat.ofDigitChars 10 (l ++ List.replicate k '0') 0 = Nat.ofDigitChars 10 l 0 * 10 ^ k := by
  rw [Nat.ofDigitChars_append, Nat.ofDigitChars_replicate_zero, Nat.mul_comm]

/-- Zeros in front change nothing. -/
theorem ofDigitChars_replicate_append (k : ℕ) (l : List Char) :
    Nat.ofDigitChars 10 (List.replicate k '0' ++ l) 0 = Nat.ofDigitChars 10 l 0 := by
  rw [Nat.ofDigitChars_append, Nat.ofDigitChars_replicate_zero, Nat.mul_zero]

/-- A fraction of `k` digits followed by `j` zeros, scaled to `dp ≥ k` decimals: the `j` zeros give
way to `dp - k`. -/
theorem ofDigitChars_append_replicate_mul_div (l : List Char) (j : ℕ) {k dp : ℕ} (hk : k ≤ dp) :
    Nat.ofDigitChars 10 (l ++ List.replicate j '0') 0 * 10 ^ dp / 10 ^ (k + j) =
      Nat.ofDigitChars 10 (l ++ List.replicate (dp - k) '0') 0 := by
  have hpow : 10 ^ j * 10 ^ dp = 10 ^ (dp - k) * 10 ^ (k + j) := by
    rw [← Nat.pow_add, ← Nat.pow_add]
    congr 1
    omega
  rw [ofDigitChars_append_replicate, ofDigitChars_append_replicate, Nat.mul_assoc, hpow,
    ← Nat.mul_assoc, Nat.mul_div_cancel _ (Nat.pow_pos (by norm_num))]

theorem ofDigitChars_cons_eq (c : Char) (l : List Char) :
    Nat.ofDigitChars 10 (c :: l) 0 = (c.toNat - 48) * 10 ^ l.length + Nat.ofDigitChars 10 l 0 := by
  rw [← List.singleton_append, ofDigitChars_append_eq]
  simp [Nat.ofDigitChars_cons]

variable {l : List Char}

/-- A string of digits is below ten to its length. -/
theorem ofDigitChars_lt (hl : ∀ c ∈ l, c.isDigit = true) :
    Nat.ofDigitChars 10 l 0 < 10 ^ l.length := by
  induction l with
  | nil => simp
  | cons c l ih =>
    have hc := toNat_sub_lt_of_isDigit (hl c List.mem_cons_self)
    have hrest := ih fun x hx => hl x (List.mem_cons_of_mem c hx)
    rw [ofDigitChars_cons_eq, List.length_cons, Nat.pow_succ]
    -- the head digit is at most nine tens of the rest's place
    have : (c.toNat - 48) * 10 ^ l.length ≤ 9 * 10 ^ l.length := Nat.mul_le_mul_right _ (by omega)
    omega

/-- A string of digits is zero exactly when all its digits are `'0'`. -/
theorem ofDigitChars_eq_zero_iff (hl : ∀ c ∈ l, c.isDigit = true) :
    Nat.ofDigitChars 10 l 0 = 0 ↔ ∀ c ∈ l, c = '0' := by
  induction l with
  | nil => simp
  | cons c l ih =>
    have hc := Char.isDigit_iff_toNat.1 (hl c List.mem_cons_self)
    simp only [Char.reduceToNat] at hc
    have hpos : 0 < 10 ^ l.length := Nat.pow_pos (by norm_num)
    rw [ofDigitChars_cons_eq, Nat.add_eq_zero_iff, Nat.mul_eq_zero, List.forall_mem_cons,
      ih fun x hx => hl x (List.mem_cons_of_mem c hx)]
    -- a digit is zero when it is the character `'0'`
    have hzero : c.toNat - 48 = 0 ↔ c = '0' := by
      rw [← Char.toNat_inj]
      simp only [Char.reduceToNat]
      omega
    rw [hzero]
    constructor
    · rintro ⟨h | h, hl⟩
      · exact ⟨h, hl⟩
      · omega
    · rintro ⟨h, hl⟩
      exact ⟨Or.inl h, hl⟩

/-- Cut after `k` digits, the front is the quotient and the back the remainder by ten to the
back's length. -/
theorem ofDigitChars_take_drop (hl : ∀ c ∈ l, c.isDigit = true) (k : ℕ) :
    Nat.ofDigitChars 10 (l.take k) 0 = Nat.ofDigitChars 10 l 0 / 10 ^ (l.length - k) ∧
      Nat.ofDigitChars 10 (l.drop k) 0 = Nat.ofDigitChars 10 l 0 % 10 ^ (l.length - k) := by
  have hback : Nat.ofDigitChars 10 (l.drop k) 0 < 10 ^ (l.length - k) := by
    rw [← List.length_drop]
    exact ofDigitChars_lt fun c hc => hl c (List.mem_of_mem_drop hc)
  have hsplit := ofDigitChars_append_eq (l.take k) (l.drop k)
  rw [List.take_append_drop, List.length_drop] at hsplit
  have hpos : 0 < 10 ^ (l.length - k) := Nat.pow_pos (by norm_num)
  rw [hsplit]
  constructor
  · rw [Nat.add_comm, Nat.add_mul_div_right _ _ hpos, Nat.div_eq_of_lt hback, Nat.zero_add]
  · rw [Nat.add_comm, Nat.add_mul_mod_self_right, Nat.mod_eq_of_lt hback]

/-! ## The decimal string of a number -/

theorem isDigit_of_mem_toDigits {n : ℕ} {c : Char} (hc : c ∈ Nat.toDigits 10 n) :
    c.isDigit = true :=
  Nat.isDigit_of_mem_toDigits (by norm_num) le_rfl hc

/-- A number is below ten to the length of its string. -/
theorem lt_pow_length_toDigits (n : ℕ) : n < 10 ^ (Nat.toDigits 10 n).length :=
  (Nat.length_toDigits_le_iff (by norm_num) Nat.length_toDigits_pos).1 le_rfl

/-- A number of more than `k` digits, `k > 0`, is at least `10 ^ k`. -/
theorem pow_le_of_lt_length_toDigits {n k : ℕ} (hk0 : 0 < k) (hk : k < (Nat.toDigits 10 n).length) :
    10 ^ k ≤ n := by
  by_contra h
  have := (Nat.length_toDigits_le_iff (b := 10) (n := n) (by norm_num) hk0).2 (by omega)
  omega

/-! ## Rounding up to significant digits -/

/-- `r` has at most `d` significant digits: it is a number below `10 ^ d` followed by zeros. -/
def SignificantLe (d r : ℕ) : Prop := ∃ m k, m < 10 ^ d ∧ r = m * 10 ^ k

/-- The ceiling of `a / q`: the quotient, one more when `q` does not divide `a`. -/
theorem add_sub_one_div_eq {a q : ℕ} (hq : 0 < q) :
    (a + q - 1) / q = a / q + if a % q = 0 then 0 else 1 := by
  have hdm := Nat.div_add_mod a q
  have hmod := Nat.mod_lt a hq
  split_ifs with h
  · -- `a` is `q * (a / q)`, and `q - 1` more stays in the same quotient
    rw [show a + q - 1 = (q - 1) + q * (a / q) by omega, Nat.add_mul_div_left _ _ hq,
      Nat.div_eq_of_lt (by omega), Nat.zero_add, Nat.add_zero]
  · rw [show a + q - 1 = (a % q - 1) + q * (a / q + 1) by rw [Nat.mul_add]; omega,
      Nat.add_mul_div_left _ _ hq, Nat.div_eq_of_lt (by omega), Nat.zero_add]

/-- The ceiling of `a` at the `e`-th digit is at least `a`. -/
theorem le_ceil_mul_pow (a e : ℕ) : a ≤ (a + 10 ^ e - 1) / 10 ^ e * 10 ^ e := by
  have hq : 0 < 10 ^ e := Nat.pow_pos (by norm_num)
  have hdm := Nat.div_add_mod (a + 10 ^ e - 1) (10 ^ e)
  have hmod := Nat.mod_lt (a + 10 ^ e - 1) hq
  rw [Nat.mul_comm]
  omega

/-- A multiple of `10 ^ e` at or above `a` is at or above its ceiling at the `e`-th digit. -/
theorem ceil_mul_pow_le {a e c : ℕ} (h : a ≤ c * 10 ^ e) :
    (a + 10 ^ e - 1) / 10 ^ e * 10 ^ e ≤ c * 10 ^ e := by
  have hq : 0 < 10 ^ e := Nat.pow_pos (by norm_num)
  apply Nat.mul_le_mul_right
  rw [← Nat.lt_succ_iff, Nat.div_lt_iff_lt_mul hq, Nat.succ_mul]
  omega

/-- **Rounding up to `d` significant digits.** For a number of at most `d + e` digits, and of
exactly that many when `e > 0`, the least number at or above it with at most `d` significant
digits is its ceiling at the `e`-th digit. -/
theorem isLeast_ceil_mul_pow {d e a : ℕ} (hd : 1 ≤ d) (ha : a < 10 ^ (d + e))
    (hlow : e = 0 ∨ 10 ^ (d + e - 1) ≤ a) :
    IsLeast {r | a ≤ r ∧ SignificantLe d r} ((a + 10 ^ e - 1) / 10 ^ e * 10 ^ e) := by
  have hq : 0 < 10 ^ e := Nat.pow_pos (by norm_num)
  refine ⟨⟨le_ceil_mul_pow a e, ?_⟩, ?_⟩
  · -- the ceiling is at most `10 ^ d`, and `10 ^ d` itself is `1` followed by zeros
    have hm : (a + 10 ^ e - 1) / 10 ^ e ≤ 10 ^ d := by
      rw [← Nat.lt_succ_iff, Nat.div_lt_iff_lt_mul hq, Nat.succ_mul, ← Nat.pow_add]
      omega
    rcases Nat.lt_or_eq_of_le hm with hlt | heq
    · exact ⟨_, e, hlt, rfl⟩
    · refine ⟨1, d + e, Nat.one_lt_pow (by omega) (by norm_num), ?_⟩
      rw [heq, Nat.one_mul, Nat.pow_add]
  · rintro r ⟨har, m, k, hm, rfl⟩
    rcases hlow with he | hlow
    · subst he
      simpa using har
    -- fewer than `e` zeros leave `r` below `10 ^ (d + e - 1) ≤ a`, so `10 ^ e` divides `r`
    have hk : e ≤ k := by
      by_contra hk
      have h1 : m * 10 ^ k < 10 ^ d * 10 ^ k := Nat.mul_lt_mul_of_pos_right hm (Nat.pow_pos (by norm_num))
      have h2 : 10 ^ d * 10 ^ k ≤ 10 ^ (d + e - 1) := by
        rw [← Nat.pow_add]
        exact Nat.pow_le_pow_right (by norm_num) (by omega)
      omega
    have hr : m * 10 ^ k = m * 10 ^ (k - e) * 10 ^ e := by
      rw [Nat.mul_assoc, ← Nat.pow_add, Nat.sub_add_cancel hk]
    rw [hr] at har ⊢
    exact ceil_mul_pow_le har

end Decimal
