import Mathlib
import Salvium.Lib.Decimal

/-!
# Salvium — rounding an amount up to significant digits

`round_money_up(amount, significant_digits)` rounds on the decimal string of the amount: the
digits past the significant ones are zeroed, and if any of them was not zero the significant
digits are bumped by one, carrying through nines and, past the first digit, putting a `1` in
front. `strtoull` then reads the buffer back, and a value past `ULLONG_MAX` throws.

The buffer's value is `rounded_up`: the amount's ceiling at the digit where its significant digits
end (`ofDigitChars_round_digits`). That is the least number at or above the amount with at most
`significant_digits` significant digits (`Decimal.isLeast_ceil_mul_pow`), and `round_money_up`
returns it, or throws when it does not fit in 64 bits (`round_money_up_least`).
-/

namespace Salvium

namespace Money

/-- `ULLONG_MAX`. -/
def ULLONG_MAX : UInt64 := 0xFFFFFFFFFFFFFFFF

/-- `strtoull(buf, &end, 10)` on a buffer of decimal digits, the only buffers it reads here: the
value, or `ULLONG_MAX` with `errno` set to `ERANGE` (the flag) when it does not fit. -/
def strtoull (buf : List Char) : UInt64 × Bool :=
  if Nat.ofDigitChars 10 buf 0 < 2 ^ 64 then (UInt64.ofNat (Nat.ofDigitChars 10 buf 0), false)
  else (ULLONG_MAX, true)

/-- The carry loop of `round_money_up`, on the significant digits reversed: a `'9'` becomes `'0'`
and the carry goes on, any other digit is incremented and the carry stops. The flag says that the
carry went past the first digit. -/
def bump_digits : List Char → List Char × Bool
  | [] => ([], true)
  | c :: cs =>
    if c = '9' then ('0' :: (bump_digits cs).1, (bump_digits cs).2)
    else (Char.ofNat (c.toNat + 1) :: cs, false)

/-- The rounding of `round_money_up` on the buffer `buf`, when it has more than
`significant_digits` digits. -/
def round_digits (significant_digits : ℕ) (buf : List Char) : List Char :=
  if buf.length > significant_digits then
    let head := buf.take significant_digits
    let tail := buf.drop significant_digits
    -- bump if any digit past the significant ones is not zero; zero them all
    let bump := tail.any (· != '0')
    let tail := tail.map fun c => if c != '0' then '0' else c
    if bump then
      -- the carry reached the highest digit: a `1` in front
      (if (bump_digits head.reverse).2 then ['1'] else []) ++ (bump_digits head.reverse).1.reverse ++
        tail
    else head ++ tail
  else buf

/-- `round_money_up(amount, significant_digits)`. -/
def round_money_up (amount : UInt64) (significant_digits : UInt32) : Except String UInt64 := do
  if ¬significant_digits > 0 then throw "significant_digits must not be 0"
  -- `snprintf(buf, sizeof(buf), "%llu", amount)`
  let buf := round_digits significant_digits.toNat (Nat.toDigits 10 amount.toNat)
  let (ull, erange) := strtoull buf
  if ¬(ull ≠ ULLONG_MAX ∨ ¬erange) then
    throw ("Failed to parse rounded amount: " ++ String.ofList buf)
  if ¬(ull ≠ 0 ∨ amount = 0) then throw "Overflow in rounding"
  pure ull

/-- The amount rounded up to `significant_digits` digits: its ceiling at the digit where they
end, the amount itself when it has no more digits than that. -/
def rounded_up (significant_digits amount : ℕ) : ℕ :=
  (amount + 10 ^ ((Nat.toDigits 10 amount).length - significant_digits) - 1) /
    10 ^ ((Nat.toDigits 10 amount).length - significant_digits) *
    10 ^ ((Nat.toDigits 10 amount).length - significant_digits)

/-! ## The carry -/

/-- Appending one digit. -/
theorem ofDigitChars_append_singleton (l : List Char) (c : Char) :
    Nat.ofDigitChars 10 (l ++ [c]) 0 = Nat.ofDigitChars 10 l 0 * 10 + (c.toNat - 48) := by
  rw [Decimal.ofDigitChars_append_eq]
  simp [Nat.ofDigitChars_cons]

/-- **The carry loop adds one**: on reversed digits it keeps their number, and the digits it
leaves, with the carry out worth ten to their number, are one more than the digits it was
given. The induction is on the digits from the last one. -/
theorem bump_digits_spec : ∀ r : List Char, (∀ c ∈ r, c.isDigit = true) →
    (bump_digits r).1.length = r.length ∧
      Nat.ofDigitChars 10 (bump_digits r).1.reverse 0 +
          (if (bump_digits r).2 then 10 ^ r.length else 0) =
        Nat.ofDigitChars 10 r.reverse 0 + 1
  | [], _ => by simp [bump_digits]
  | c :: cs, hr => by
    have hc := Char.isDigit_iff_toNat.1 (hr c List.mem_cons_self)
    simp only [Char.reduceToNat] at hc
    obtain ⟨hlen, hval⟩ := bump_digits_spec cs fun x hx => hr x (List.mem_cons_of_mem c hx)
    by_cases h9 : c = '9'
    · -- a nine turns to zero and the carry goes on with the digits before it
      have hstep : bump_digits (c :: cs) = ('0' :: (bump_digits cs).1, (bump_digits cs).2) := by
        rw [bump_digits, if_pos h9]
      refine ⟨by rw [hstep, List.length_cons, List.length_cons, hlen], ?_⟩
      have h0 : '0'.toNat - 48 = 0 := rfl
      have h9' : '9'.toNat - 48 = 9 := rfl
      rw [hstep, h9]
      dsimp only
      rw [List.reverse_cons, List.reverse_cons, ofDigitChars_append_singleton,
        ofDigitChars_append_singleton, List.length_cons, Nat.pow_succ, h0, h9']
      split_ifs at hval ⊢ <;> omega
    · -- any other digit takes the one and stops the carry
      have hstep : bump_digits (c :: cs) = (Char.ofNat (c.toNat + 1) :: cs, false) := by
        rw [bump_digits, if_neg h9]
      have hne : c.toNat ≠ 57 := fun h => h9 (Char.toNat_inj.1 h)
      have hsucc : (Char.ofNat (c.toNat + 1)).toNat = c.toNat + 1 := by
        rw [Char.toNat_ofNat, if_pos (Or.inl (by omega))]
      refine ⟨by rw [hstep, List.length_cons, List.length_cons], ?_⟩
      rw [hstep]
      dsimp only
      rw [if_neg Bool.false_ne_true, List.reverse_cons, List.reverse_cons,
        ofDigitChars_append_singleton, ofDigitChars_append_singleton, hsucc]
      omega

/-! ## The rounded buffer -/

/-- The zeroed digits. -/
theorem map_zero_eq_replicate (l : List Char) :
    (l.map fun c => if c != '0' then '0' else c) = List.replicate l.length '0' := by
  rw [List.eq_replicate_iff]
  refine ⟨List.length_map _, fun c hc => ?_⟩
  obtain ⟨x, -, rfl⟩ := List.mem_map.1 hc
  by_cases hx : x = '0'
  · simp [hx]
  · simp [hx]

/-- Some digit past the significant ones is not zero exactly when the remainder is not zero. -/
theorem any_ne_zero_iff {l : List Char} (hl : ∀ c ∈ l, c.isDigit = true) :
    l.any (· != '0') = true ↔ Nat.ofDigitChars 10 l 0 ≠ 0 := by
  rw [ne_eq, Decimal.ofDigitChars_eq_zero_iff hl, List.any_eq_true]
  simp only [bne_iff_ne, ne_eq]
  constructor
  · rintro ⟨c, hc, hne⟩ hall
    exact hne (hall c hc)
  · intro h
    by_contra hall
    exact h fun c hc => by_contra fun hne => hall ⟨c, hc, hne⟩

/-- **The rounded buffer reads as `rounded_up`**: the amount's digits, rounded in place, are the
ceiling of the amount at the digit where the significant ones end. -/
theorem ofDigitChars_round_digits (d a : ℕ) :
    Nat.ofDigitChars 10 (round_digits d (Nat.toDigits 10 a)) 0 = rounded_up d a := by
  set buf := Nat.toDigits 10 a with hbuf
  have hdig : ∀ c ∈ buf, c.isDigit = true := fun c hc => Decimal.isDigit_of_mem_toDigits hc
  have hval : Nat.ofDigitChars 10 buf 0 = a := Nat.ofDigitChars_ten_toDigits
  set e := buf.length - d with he
  have hq : 0 < 10 ^ e := Nat.pow_pos (by norm_num)
  obtain ⟨hhead, htail⟩ := Decimal.ofDigitChars_take_drop hdig d
  rw [hval, ← he] at hhead htail
  have hany := any_ne_zero_iff (l := buf.drop d) fun c hc => hdig c (List.mem_of_mem_drop hc)
  rw [htail] at hany
  unfold round_digits rounded_up
  dsimp only
  rw [← hbuf, ← he]
  split
  · next hlen =>
    rw [map_zero_eq_replicate, List.length_drop, ← he, Decimal.add_sub_one_div_eq hq]
    split
    · next hbump =>
      -- the head bumped: one more at the place of the head, with the carry as a leading `1`
      have hheadlen : (buf.take d).length = d := by rw [List.length_take]; omega
      obtain ⟨hblen, hbval⟩ := bump_digits_spec (buf.take d).reverse fun c hc =>
        hdig c (List.mem_of_mem_take (List.mem_reverse.1 hc))
      rw [List.length_reverse, hheadlen, List.reverse_reverse, hhead] at hbval
      rw [List.length_reverse, hheadlen] at hblen
      rw [Decimal.ofDigitChars_append_replicate, if_neg (hany.1 hbump),
        Decimal.ofDigitChars_append_eq, List.length_reverse, hblen]
      congr 1
      have h1 : Nat.ofDigitChars 10 ['1'] 0 = 1 := rfl
      split_ifs at hbval ⊢
      · rw [h1]
        omega
      · rw [Nat.ofDigitChars_nil, Nat.zero_mul, Nat.zero_add]
        omega
    · next hbump =>
      -- nothing to bump: the tail was all zeros, and the amount a multiple of its place
      rw [Decimal.ofDigitChars_append_replicate, if_pos (not_not.1 (mt hany.2 hbump)),
        Nat.add_zero, hhead]
  · next hlen =>
    -- no more digits than the significant ones: the amount itself
    rw [hval, show e = 0 by omega, Nat.pow_zero, Nat.add_sub_cancel, Nat.div_one, Nat.mul_one]

/-! ## Rounding -/

/-- **`round_money_up` rounds up to significant digits.** For every amount and at least one
significant digit, `rounded_up` is the least number at or above the amount with at most that many
significant digits; `round_money_up` returns it when it fits in 64 bits and throws when it does
not. -/
theorem round_money_up_least (amount : UInt64) {significant_digits : UInt32}
    (hd : 0 < significant_digits) :
    IsLeast {r | amount.toNat ≤ r ∧ Decimal.SignificantLe significant_digits.toNat r}
        (rounded_up significant_digits.toNat amount.toNat) ∧
      (rounded_up significant_digits.toNat amount.toNat < 2 ^ 64 →
        round_money_up amount significant_digits =
          .ok (UInt64.ofNat (rounded_up significant_digits.toNat amount.toNat))) ∧
      (2 ^ 64 ≤ rounded_up significant_digits.toNat amount.toNat →
        ∃ e, round_money_up amount significant_digits = .error e) := by
  have hd' : 1 ≤ significant_digits.toNat := UInt32.lt_iff_toNat_lt.1 hd
  set d := significant_digits.toNat with hddef
  set a := amount.toNat with hadef
  set L := (Nat.toDigits 10 a).length with hL
  have hbuf := ofDigitChars_round_digits d a
  refine ⟨?_, fun hlt => ?_, fun hge => ?_⟩
  · -- the ceiling at the `L - d`-th digit, for a number of `L` digits
    apply Decimal.isLeast_ceil_mul_pow hd'
    · exact (Decimal.lt_pow_length_toDigits a).trans_le (Nat.pow_le_pow_right (by norm_num) (by omega))
    · by_cases hLd : L ≤ d
      · exact Or.inl (by omega)
      · right
        exact Decimal.pow_le_of_lt_length_toDigits (by omega) (by omega)
  · -- the value fits: no check fires, the amount being at most the rounded value
    have hle : a ≤ rounded_up d a := by
      unfold rounded_up
      exact Decimal.le_ceil_mul_pow a _
    have hne : UInt64.ofNat (rounded_up d a) ≠ 0 ∨ amount = 0 := by
      by_cases ha : amount = 0
      · exact Or.inr ha
      · left
        intro h0
        have := congrArg UInt64.toNat h0
        rw [UInt64.toNat_ofNat', Nat.mod_eq_of_lt hlt, UInt64.toNat_zero] at this
        exact ha (UInt64.toNat_inj.1 (by rw [UInt64.toNat_zero]; omega))
    have hstr : strtoull (round_digits d (Nat.toDigits 10 a)) =
        (UInt64.ofNat (rounded_up d a), false) := by
      rw [strtoull, hbuf, if_pos hlt]
    unfold round_money_up
    rw [if_neg (not_not.2 hd)]
    dsimp only
    rw [hstr]
    dsimp only
    rw [if_neg (not_not.2 (Or.inr Bool.false_ne_true)), if_neg (not_not.2 hne)]
    rfl
  · -- the value does not fit: `strtoull` sets `ERANGE`
    have hstr : strtoull (round_digits d (Nat.toDigits 10 a)) = (ULLONG_MAX, true) := by
      rw [strtoull, hbuf, if_neg (Nat.not_lt.2 hge)]
    unfold round_money_up
    rw [if_neg (not_not.2 hd)]
    dsimp only
    rw [hstr]
    dsimp only
    rw [if_pos (by simp)]
    exact ⟨_, rfl⟩

/-- Two significant digits of `12345`: `13000`. -/
theorem round_money_up_least_two_digits :
    (0 : UInt32) < 2 ∧ rounded_up 2 12345 = 13000 ∧
      round_money_up 12345 2 = .ok (UInt64.ofNat (rounded_up 2 12345)) :=
  ⟨by decide, by decide, (@round_money_up_least 12345 2 (by decide)).2.1 (by decide)⟩

end Money

end Salvium
