import Mathlib
import Salvium.Lib.Decimal

/-!
# Salvium — amount strings

`print_money` writes an amount in atomic units as a decimal with `default_decimal_point` digits
after the point (`8`, `5` or `2`: sal, millisal or microsal, as `set_default_decimal_point`
allows), and `parse_amount` reads one back. Strings are lists of characters, as `std::string` is a
list of bytes; the global `default_decimal_point` is passed to the functions that read it.

`parse_amount` trims the string, finds the first point, drops trailing zeros of the fraction past
`default_decimal_point` digits, fails if the fraction is still longer, removes the point, fails on
the empty string, pads the fraction with zeros and leaves the rest to
`get_xtype_from_string`. Its result is described without the string operations by `AmountOf`:
digits with at most one point, at least one digit, at most `default_decimal_point` significant
fraction digits, and the value times `10 ^ default_decimal_point` below `2 ^ 64`
(`parse_amount_eq_some_iff`). What `print_money` writes is such a string, of the amount itself
(`amountOf_print_money`).
-/

namespace Salvium

namespace Money

/-- `CRYPTONOTE_DISPLAY_DECIMAL_POINT`, the first `default_decimal_point`. -/
def CRYPTONOTE_DISPLAY_DECIMAL_POINT : UInt32 := 8

/-- `set_default_decimal_point(decimal_point)`: the new `default_decimal_point`. -/
def set_default_decimal_point (decimal_point : UInt32) : Except String UInt32 :=
  if decimal_point = 8 ∨ decimal_point = 5 ∨ decimal_point = 2 then .ok decimal_point
  else .error ("Invalid decimal point specification: " ++ toString decimal_point)

/-! ## Printing -/

/-- `insert_money_decimal_point(s, decimal_point)`: `(unsigned int)-1` stands for the default;
the digits are padded with zeros to one more than the decimal point, and the point inserted. -/
def insert_money_decimal_point (default_decimal_point : UInt32) (s : List Char)
    (decimal_point : UInt32) : List Char :=
  let decimal_point := if decimal_point = 0xFFFFFFFF then default_decimal_point else decimal_point
  let s := if s.length < (decimal_point + 1).toNat then
      List.replicate ((decimal_point + 1).toNat - s.length) '0' ++ s
    else s
  if decimal_point > 0 then
    s.take (s.length - decimal_point.toNat) ++ '.' :: s.drop (s.length - decimal_point.toNat)
  else s

/-- `print_money(amount, decimal_point)`: `std::to_string(amount)` with the point inserted. -/
def print_money (default_decimal_point : UInt32) (amount : UInt64) (decimal_point : UInt32) :
    List Char :=
  insert_money_decimal_point default_decimal_point (Nat.toDigits 10 amount.toNat) decimal_point

/-! ## Parsing -/

/-- `std::isspace` in the C locale, which `boost::algorithm::trim` uses. -/
def isspace (c : Char) : Bool :=
  c == ' ' || c == '\t' || c == '\n' || c == '\x0b' || c == '\x0c' || c == '\r'

/-- `boost::algorithm::trim`: whitespace off the end, then off the front. -/
def trim (s : List Char) : List Char := (s.rdropWhile isspace).dropWhile isspace

/-- `boost::lexical_cast<uint64_t>` of a string of digits, the only strings it gets here: it
throws on the empty string and on a value of `2 ^ 64` or more. -/
def lexical_cast (s : List Char) : Option UInt64 :=
  if s = [] then none
  else if Nat.ofDigitChars 10 s 0 < 2 ^ 64 then some (UInt64.ofNat (Nat.ofDigitChars 10 s 0))
  else none

/-- `string_tools::get_xtype_from_string(val, str_id)` for `uint64_t`: every character must be a
digit (`epee::misc_utils::parse::isdigit`, which holds of `'0'` to `'9'` only), then
`boost::lexical_cast`. -/
def get_xtype_from_string (str_id : List Char) : Option UInt64 :=
  if str_id.all Char.isDigit then lexical_cast str_id else none

/-- The loop of `parse_amount` that erases trailing `'0'`s while the fraction is longer than
`default_decimal_point`, on the string reversed: `fraction_size` counts the fraction digits
left. -/
def strip_fraction_zeros (default_decimal_point : UInt32) : List Char → ℕ → List Char × ℕ
  | c :: rs, fraction_size =>
    if default_decimal_point.toNat < fraction_size ∧ c = '0' then
      strip_fraction_zeros default_decimal_point rs (fraction_size - 1)
    else (c :: rs, fraction_size)
  | [], fraction_size => ([], fraction_size)

/-- `parse_amount(amount, str_amount_)`: `none` is the source's `false`. -/
def parse_amount (default_decimal_point : UInt32) (str_amount_ : List Char) : Option UInt64 := do
  let str_amount := trim str_amount_
  let point_index := str_amount.idxOf '.'
  -- `find_first_of` gives `npos` when there is no point, and `idxOf` the length
  let (str_amount, fraction_size) ←
    if point_index < str_amount.length then
      let (rs, fraction_size) := strip_fraction_zeros default_decimal_point str_amount.reverse
        (str_amount.length - point_index - 1)
      if default_decimal_point.toNat < fraction_size then none
      else some (rs.reverse.eraseIdx point_index, fraction_size)
    else some (str_amount, 0)
  if str_amount = [] then none
  else get_xtype_from_string (if fraction_size < default_decimal_point.toNat then
      str_amount ++ List.replicate (default_decimal_point.toNat - fraction_size) '0'
    else str_amount)

/-! ## What an amount string is -/

/-- `s` stands for the amount `v` in atomic units, with `dp` decimals: once trimmed it is digits
`I`, or digits `I`, a point and digits `F`, with at least one digit; `F` has at most `dp` digits
once its trailing zeros are dropped; and `v` is `I.F` times `10 ^ dp` (the division is exact),
below `2 ^ 64`. -/
def AmountOf (dp : ℕ) (s : List Char) (v : ℕ) : Prop :=
  ∃ I F : List Char, (trim s = I ∧ F = [] ∨ trim s = I ++ '.' :: F) ∧
    (∀ c ∈ I ++ F, c.isDigit = true) ∧ I ++ F ≠ [] ∧
    (F.rdropWhile (· == '0')).length ≤ dp ∧
    v = Nat.ofDigitChars 10 (I ++ F) 0 * 10 ^ dp / 10 ^ F.length ∧ v < 2 ^ 64

/-! ## The pieces of the parser -/

/-- **`get_xtype_from_string` for `uint64_t`**: a non-empty string of digits whose value fits. -/
theorem get_xtype_from_string_eq_some_iff (l : List Char) (r : UInt64) :
    get_xtype_from_string l = some r ↔
      l ≠ [] ∧ (∀ c ∈ l, c.isDigit = true) ∧ Nat.ofDigitChars 10 l 0 < 2 ^ 64 ∧
        r.toNat = Nat.ofDigitChars 10 l 0 := by
  unfold get_xtype_from_string lexical_cast
  by_cases hd : l.all Char.isDigit = true
  · have hd' := List.all_eq_true.1 hd
    rw [if_pos hd]
    by_cases hl : l = []
    · simp [hl]
    · rw [if_neg hl]
      split_ifs with hlt
      · rw [Option.some.injEq, ← UInt64.toNat_inj, UInt64.toNat_ofNat', Nat.mod_eq_of_lt hlt]
        constructor
        · intro h
          exact ⟨hl, hd', hlt, h.symm⟩
        · intro h
          exact h.2.2.2.symm
      · simp only [false_iff, not_and]
        exact fun _ _ h => absurd h hlt
  · rw [if_neg hd]
    simp only [reduceCtorEq, false_iff, not_and]
    exact fun _ h => absurd (List.all_eq_true.2 h) hd

/-- **The zero-stripping loop.** Started with the count of the fraction it runs over, it drops a
run of `j` zeros, keeps the count equal to what is left, never goes below `dp` digits, and stops
within `dp` digits exactly when the fraction without any of its leading zeros (the trailing ones of
the unreversed string) has at most `dp`. -/
theorem strip_fraction_zeros_spec (dp : UInt32) :
    ∀ Fr : List Char, ∃ j, Fr = List.replicate j '0' ++ (strip_fraction_zeros dp Fr Fr.length).1 ∧
      (strip_fraction_zeros dp Fr Fr.length).2 = (strip_fraction_zeros dp Fr Fr.length).1.length ∧
      min dp.toNat Fr.length ≤ (strip_fraction_zeros dp Fr Fr.length).1.length ∧
      ((strip_fraction_zeros dp Fr Fr.length).2 ≤ dp.toNat ↔
        (Fr.dropWhile (· == '0')).length ≤ dp.toNat)
  | [] => ⟨0, by simp [strip_fraction_zeros]⟩
  | c :: Fr => by
    by_cases hc : dp.toNat < Fr.length + 1 ∧ c = '0'
    · -- a zero past `dp` digits is dropped, and the loop goes on over the rest
      obtain ⟨j, hj, hn, hmin, hle⟩ := strip_fraction_zeros_spec dp Fr
      have hstep : strip_fraction_zeros dp (c :: Fr) (c :: Fr).length =
          strip_fraction_zeros dp Fr Fr.length := by
        rw [List.length_cons, strip_fraction_zeros, if_pos hc, Nat.add_sub_cancel]
      rw [hstep, hc.2]
      refine ⟨j + 1, ?_, hn, by rw [List.length_cons]; omega, ?_⟩
      · rw [List.replicate_succ, List.cons_append, ← hj]
      · rw [hle, List.dropWhile_cons_of_pos (by simp)]
    · -- the loop stops here: either within `dp` digits or at a non-zero digit
      have hstep : strip_fraction_zeros dp (c :: Fr) (c :: Fr).length = (c :: Fr, Fr.length + 1) := by
        rw [List.length_cons, strip_fraction_zeros, if_neg hc]
      rw [hstep]
      refine ⟨0, rfl, rfl, by simp, ?_⟩
      rw [not_and_or] at hc
      rcases hc with hlen | hne
      · have hdrop := List.length_dropWhile_le (· == '0') (c :: Fr)
        rw [List.length_cons] at hdrop
        constructor
        · intro _
          omega
        · intro _
          omega
      · rw [List.dropWhile_cons_of_neg (by simpa using hne), List.length_cons]

/-- The loop does not look past the fraction: once the count is spent it stops, whatever
follows. -/
theorem strip_fraction_zeros_append (dp : UInt32) :
    ∀ (Fr rest : List Char), strip_fraction_zeros dp (Fr ++ rest) Fr.length =
      ((strip_fraction_zeros dp Fr Fr.length).1 ++ rest, (strip_fraction_zeros dp Fr Fr.length).2)
  | [], [] => rfl
  | [], c :: rest => by
    simp [strip_fraction_zeros]
  | c :: Fr, rest => by
    rw [List.cons_append, List.length_cons]
    unfold strip_fraction_zeros
    split_ifs with hc
    · rw [Nat.add_sub_cancel]
      exact strip_fraction_zeros_append dp Fr rest
    · rfl

/-- A string of digits has no point. -/
theorem point_not_mem_of_isDigit {l : List Char} (hl : ∀ c ∈ l, c.isDigit = true) : '.' ∉ l :=
  fun h => absurd (hl '.' h) (by decide)

/-- `find_first_of('.')`: the digits before the first point. -/
theorem idxOf_point_append {I F : List Char} (hI : '.' ∉ I) : (I ++ '.' :: F).idxOf '.' = I.length := by
  rw [List.idxOf_append_of_notMem hI, List.idxOf_cons_self, Nat.add_zero]

/-- Without a point the whole trimmed string is the integer part, padded with `dp` zeros. -/
theorem parse_amount_of_point_not_mem {dp : UInt32} {s : List Char} (hdp : 0 < dp.toNat)
    (hp : '.' ∉ trim s) :
    parse_amount dp s = if trim s = [] then none
      else get_xtype_from_string (trim s ++ List.replicate dp.toNat '0') := by
  have hidx : (trim s).idxOf '.' = (trim s).length := List.idxOf_eq_length_iff.2 hp
  simp only [parse_amount, hidx, Nat.lt_irrefl, if_false, Option.bind_eq_bind, Option.bind_some]
  rw [if_pos hdp, Nat.sub_zero]

/-- With a point after the digits `I`, the fraction `F` is stripped; the digits without the point
are padded to `dp` fraction digits. -/
theorem parse_amount_of_point {dp : UInt32} {s I F : List Char} (ht : trim s = I ++ '.' :: F)
    (hI : '.' ∉ I) :
    parse_amount dp s =
      if dp.toNat < (strip_fraction_zeros dp F.reverse F.length).2 then none
      else if I ++ (strip_fraction_zeros dp F.reverse F.length).1.reverse = [] then none
      else get_xtype_from_string (I ++ (strip_fraction_zeros dp F.reverse F.length).1.reverse ++
        List.replicate (dp.toNat - (strip_fraction_zeros dp F.reverse F.length).2) '0') := by
  have hidx := idxOf_point_append (F := F) hI
  have hcount : I.length + (F.length + 1) - I.length - 1 = F.reverse.length := by simp
  have hrev : (I ++ '.' :: F).reverse = F.reverse ++ ('.' :: I.reverse) := by simp
  obtain ⟨j, -, hn, -⟩ := strip_fraction_zeros_spec dp F.reverse
  rw [List.length_reverse] at hn
  -- the point sits at `I.length`, and removing it joins `I` with the stripped fraction
  have herase : ((strip_fraction_zeros dp F.reverse F.length).1 ++ '.' :: I.reverse).reverse.eraseIdx
      I.length = I ++ (strip_fraction_zeros dp F.reverse F.length).1.reverse := by
    rw [List.reverse_append, List.reverse_cons, List.reverse_reverse, List.append_assoc,
      List.singleton_append, List.eraseIdx_append_of_length_le le_rfl, Nat.sub_self,
      List.eraseIdx_cons_zero]
  simp only [parse_amount, ht, hidx, List.length_append, List.length_cons]
  rw [if_pos (by omega), hrev, hcount, strip_fraction_zeros_append, List.length_reverse]
  dsimp only
  split_ifs with h1 h2
  · rfl
  · simp only [Option.bind_eq_bind, Option.bind_some, herase, h2, if_true]
  · simp only [Option.bind_eq_bind, Option.bind_some, herase, h2, if_false]
    split_ifs with h3
    · rfl
    · -- a fraction that is not shorter than `dp` has exactly `dp` digits: nothing to pad
      have hz : dp.toNat - (strip_fraction_zeros dp F.reverse F.length).2 = 0 := by omega
      rw [hz, List.replicate_zero, List.append_nil]

/-! ## What the parser accepts -/

/-- The first point of a string that has one splits it. -/
theorem exists_point_split : ∀ t : List Char, '.' ∈ t → ∃ I F, t = I ++ '.' :: F ∧ '.' ∉ I
  | c :: t, h => by
    by_cases hc : c = '.'
    · exact ⟨[], t, by rw [hc]; rfl, List.not_mem_nil⟩
    · obtain ⟨I, F, rfl, hI⟩ := exists_point_split t ((List.mem_cons.1 h).resolve_left (Ne.symm hc))
      refine ⟨c :: I, F, rfl, ?_⟩
      rw [List.mem_cons, not_or]
      exact ⟨Ne.symm hc, hI⟩

/-- Zeros added to digits keep them digits. -/
theorem forall_isDigit_append_replicate {l : List Char} {k : ℕ} :
    (∀ c ∈ l ++ List.replicate k '0', c.isDigit = true) ↔ ∀ c ∈ l, c.isDigit = true := by
  simp only [List.mem_append, List.mem_replicate]
  constructor
  · intro h c hc
    exact h c (Or.inl hc)
  · rintro h c (hc | ⟨-, rfl⟩)
    · exact h c hc
    · rfl

/-- Without a point, `AmountOf` is about the whole trimmed string. -/
theorem amountOf_of_point_not_mem {dp : ℕ} {s : List Char} {v : ℕ} (hp : '.' ∉ trim s) :
    AmountOf dp s v ↔ trim s ≠ [] ∧ (∀ c ∈ trim s, c.isDigit = true) ∧
      v = Nat.ofDigitChars 10 (trim s) 0 * 10 ^ dp ∧ v < 2 ^ 64 := by
  constructor
  · rintro ⟨I, F, ⟨hI, rfl⟩ | hI, hd, hne, -, hv, hlt⟩
    · rw [List.append_nil] at hd hne hv
      rw [List.length_nil, Nat.pow_zero, Nat.div_one] at hv
      rw [hI]
      exact ⟨hne, hd, hv, hlt⟩
    · exact absurd (hI ▸ List.mem_append_right I List.mem_cons_self) hp
  · rintro ⟨hne, hd, hv, hlt⟩
    refine ⟨trim s, [], Or.inl ⟨rfl, rfl⟩, by simpa using hd, by simpa using hne, by simp, ?_, hlt⟩
    simpa using hv

/-- With a point after the digits `I`, `AmountOf` is about `I` and the fraction `F`. -/
theorem amountOf_of_point {dp : ℕ} {s I F : List Char} {v : ℕ} (ht : trim s = I ++ '.' :: F)
    (hI : '.' ∉ I) :
    AmountOf dp s v ↔ (∀ c ∈ I ++ F, c.isDigit = true) ∧ I ++ F ≠ [] ∧
      (F.rdropWhile (· == '0')).length ≤ dp ∧
      v = Nat.ofDigitChars 10 (I ++ F) 0 * 10 ^ dp / 10 ^ F.length ∧ v < 2 ^ 64 := by
  constructor
  · rintro ⟨I₂, F₂, ⟨hI₂, rfl⟩ | hI₂, hd, hrest⟩
    · -- all digits: the point cannot be there
      rw [List.append_nil] at hd
      exact absurd (hI₂ ▸ ht ▸ List.mem_append_right I List.mem_cons_self)
        (point_not_mem_of_isDigit hd)
    · -- the first point is the same, so are the parts on either side of it
      have hI₂' : '.' ∉ I₂ := point_not_mem_of_isDigit fun c hc => hd c (List.mem_append_left F₂ hc)
      have hlen : I₂.length = I.length := by
        rw [← idxOf_point_append (F := F₂) hI₂', ← hI₂, ht, idxOf_point_append hI]
      obtain ⟨rfl, hF⟩ := List.append_inj (hI₂.symm.trans ht) hlen
      obtain ⟨-, rfl⟩ := List.cons.inj hF
      exact ⟨hd, hrest⟩
  · rintro ⟨hd, hne, hF, hv, hlt⟩
    exact ⟨I, F, Or.inr ht, hd, hne, hF, hv, hlt⟩

/-- **What `parse_amount` accepts**, with a positive decimal point: exactly the strings of an
amount, and it returns that amount. -/
theorem parse_amount_eq_some_iff {dp : UInt32} (hdp : 0 < dp.toNat) (s : List Char) (r : UInt64) :
    parse_amount dp s = some r ↔ AmountOf dp.toNat s r.toNat := by
  by_cases hp : '.' ∈ trim s
  · obtain ⟨I, F, ht, hI⟩ := exists_point_split (trim s) hp
    rw [parse_amount_of_point ht hI, amountOf_of_point ht hI]
    obtain ⟨j, hj, hn, hmin, hle⟩ := strip_fraction_zeros_spec dp F.reverse
    rw [List.length_reverse] at hj hn hmin hle
    set p := strip_fraction_zeros dp F.reverse F.length with hpdef
    -- the fraction is the stripped one followed by the `j` zeros dropped
    have hF : F = p.1.reverse ++ List.replicate j '0' := by
      rw [← List.reverse_reverse F, hj, List.reverse_append, List.reverse_replicate]
    have hlenF : F.length = p.2 + j := by
      rw [hF, List.length_append, List.length_reverse, List.length_replicate, hn]
    have hrdrop : (F.rdropWhile (· == '0')).length ≤ dp.toNat ↔ p.2 ≤ dp.toNat := by
      rw [List.rdropWhile, List.length_reverse, hle]
    split_ifs with h1 h2
    · simp only [false_iff, not_and]
      exact fun _ _ h => absurd (hrdrop.1 h) (by omega)
    · -- nothing left but the point: there were no digits at all
      have hFnil : F = [] := by
        rw [List.append_eq_nil_iff, List.reverse_eq_nil_iff] at h2
        have := hmin
        rw [h2.2, List.length_nil] at this
        exact List.length_eq_zero_iff.1 (by omega)
      rw [List.append_eq_nil_iff] at h2
      simp only [false_iff, not_and]
      exact fun _ hne => absurd (by rw [h2.1, hFnil]; rfl) hne
    · -- the value: `I ++ F` is `I` and the stripped fraction, shifted by the zeros dropped
      have hval : Nat.ofDigitChars 10 (I ++ F) 0 * 10 ^ dp.toNat / 10 ^ F.length =
          Nat.ofDigitChars 10 (I ++ p.1.reverse ++ List.replicate (dp.toNat - p.2) '0') 0 := by
        rw [hlenF, hF, ← List.append_assoc]
        exact Decimal.ofDigitChars_append_replicate_mul_div _ j (by omega)
      have hdigits : (∀ c ∈ I ++ p.1.reverse ++ List.replicate (dp.toNat - p.2) '0',
          c.isDigit = true) ↔ ∀ c ∈ I ++ F, c.isDigit = true := by
        rw [forall_isDigit_append_replicate, hF, ← List.append_assoc, forall_isDigit_append_replicate]
      rw [get_xtype_from_string_eq_some_iff, hval, hdigits, hrdrop]
      have hne : I ++ F ≠ [] := by
        rw [hF, ← List.append_assoc]
        exact fun h => h2 (List.append_eq_nil_iff.1 h).1
      constructor
      · rintro ⟨-, hd, hlt, hr⟩
        exact ⟨hd, hne, by omega, hr, hr ▸ hlt⟩
      · rintro ⟨hd, -, -, hr, hlt⟩
        exact ⟨fun h => h2 (List.append_eq_nil_iff.1 h).1, hd, hr ▸ hlt, hr⟩
  · rw [parse_amount_of_point_not_mem hdp hp, amountOf_of_point_not_mem hp]
    split_ifs with ht
    · simp only [false_iff, not_and]
      exact fun h => absurd ht h
    · rw [get_xtype_from_string_eq_some_iff, forall_isDigit_append_replicate,
        Decimal.ofDigitChars_append_replicate]
      constructor
      · rintro ⟨-, hd, hlt, hr⟩
        exact ⟨ht, hd, hr, hr ▸ hlt⟩
      · rintro ⟨-, hd, hr, hlt⟩
        exact ⟨fun h => ht (List.append_eq_nil_iff.1 h).1, hd, hr ▸ hlt, hr⟩

/-! ## What the printer writes -/

/-- A digit is not whitespace. -/
theorem isspace_eq_false_of_isDigit {c : Char} (h : c.isDigit = true) : isspace c = false := by
  have hc := Char.isDigit_iff_toNat.1 h
  simp only [Char.reduceToNat] at hc
  unfold isspace
  simp only [Bool.or_eq_false_iff, beq_eq_false_iff_ne, ne_eq]
  refine ⟨⟨⟨⟨⟨?_, ?_⟩, ?_⟩, ?_⟩, ?_⟩, ?_⟩ <;> rintro rfl <;> simp at hc

/-- A string with no whitespace is its own trim. -/
theorem trim_eq_self {s : List Char} (h : ∀ c ∈ s, isspace c = false) : trim s = s := by
  have hr : s.rdropWhile isspace = s := List.rdropWhile_eq_self_iff.2 fun hl => by
    rw [h _ (List.getLast_mem hl)]
    exact Bool.false_ne_true
  rw [trim, hr]
  exact List.dropWhile_eq_self_iff.2 fun hl => by
    rw [h _ (List.getElem_mem hl)]
    exact Bool.false_ne_true

/-- The digits `print_money` puts the point in: the amount's, padded with zeros to one more than
the decimal point. -/
theorem insert_money_decimal_point_eq {dp : UInt32} (hdp : dp.toNat ≤ 8) (s : List Char) :
    ∃ P : List Char, P = List.replicate (dp.toNat + 1 - s.length) '0' ++ s ∧
      dp.toNat + 1 ≤ P.length ∧
      insert_money_decimal_point dp s dp = if dp > 0 then
        P.take (P.length - dp.toNat) ++ '.' :: P.drop (P.length - dp.toNat) else P := by
  have hne : dp ≠ 0xFFFFFFFF := fun h => by rw [h] at hdp; simp at hdp
  have hsucc : (dp + 1).toNat = dp.toNat + 1 := by
    rw [UInt32.toNat_add, UInt32.toNat_one, Nat.mod_eq_of_lt (by omega)]
  -- a string already long enough is padded with no zeros
  have hpad : (if s.length < dp.toNat + 1 then
      List.replicate (dp.toNat + 1 - s.length) '0' ++ s else s) =
      List.replicate (dp.toNat + 1 - s.length) '0' ++ s := by
    split_ifs with hlt
    · rfl
    · rw [show dp.toNat + 1 - s.length = 0 by omega, List.replicate_zero, List.nil_append]
  refine ⟨_, rfl, by simp only [List.length_append, List.length_replicate]; omega, ?_⟩
  simp only [insert_money_decimal_point, hne, if_false, hsucc, hpad]

/-- **What `print_money` writes is the amount's string**, for a positive decimal point of at most
`8` digits. -/
theorem amountOf_print_money {dp : UInt32} (hdp : 0 < dp.toNat) (hdp8 : dp.toNat ≤ 8) (a : UInt64) :
    AmountOf dp.toNat (print_money dp a dp) a.toNat := by
  obtain ⟨P, hP, hlen, heq⟩ := insert_money_decimal_point_eq hdp8 (Nat.toDigits 10 a.toNat)
  have hpos : dp > 0 := UInt32.lt_iff_toNat_lt.2 hdp
  rw [if_pos hpos] at heq
  have hdigits : ∀ c ∈ P, c.isDigit = true := by
    rw [hP]
    intro c hc
    rcases List.mem_append.1 hc with hc | hc
    · rw [(List.mem_replicate.1 hc).2]
      rfl
    · exact Decimal.isDigit_of_mem_toDigits hc
  have hF : (P.drop (P.length - dp.toNat)).length = dp.toNat := by
    rw [List.length_drop]
    omega
  refine ⟨P.take (P.length - dp.toNat), P.drop (P.length - dp.toNat), Or.inr ?_, ?_, ?_, ?_, ?_, ?_⟩
  · -- the printed string has digits and a point, and no whitespace to trim
    rw [print_money, heq]
    apply trim_eq_self
    intro c hc
    rcases List.mem_append.1 hc with hc | hc
    · exact isspace_eq_false_of_isDigit (hdigits c (List.mem_of_mem_take hc))
    · rcases List.mem_cons.1 hc with rfl | hc
      · rfl
      · exact isspace_eq_false_of_isDigit (hdigits c (List.mem_of_mem_drop hc))
  · rw [List.take_append_drop]
    exact hdigits
  · rw [List.take_append_drop]
    exact List.ne_nil_of_length_pos (by omega)
  · have hle := List.length_dropWhile_le (· == '0') (P.drop (P.length - dp.toNat)).reverse
    rw [List.length_reverse, hF] at hle
    rw [List.rdropWhile, List.length_reverse]
    exact hle
  · rw [List.take_append_drop, hF, Nat.mul_div_cancel _ (Nat.pow_pos (by norm_num)), hP,
      Decimal.ofDigitChars_replicate_append, Nat.ofDigitChars_ten_toDigits]
  · exact UInt64.toNat_lt a

/-- `set_default_decimal_point` takes `8`, `5` and `2`, and sets the default to it. -/
theorem set_default_decimal_point_eq_ok {dp d : UInt32} (h : set_default_decimal_point dp = .ok d) :
    d = dp ∧ (dp = 8 ∨ dp = 5 ∨ dp = 2) := by
  unfold set_default_decimal_point at h
  split_ifs at h with hdp
  · exact ⟨(Except.ok.inj h).symm, hdp⟩

/-- **Amount strings.** With a decimal point set as the default, `parse_amount` reads back every
amount `print_money` writes, and it accepts exactly the strings of an amount, returning it. -/
theorem parse_amount_print_money {dp default_decimal_point : UInt32}
    (hset : set_default_decimal_point dp = .ok default_decimal_point) :
    (∀ a : UInt64,
      parse_amount default_decimal_point (print_money default_decimal_point a dp) = some a) ∧
    ∀ (s : List Char) (r : UInt64),
      parse_amount default_decimal_point s = some r ↔ AmountOf default_decimal_point.toNat s r.toNat := by
  obtain ⟨rfl, hdp⟩ := set_default_decimal_point_eq_ok hset
  have hbounds : 0 < default_decimal_point.toNat ∧ default_decimal_point.toNat ≤ 8 := by
    rcases hdp with rfl | rfl | rfl <;> decide
  refine ⟨fun a => ?_, parse_amount_eq_some_iff hbounds.1⟩
  rw [parse_amount_eq_some_iff hbounds.1]
  exact amountOf_print_money hbounds.1 hbounds.2 a

/-- The default of the source, `CRYPTONOTE_DISPLAY_DECIMAL_POINT`, set again. -/
theorem parse_amount_print_money_sal :
    (∀ a : UInt64, parse_amount 8 (print_money 8 a 8) = some a) ∧
      ∀ (s : List Char) (r : UInt64), parse_amount 8 s = some r ↔ AmountOf 8 s r.toNat :=
  @parse_amount_print_money CRYPTONOTE_DISPLAY_DECIMAL_POINT 8 (by decide)

end Money

end Salvium
