import Mathlib.Data.Nat.Digits.Lemmas

/-!
# Radix — fixed-width digit expansions

A number below `b ^ w` has exactly one expansion as `w` digits in base `b`. `digitsLE b w n`
is that expansion, least significant digit first, with the digits above the width dropped;
the value of a digit list is `Nat.ofDigits`. The two round-trip laws are
`ofDigits_digitsLE` (as `n % b ^ w`, hence exact below `b ^ w`) and `digitsLE_ofDigits` (a
list of digits below `b` is the expansion of its value at its own length).

Block codecs such as base58 use two bases at once: the bytes of a block are its base-256
digits and its characters its base-58 digits, so each direction of the codec is one law here
applied once per base.
-/

namespace Radix

/-- The `w` digits of `n` in base `b`, least significant first. -/
def digitsLE (b : ℕ) : ℕ → ℕ → List ℕ
  | 0, _ => []
  | w + 1, n => n % b :: digitsLE b w (n / b)

variable {b : ℕ}

@[simp] theorem digitsLE_zero (n : ℕ) : digitsLE b 0 n = [] := rfl

@[simp] theorem digitsLE_succ (w n : ℕ) : digitsLE b (w + 1) n = n % b :: digitsLE b w (n / b) :=
  rfl

@[simp] theorem length_digitsLE (w n : ℕ) : (digitsLE b w n).length = w := by
  induction w generalizing n with
  | zero => rfl
  | succ w ih => rw [digitsLE_succ, List.length_cons, ih]

theorem digitsLE_lt (hb : 0 < b) {w n d : ℕ} (hd : d ∈ digitsLE b w n) : d < b := by
  induction w generalizing n with
  | zero => simp at hd
  | succ w ih =>
    rw [digitsLE_succ, List.mem_cons] at hd
    rcases hd with rfl | hd
    · exact Nat.mod_lt n hb
    · exact ih hd

theorem ofDigits_digitsLE (w n : ℕ) : Nat.ofDigits b (digitsLE b w n) = n % b ^ w := by
  induction w generalizing n with
  | zero => rw [digitsLE_zero, Nat.ofDigits_nil, pow_zero, Nat.mod_one]
  | succ w ih =>
    rw [digitsLE_succ, Nat.ofDigits_cons, ih, pow_succ', Nat.mod_mul]

theorem ofDigits_digitsLE_of_lt {w n : ℕ} (h : n < b ^ w) :
    Nat.ofDigits b (digitsLE b w n) = n := by
  rw [ofDigits_digitsLE, Nat.mod_eq_of_lt h]

/-- A digit list is the expansion of its own value, at its own length. -/
theorem digitsLE_ofDigits {l : List ℕ} (hl : ∀ d ∈ l, d < b) :
    digitsLE b l.length (Nat.ofDigits b l) = l := by
  induction l with
  | nil => rfl
  | cons d l ih =>
    have hd : d < b := hl d (by simp)
    have hb : 0 < b := Nat.zero_lt_of_lt hd
    rw [List.length_cons, digitsLE_succ, Nat.ofDigits_cons]
    congr 1
    · rw [Nat.add_mul_mod_self_left, Nat.mod_eq_of_lt hd]
    · rw [Nat.add_mul_div_left _ _ hb, Nat.div_eq_of_lt hd, Nat.zero_add]
      exact ih fun x hx => hl x (by simp [hx])

/-- The expansion of zero is all zeros. -/
theorem digitsLE_zero_eq (w : ℕ) : digitsLE b w 0 = List.replicate w 0 := by
  induction w with
  | zero => rfl
  | succ w ih => rw [digitsLE_succ, Nat.zero_mod, Nat.zero_div, ih, List.replicate_succ]

end Radix
