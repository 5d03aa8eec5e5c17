import Salvium.Basic
import Salvium.Lib.Limbs

/-!
# Salvium — the proof-of-work hash check (`cryptonote_basic/difficulty.cpp`)

A block's PoW hash `h`, read as a little-endian 256-bit integer `H`, meets difficulty `d`
when `H * d` does not overflow 256 bits. `difficulty.cpp` decides this three ways:

* `check_hash_64` for `d < 2^64`: one 64×64→128 `mul` per hash word, the top word first (it
  decides most random hashes), then a carry chain written with `cadd` / `cadc` that only
  keeps the carry out of the fourth word;
* `check_hash_128`: the exact `uint512` comparison `H * d ≤ 2^256 - 1`;
* `check_hash`, the dispatcher used by the chain.

`mul` is `mul128` of `int-util.h` on x86-64 and the portable 32-bit-halves routine of
`difficulty.cpp` elsewhere; `check_hash_64With` takes the multiply as a parameter so both builds
are the same definition. The headline results:

* `mul_exact` / `mul128_exact` — both multiplies return the low and high words of the exact
  product (`IsExactMul`);
* `check_hash_64With_eq` — with any exact multiply, `check_hash_64` is `H * d < 2^256`. The
  carry chain is `Limbs.mulTopCarry` over the four words;
* `check_hash_128_eq`, `check_hash_eq` — the wide path and the dispatcher are
  `H * d ≤ 2^256 - 1`.
-/

namespace Salvium

/-! ## Reading a hash as words and as a number -/

/-- `swap64le(((const uint64_t *) &hash)[i])`: the `i`-th 64-bit word of the hash, little-endian. -/
def Crypto.Hash.word (h : Crypto.Hash) (i : Nat) : UInt64 :=
  UInt64.ofNat (Nat.ofDigits 256 (((h.data.toList.drop (8 * i)).take 8).map UInt8.toNat))

/-- The hash as the little-endian 256-bit integer the difficulty check compares. -/
def Crypto.Hash.value (h : Crypto.Hash) : Nat :=
  Nat.ofDigits 256 (h.data.toList.map UInt8.toNat)

/-- Eight bytes read little-endian fit in a word, so `word` loses nothing. -/
theorem Crypto.Hash.word_toNat (h : Crypto.Hash) (i : Nat) :
    (h.word i).toNat
      = Nat.ofDigits 256 (((h.data.toList.map UInt8.toNat).drop (8 * i)).take 8) := by
  have hlt : Nat.ofDigits 256 (((h.data.toList.map UInt8.toNat).drop (8 * i)).take 8)
      < 2 ^ 64 := by
    calc _ < 256 ^ (((h.data.toList.map UInt8.toNat).drop (8 * i)).take 8).length :=
          Nat.ofDigits_lt_base_pow_length (by norm_num) (by
            intro x hx
            obtain ⟨b, -, rfl⟩ := List.mem_map.mp (List.mem_of_mem_drop (List.mem_of_mem_take hx))
            exact b.toNat_lt)
      _ ≤ 256 ^ 8 := Nat.pow_le_pow_right (by norm_num) (List.length_take_le _ _)
      _ = 2 ^ 64 := by norm_num
  rw [Crypto.Hash.word, UInt64.toNat_ofNat', List.map_take, List.map_drop, Nat.mod_eq_of_lt hlt]

/-- **The hash is its four words in base `2^64`.** The 32 bytes split into four runs of eight;
each run is one word (`word_toNat`) and carries weight `256 ^ 8 = 2 ^ 64`. -/
theorem Crypto.Hash.value_eq_words (h : Crypto.Hash) :
    h.value = Nat.ofDigits (2 ^ 64)
      [(h.word 0).toNat, (h.word 1).toNat, (h.word 2).toNat, (h.word 3).toNat] := by
  set L := h.data.toList.map UInt8.toNat with hL
  have hlen : L.length = 32 := by simp [hL]
  simp only [Crypto.Hash.value, Crypto.Hash.word_toNat, ← hL, Nat.ofDigits_cons,
    Nat.ofDigits_nil]
  -- peel off one eight-byte word at a time
  rw [Limbs.ofDigits_take_drop 256 8 L (by omega),
    Limbs.ofDigits_take_drop 256 8 (L.drop 8) (by simp [hlen]),
    Limbs.ofDigits_take_drop 256 8 ((L.drop 8).drop 8) (by simp [hlen])]
  -- the last run is all that is left of the 32 bytes
  have hrest : (L.drop 24).take 8 = L.drop 24 := List.take_of_length_le (by simp [hlen])
  simp only [List.drop_drop]
  norm_num [hrest]

/-! ## The two 64×64→128 multiplies -/

/-- A multiply returning `(low, high)` is exact when these are the two words of the true
product. -/
def IsExactMul (mulFn : UInt64 → UInt64 → UInt64 × UInt64) : Prop :=
  ∀ a b : UInt64, (mulFn a b).1.toNat = a.toNat * b.toNat % 2 ^ 64
    ∧ (mulFn a b).2.toNat = a.toNat * b.toNat / 2 ^ 64

/-- The portable `mul` of `difficulty.cpp` (the build off x86-64): four 32×32 products of
the operands' halves, recombined with explicit 32-bit carries. Returns `(low, high)`. -/
def mul (a b : UInt64) : UInt64 × UInt64 :=
  let aLow := a &&& 0xFFFFFFFF
  let aHigh := a >>> 32
  let bLow := b &&& 0xFFFFFFFF
  let bHigh := b >>> 32
  let res := aLow * bLow
  let lowRes1 := res &&& 0xFFFFFFFF
  let carry := res >>> 32
  let res := aHigh * bLow + carry
  let highResHigh1 := res >>> 32
  let highResLow1 := res &&& 0xFFFFFFFF
  let res := aLow * bHigh
  let lowRes2 := res &&& 0xFFFFFFFF
  let carry := res >>> 32
  let res := aHigh * bHigh + carry
  let highResHigh2 := res >>> 32
  let highResLow2 := res &&& 0xFFFFFFFF
  -- addition
  let r := highResLow1 + lowRes2
  let carry := r >>> 32
  let low := (r <<< 32) ||| lowRes1
  let r := highResHigh1 + highResLow2 + carry
  let d3 := r &&& 0xFFFFFFFF
  let carry := r >>> 32
  let r := highResHigh2 + carry
  let high := d3 ||| (r <<< 32)
  (low, high)

/-- `mul128` of `int-util.h`, the `mul` of the x86-64 build: the cross terms are summed in one
word whose own carry is added back at bit 32 of the high word. Returns `(low, high)`. -/
def mul128 (multiplier multiplicand : UInt64) : UInt64 × UInt64 :=
  let a := multiplier >>> 32
  let b := multiplier &&& 0xFFFFFFFF
  let c := multiplicand >>> 32
  let d := multiplicand &&& 0xFFFFFFFF
  let ac := a * c
  let ad := a * d
  let bc := b * c
  let bd := b * d
  let adbc := ad + bc
  let adbc_carry : UInt64 := if adbc < ad then 1 else 0
  let product_lo := bd + (adbc <<< 32)
  let product_lo_carry : UInt64 := if product_lo < bd then 1 else 0
  let product_hi := ac + (adbc >>> 32) + (adbc_carry <<< 32) + product_lo_carry
  (product_lo, product_hi)

/-! ### Word-level facts the two multiplies are built from -/

theorem toNat_and_mask32 (x : UInt64) : (x &&& 0xFFFFFFFF).toNat = x.toNat % 2 ^ 32 := by
  rw [UInt64.toNat_and, show (0xFFFFFFFF : UInt64).toNat = 2 ^ 32 - 1 from rfl,
    Nat.and_two_pow_sub_one_eq_mod]

theorem toNat_shiftRight32 (x : UInt64) : (x >>> 32).toNat = x.toNat / 2 ^ 32 := by
  rw [UInt64.toNat_shiftRight, show (32 : UInt64).toNat % 64 = 32 from rfl,
    Nat.shiftRight_eq_div_pow]

theorem toNat_shiftLeft32 (x : UInt64) : (x <<< 32).toNat = x.toNat % 2 ^ 32 * 2 ^ 32 := by
  rw [UInt64.toNat_shiftLeft, show (32 : UInt64).toNat % 64 = 32 from rfl, Nat.shiftLeft_eq]
  omega

/-- Or-ing a multiple of `2^32` with a value reduced below `2^32` is addition. -/
theorem mul_two_pow32_or_mod (x z : Nat) :
    x * 2 ^ 32 ||| z % 2 ^ 32 = x * 2 ^ 32 + z % 2 ^ 32 := by
  rw [Nat.mul_comm, Nat.two_pow_add_eq_or_of_lt (Nat.mod_lt _ (by norm_num))]

/-- A product of two 32-bit halves is at most `(2^32 - 1)^2`, leaving room for one more
32-bit summand in a word. -/
theorem half_mul_half_le {x y : Nat} (hx : x < 2 ^ 32) (hy : y < 2 ^ 32) :
    x * y ≤ (2 ^ 32 - 1) * (2 ^ 32 - 1) :=
  Nat.mul_le_mul (by omega) (by omega)

/-- The four half products of two words all leave room for a 32-bit summand. -/
theorem half_products_le (A B : Nat) (hA : A < 2 ^ 64) (hB : B < 2 ^ 64) :
    A % 2 ^ 32 * (B % 2 ^ 32) ≤ (2 ^ 32 - 1) * (2 ^ 32 - 1)
      ∧ A / 2 ^ 32 * (B % 2 ^ 32) ≤ (2 ^ 32 - 1) * (2 ^ 32 - 1)
      ∧ A % 2 ^ 32 * (B / 2 ^ 32) ≤ (2 ^ 32 - 1) * (2 ^ 32 - 1)
      ∧ A / 2 ^ 32 * (B / 2 ^ 32) ≤ (2 ^ 32 - 1) * (2 ^ 32 - 1) := by
  have hA0 : A % 2 ^ 32 < 2 ^ 32 := Nat.mod_lt _ (by norm_num)
  have hB0 : B % 2 ^ 32 < 2 ^ 32 := Nat.mod_lt _ (by norm_num)
  have hA1 : A / 2 ^ 32 < 2 ^ 32 := by omega
  have hB1 : B / 2 ^ 32 < 2 ^ 32 := by omega
  exact ⟨half_mul_half_le hA0 hB0, half_mul_half_le hA1 hB0, half_mul_half_le hA0 hB1,
    half_mul_half_le hA1 hB1⟩

/-- The exact product in terms of the four half products. -/
theorem mul_halves (A B : Nat) :
    A * B = A / 2 ^ 32 * (B / 2 ^ 32) * 2 ^ 64
      + (A / 2 ^ 32 * (B % 2 ^ 32) + A % 2 ^ 32 * (B / 2 ^ 32)) * 2 ^ 32
      + A % 2 ^ 32 * (B % 2 ^ 32) := by
  conv_lhs => rw [← Nat.div_add_mod A (2 ^ 32), ← Nat.div_add_mod B (2 ^ 32)]
  ring

/-- **The portable `mul` is exact.** Each word operation is read as `Nat` arithmetic modulo
`2^64`; the four half products are then opaque numbers, bounded by `half_products_le` and tied to
the true product by `mul_halves`, and the recombination is linear arithmetic over them. -/
theorem mul_exact : IsExactMul mul := by
  intro a b
  have ha := a.toNat_lt
  have hb := b.toNat_lt
  simp only [mul, UInt64.toNat_mul, UInt64.toNat_add, toNat_and_mask32, toNat_shiftRight32,
    toNat_shiftLeft32, UInt64.toNat_or]
  -- both `|||`s join a shifted high half to a low half below `2^32`
  rw [mul_two_pow32_or_mod, Nat.lor_comm, mul_two_pow32_or_mod]
  have hprod := mul_halves a.toNat b.toNat
  obtain ⟨h00, h10, h01, h11⟩ := half_products_le a.toNat b.toNat ha hb
  generalize a.toNat * b.toNat = P at *
  generalize a.toNat % 2 ^ 32 * (b.toNat % 2 ^ 32) = p00 at *
  generalize a.toNat / 2 ^ 32 * (b.toNat % 2 ^ 32) = p10 at *
  generalize a.toNat % 2 ^ 32 * (b.toNat / 2 ^ 32) = p01 at *
  generalize a.toNat / 2 ^ 32 * (b.toNat / 2 ^ 32) = p11 at *
  constructor <;> omega

/-- **`mul128` is exact.** The same reading as `mul_exact`; the two comparisons that recover
the lost carries (`adbc < ad`, `product_lo < bd`) are split on. -/
theorem mul128_exact : IsExactMul mul128 := by
  intro a b
  have ha := a.toNat_lt
  have hb := b.toNat_lt
  simp only [mul128, UInt64.toNat_mul, UInt64.toNat_add, toNat_and_mask32, toNat_shiftRight32,
    toNat_shiftLeft32, UInt64.lt_iff_toNat_lt]
  have hprod := mul_halves a.toNat b.toNat
  obtain ⟨h00, h10, h01, h11⟩ := half_products_le a.toNat b.toNat ha hb
  generalize a.toNat * b.toNat = P at *
  generalize a.toNat % 2 ^ 32 * (b.toNat % 2 ^ 32) = p00 at *
  generalize a.toNat / 2 ^ 32 * (b.toNat % 2 ^ 32) = p10 at *
  generalize a.toNat % 2 ^ 32 * (b.toNat / 2 ^ 32) = p01 at *
  generalize a.toNat / 2 ^ 32 * (b.toNat / 2 ^ 32) = p11 at *
  split_ifs <;> simp <;> omega

/-! ## `check_hash_64`: the carry chain -/

/-- `cadd(a, b)`: the carry out of the word addition `a + b`. -/
def cadd (a b : UInt64) : Bool := a + b < a

/-- `cadc(a, b, c)`: the carry out of `a + b + c`. The sum `a + b` either wraps by itself or is
all ones and overflows on the incoming carry. -/
def cadc (a b : UInt64) (c : Bool) : Bool := a + b < a || (c && a + b == (-1 : UInt64))

/-- `cadd` is the quotient of the true sum by `2^64`. -/
theorem cadd_toNat (a b : UInt64) : (cadd a b).toNat = (a.toNat + b.toNat) / 2 ^ 64 := by
  have ha := a.toNat_lt
  have hb := b.toNat_lt
  by_cases h : 2 ^ 64 ≤ a.toNat + b.toNat
  · have hc : cadd a b = true := by
      simp only [cadd, UInt64.lt_iff_toNat_lt, UInt64.toNat_add, decide_eq_true_iff]
      omega
    rw [hc]
    simp
    omega
  · have hc : cadd a b = false := by
      simp only [cadd, UInt64.lt_iff_toNat_lt, UInt64.toNat_add, decide_eq_false_iff_not]
      omega
    rw [hc]
    simp
    omega

/-- `cadc` is the quotient of the true three-way sum by `2^64`, the equality case included: an
all-ones `a + b` with an incoming carry is exactly `2^64`. -/
theorem cadc_toNat (a b : UInt64) (c : Bool) :
    (cadc a b c).toNat = (a.toNat + b.toNat + c.toNat) / 2 ^ 64 := by
  have ha := a.toNat_lt
  have hb := b.toNat_lt
  have hc1 := Bool.toNat_le c
  have hallOnes : (a + b == (-1 : UInt64))
      = decide ((a.toNat + b.toNat) % 2 ^ 64 = 2 ^ 64 - 1) := by
    rw [Bool.eq_iff_iff, beq_iff_eq, decide_eq_true_iff, ← UInt64.toNat_inj, UInt64.toNat_add]
    rfl
  by_cases h : 2 ^ 64 ≤ a.toNat + b.toNat + c.toNat
  · have hc : cadc a b c = true := by
      cases c <;> simp [cadc, UInt64.lt_iff_toNat_lt, hallOnes] at h ⊢ <;> omega
    rw [hc]
    simp
    omega
  · have hc : cadc a b c = false := by
      cases c <;> simp [cadc, UInt64.lt_iff_toNat_lt, hallOnes] at h ⊢ <;> omega
    rw [hc]
    simp
    omega

/-- `check_hash_64` over a given 64×64→128 multiply (`mul128` on x86-64, the portable `mul`
elsewhere). The top word goes first and rejects when its product has a high half; otherwise
the carry is propagated through the three lower digits and only the carry out of the top
digit is kept. -/
def check_hash_64With (mulFn : UInt64 → UInt64 → UInt64 × UInt64) (hash : Crypto.Hash)
    (difficulty : UInt64) : Bool :=
  -- first check the highest word: this will most likely fail for a random hash
  let top := (mulFn (hash.word 3) difficulty).1
  let high := (mulFn (hash.word 3) difficulty).2
  if high != 0 then false
  else
    let cur := (mulFn (hash.word 0) difficulty).2
    let low := (mulFn (hash.word 1) difficulty).1
    let high := (mulFn (hash.word 1) difficulty).2
    let carry := cadd cur low
    let cur := high
    let low := (mulFn (hash.word 2) difficulty).1
    let high := (mulFn (hash.word 2) difficulty).2
    let carry := cadc cur low carry
    let carry := cadc high top carry
    !carry

/-- `check_hash_64` as built off x86-64, with the portable `mul`. -/
def check_hash_64 (hash : Crypto.Hash) (difficulty : UInt64) : Bool :=
  check_hash_64With mul hash difficulty

/-- **`check_hash_64` is the exact comparison.** With any exact multiply, the result is
`H * d < 2^256`. The code's digits are those of `Limbs.mulTopCarry` over the four words (the
lowest digit never carries), so the code accepts exactly when the chain's top is zero. -/
theorem check_hash_64With_eq {mulFn : UInt64 → UInt64 → UInt64 × UInt64}
    (hmul : IsExactMul mulFn) (hash : Crypto.Hash) (difficulty : UInt64) :
    check_hash_64With mulFn hash difficulty
      = decide (hash.value * difficulty.toNat < 2 ^ 256) := by
  have hfits := Limbs.mulTopCarry_eq_zero_iff (2 ^ 64) difficulty.toNat (by norm_num)
    [(hash.word 0).toNat, (hash.word 1).toNat, (hash.word 2).toNat, (hash.word 3).toNat]
  rw [← Crypto.Hash.value_eq_words] at hfits
  rw [Bool.eq_iff_iff, decide_eq_true_iff, show (2 : Nat) ^ 256 = (2 ^ 64) ^ [(hash.word 0).toNat,
    (hash.word 1).toNat, (hash.word 2).toNat, (hash.word 3).toNat].length by norm_num, ← hfits]
  have hnot : ∀ b : Bool, ((!b) = true ↔ b.toNat = 0) := by decide
  simp only [check_hash_64With, Limbs.mulTopCarry, bne_iff_ne, ne_eq]
  -- read every carry and every half product as a number
  split_ifs with hhigh <;> simp only [hnot, cadc_toNat, cadd_toNat, ← UInt64.toNat_inj,
    (hmul _ _).1, (hmul _ _).2, UInt64.toNat_zero] at hhigh ⊢
  · -- no high half in the top word: the code's carry out of the top digit is the chain's top
    clear hfits
    omega
  · -- the top word's product has a high half: the chain's top is not zero
    clear hfits
    simp only [false_iff]
    omega

/-! ## `check_hash_128` and the dispatcher -/

/-- `difficulty_type`: boost's `uint128_t`. -/
abbrev difficulty_type := BitVec 128

/-- `check_hash_128` as built (`FORCE_FULL_128_BITS`): the hash is rebuilt in a `uint512` from
its four words, highest first, and the `uint512` product compared with `max256bit`. -/
def check_hash_128 (hash : Crypto.Hash) (difficulty : difficulty_type) : Bool :=
  let hashVal := (List.range 4).foldl
    (fun acc i => (acc <<< 64) % 2 ^ 512 ||| (hash.word (3 - i)).toNat) 0
  decide (hashVal * difficulty.toNat % 2 ^ 512 ≤ 2 ^ 256 - 1)

/-- `max64bit`: the largest difficulty the 64-bit path takes. -/
def max64bit : difficulty_type := BitVec.ofNat 128 (2 ^ 64 - 1)

/-- `check_hash`: difficulties that fit a word go to `check_hash_64`, the rest to
`check_hash_128`. -/
def check_hash (hash : Crypto.Hash) (difficulty : difficulty_type) : Bool :=
  if difficulty ≤ max64bit then check_hash_64 hash (UInt64.ofNat difficulty.toNat)
  else check_hash_128 hash difficulty

/-- One step of the `uint512` rebuild: shifting a value below `2^448` by a word and or-ing the
next word in is base-`2^64` accumulation. -/
theorem shiftLeft64_or (acc w : Nat) (hacc : acc < 2 ^ 448) (hw : w < 2 ^ 64) :
    (acc <<< 64) % 2 ^ 512 ||| w = w + 2 ^ 64 * acc := by
  rw [Nat.shiftLeft_eq, Nat.mod_eq_of_lt (by omega), Nat.mul_comm,
    ← Nat.two_pow_add_eq_or_of_lt hw]
  omega

/-- The `uint512` rebuilt by `check_hash_128` is the hash's value. -/
theorem check_hash_128_hashVal (hash : Crypto.Hash) :
    (List.range 4).foldl (fun acc i => (acc <<< 64) % 2 ^ 512 ||| (hash.word (3 - i)).toNat) 0
      = hash.value := by
  have h0 := (hash.word 0).toNat_lt
  have h1 := (hash.word 1).toNat_lt
  have h2 := (hash.word 2).toNat_lt
  have h3 := (hash.word 3).toNat_lt
  simp only [show List.range 4 = [0, 1, 2, 3] from rfl, List.foldl_cons, List.foldl_nil,
    Crypto.Hash.value_eq_words, Nat.ofDigits_cons, Nat.ofDigits_nil, Nat.reduceSub]
  rw [shiftLeft64_or 0 _ (by norm_num) h3, shiftLeft64_or _ _ (by omega) h2,
    shiftLeft64_or _ _ (by omega) h1, shiftLeft64_or _ _ (by omega) h0]

/-- **`check_hash_128` is the exact comparison**: the rebuilt value is `H`, and `H * d` stays
below `2^384`, so the `uint512` product does not wrap. -/
theorem check_hash_128_eq (hash : Crypto.Hash) (difficulty : difficulty_type) :
    check_hash_128 hash difficulty = decide (hash.value * difficulty.toNat ≤ 2 ^ 256 - 1) := by
  have hH : hash.value < 2 ^ 256 := by
    have := Nat.ofDigits_lt_base_pow_length (b := 256) (l := hash.data.toList.map UInt8.toNat)
      (by norm_num) (fun x hx => by
        obtain ⟨b, -, rfl⟩ := List.mem_map.mp hx
        exact b.toNat_lt)
    simpa [Crypto.Hash.value] using this
  have hprod : hash.value * difficulty.toNat < 2 ^ 512 :=
    calc hash.value * difficulty.toNat < 2 ^ 256 * 2 ^ 128 :=
          Nat.mul_lt_mul'' hH difficulty.isLt
      _ ≤ 2 ^ 512 := by
          rw [← pow_add]
          exact Nat.pow_le_pow_right (by norm_num) (by norm_num)
  simp only [check_hash_128, check_hash_128_hashVal, Nat.mod_eq_of_lt hprod]

/-- **`check_hash` is the exact comparison** on both of its paths. -/
theorem check_hash_eq (hash : Crypto.Hash) (difficulty : difficulty_type) :
    check_hash hash difficulty = decide (hash.value * difficulty.toNat ≤ 2 ^ 256 - 1) := by
  unfold check_hash
  split_ifs with hsmall
  · -- a difficulty below `2^64` survives the conversion to a word
    have hd : difficulty.toNat < 2 ^ 64 := by
      rw [BitVec.le_def, max64bit, BitVec.toNat_ofNat] at hsmall
      omega
    rw [check_hash_64, check_hash_64With_eq mul_exact, UInt64.toNat_ofNat',
      Nat.mod_eq_of_lt hd, decide_eq_decide]
    omega
  · exact check_hash_128_eq hash difficulty

/-- **The 64-bit PoW check agrees with the exact one.** For every hash `h`, read as the
little-endian 256-bit integer `H = h.value`: `check_hash_64` accepts a word difficulty `d`
exactly when `H * d < 2^256`; `check_hash` accepts every `uint128` difficulty exactly when
`H * d ≤ 2^256 - 1`, which is what `check_hash_128` decides; and the portable `mul` returns the
two words of the exact product. -/
theorem check_hash_64_agrees_with_exact :
    (∀ (hash : Crypto.Hash) (difficulty : UInt64),
      check_hash_64 hash difficulty = decide (hash.value * difficulty.toNat < 2 ^ 256))
    ∧ (∀ (hash : Crypto.Hash) (difficulty : difficulty_type),
      check_hash hash difficulty = decide (hash.value * difficulty.toNat ≤ 2 ^ 256 - 1)
        ∧ check_hash hash difficulty = check_hash_128 hash difficulty)
    ∧ (∀ a b : UInt64, (mul a b).1.toNat = a.toNat * b.toNat % 2 ^ 64
        ∧ (mul a b).2.toNat = a.toNat * b.toNat / 2 ^ 64) := by
  refine ⟨fun hash difficulty => check_hash_64With_eq mul_exact hash difficulty,
    fun hash difficulty => ⟨check_hash_eq hash difficulty, ?_⟩, mul_exact⟩
  rw [check_hash_eq, check_hash_128_eq]

end Salvium
