import QubicLedger.Lib.Limbs
import Mathlib.Data.Nat.Bitwise

/-!
# Digits (`FourQ_internal.h`, `ARM/fp_arm.c`)

The word arithmetic that the curve library is built on: 32-bit digits, the
branch-free comparisons, the carry macros and the schoolbook loops. Carries and
borrows are `unsigned int` in the source, which is as wide as a digit.

Each macro is written as the source writes it; the theorem under it says what
it computes. The loops are instances of `Lib.Limbs.chain` and
`Lib.Limbs.mulRows`. A loop that writes to one of its own operands reads each
digit before it writes it, so the functions below take their operands by value.
-/

namespace QubicLedger

open Lib.Limbs (value chain mulRows)

/-- `digit_t`; `RADIX` is 32. -/
abbrev Digit := BitVec 32

/-! ## Comparisons without branches -/

/-- `is_digit_nonzero_ct`. -/
def isDigitNonzeroCt (x : Digit) : Digit := (x ||| (0 - x)) >>> 31

/-- `is_digit_zero_ct`. -/
def isDigitZeroCt (x : Digit) : Digit := 1 ^^^ isDigitNonzeroCt x

/-- `is_digit_lessthan_ct`. -/
def isDigitLessthanCt (x y : Digit) : Digit := (x ^^^ ((x ^^^ y) ||| ((x - y) ^^^ y))) >>> 31

/-- The top bit, shifted down. -/
theorem shiftRight_31 (x : Digit) : x >>> 31 = if x.msb then 1 else 0 := by
  refine BitVec.eq_of_toNat_eq ?_
  have hx := x.isLt
  rw [BitVec.toNat_ushiftRight, Nat.shiftRight_eq_div_pow, BitVec.msb_eq_decide]
  by_cases h : 2 ^ (32 - 1) ≤ x.toNat
  · rw [decide_eq_true h, if_pos rfl]
    show x.toNat / 2 ^ 31 = 1
    omega
  · rw [decide_eq_false h, if_neg Bool.false_ne_true]
    show x.toNat / 2 ^ 31 = 0
    omega

theorem isDigitNonzeroCt_eq (x : Digit) : isDigitNonzeroCt x = if x = 0 then 0 else 1 := by
  unfold isDigitNonzeroCt
  rw [shiftRight_31]
  by_cases h : x = 0
  · subst h
    rfl
  · have hne : x.toNat ≠ 0 := fun h0 => h (BitVec.eq_of_toNat_eq h0)
    have hx := x.isLt
    have hmsb : (x ||| (0 - x)).msb = true := by
      rw [BitVec.msb_or, Bool.or_eq_true, BitVec.msb_eq_true_iff_two_mul_ge,
        BitVec.msb_eq_true_iff_two_mul_ge, BitVec.toNat_sub]
      simp only [BitVec.ofNat_eq_ofNat, BitVec.toNat_ofNat, Nat.zero_mod]
      omega
    rw [if_pos hmsb, if_neg h]

theorem isDigitZeroCt_eq (x : Digit) : isDigitZeroCt x = if x = 0 then 1 else 0 := by
  rw [isDigitZeroCt, isDigitNonzeroCt_eq]
  by_cases h : x = 0
  · rw [if_pos h, if_pos h]
    rfl
  · rw [if_neg h, if_neg h]
    rfl

theorem isDigitLessthanCt_eq (x y : Digit) :
    isDigitLessthanCt x y = if x < y then 1 else 0 := by
  unfold isDigitLessthanCt
  rw [shiftRight_31]
  refine if_congr ?_ rfl rfl
  have hx := x.isLt
  have hy := y.isLt
  have hsub := BitVec.toNat_sub x y
  rw [BitVec.msb_xor, BitVec.msb_or, BitVec.msb_xor, BitVec.msb_xor, BitVec.lt_def]
  -- the sign of `x - y` decides between digits of one sign, the sign of `y` otherwise
  cases hmx : x.msb <;> cases hmy : y.msb <;> cases hms : (x - y).msb <;>
    simp only [BitVec.msb_eq_false_iff_two_mul_lt, BitVec.msb_eq_true_iff_two_mul_ge]
      at hmx hmy hms <;>
    simp only [Bool.xor_false, Bool.xor_true, Bool.or_false, Bool.or_true, Bool.not_false,
      Bool.not_true, Bool.false_eq_true, false_iff, true_iff] <;>
    omega

/-! ## Carries -/

/-- `ADDC`: carry out and sum. -/
def addc (carryIn addend1 addend2 : Digit) : Digit × Digit :=
  let tempReg := addend1 + carryIn
  let sumOut := addend2 + tempReg
  (isDigitLessthanCt tempReg carryIn ||| isDigitLessthanCt sumOut tempReg, sumOut)

/-- `SUBC`: borrow out and difference. -/
def subc (borrowIn minuend subtrahend : Digit) : Digit × Digit :=
  let tempReg := minuend - subtrahend
  let borrowReg := isDigitLessthanCt minuend subtrahend ||| (borrowIn &&& isDigitZeroCt tempReg)
  (borrowReg, tempReg - borrowIn)

theorem addc_spec (c x y : Digit) (hc : c.toNat ≤ 1) :
    (addc c x y).1.toNat ≤ 1 ∧
    (addc c x y).2.toNat + 2 ^ 32 * (addc c x y).1.toNat = x.toNat + y.toNat + c.toNat := by
  unfold addc
  dsimp only
  rw [isDigitLessthanCt_eq, isDigitLessthanCt_eq]
  have hx := x.isLt
  have hy := y.isLt
  have ht := BitVec.toNat_add x c
  have hs := BitVec.toNat_add y (x + c)
  -- at most one of the two comparisons fires
  by_cases h₁ : x + c < c <;> by_cases h₂ : y + (x + c) < x + c <;>
    simp only [h₁, h₂, if_true, if_false] <;> rw [BitVec.lt_def] at h₁ h₂ <;>
    simp <;> omega

theorem subc_spec (c x y : Digit) (hc : c.toNat ≤ 1) :
    (subc c x y).1.toNat ≤ 1 ∧
    (subc c x y).2.toNat + y.toNat + c.toNat = x.toNat + 2 ^ 32 * (subc c x y).1.toNat := by
  unfold subc
  dsimp only
  rw [isDigitLessthanCt_eq, isDigitZeroCt_eq]
  have hx := x.isLt
  have hy := y.isLt
  have ht := BitVec.toNat_sub x y
  have hs := BitVec.toNat_sub (x - y) c
  have hz : x - y = 0 ↔ (x - y).toNat = 0 := by
    rw [← BitVec.toNat_inj]
    rfl
  have hc' : c = 0 ∨ c = 1 := by
    rcases Nat.le_one_iff_eq_zero_or_eq_one.mp hc with h | h
    · exact .inl (BitVec.eq_of_toNat_eq h)
    · exact .inr (BitVec.eq_of_toNat_eq h)
  by_cases h₁ : x < y <;> by_cases h₂ : x - y = 0 <;>
    simp only [h₁, h₂, if_true, if_false] <;> rw [BitVec.lt_def] at h₁ <;> rw [hz] at h₂ <;>
    rcases hc' with rfl | rfl <;> simp at * <;> omega

/-! ## Products of two digits -/

/-- `mask_low`, `mask_high`. -/
def maskLow : Digit := 0xFFFF
def maskHigh : Digit := 0xFFFF0000

/-- `digit_x_digit`: the low and the high digit of a product, from halves. -/
def digitXDigit (a b : Digit) : Digit × Digit :=
  let al := a &&& maskLow
  let ah := a >>> 16
  let bl := b &&& maskLow
  let bh := b >>> 16
  let albl := al * bl
  let albh := al * bh
  let ahbl := ah * bl
  let ahbh := ah * bh
  let c00 := albl &&& maskLow
  let temp := (albl >>> 16) + (ahbl &&& maskLow) + (albh &&& maskLow)
  let carry := temp >>> 16
  let c01 := c00 ^^^ (temp <<< 16)
  let temp := (ahbl >>> 16) + (albh >>> 16) + (ahbh &&& maskLow) + carry
  let c10 := temp &&& maskLow
  let carry := temp &&& maskHigh
  (c01, c10 ^^^ ((ahbh &&& maskHigh) + carry))

theorem and_maskLow (x : Digit) : (x &&& maskLow).toNat = x.toNat % 2 ^ 16 := by
  rw [BitVec.toNat_and, show maskLow.toNat = 2 ^ 16 - 1 from rfl, Nat.and_two_pow_sub_one_eq_mod]

theorem and_maskHigh (x : Digit) : (x &&& maskHigh).toNat = 2 ^ 16 * (x.toNat / 2 ^ 16) := by
  have hx := x.isLt
  rw [BitVec.toNat_and, show maskHigh.toNat = (2 ^ 16 - 1) <<< 16 from rfl]
  refine Nat.eq_of_testBit_eq fun k => ?_
  rw [Nat.testBit_and, Nat.testBit_shiftLeft, Nat.testBit_two_pow_mul, Nat.testBit_div_two_pow,
    Nat.testBit_two_pow_sub_one]
  by_cases hk : 16 ≤ k
  · rw [Nat.sub_add_cancel hk]
    by_cases hk' : k < 32
    · simp [hk, show k - 16 < 16 by omega]
    · rw [Nat.testBit_lt_two_pow (Nat.lt_of_lt_of_le hx (Nat.pow_le_pow_right (by omega)
        (Nat.le_of_not_lt hk')))]
      simp
  · simp [hk]

theorem toNat_shiftRight (x : Digit) (k : Nat) : (x >>> k).toNat = x.toNat / 2 ^ k := by
  rw [BitVec.toNat_ushiftRight, Nat.shiftRight_eq_div_pow]

/-- A low part and a high part do not overlap. -/
theorem toNat_xor_halves {w i : Nat} {x y : BitVec w} {lo hi : Nat} (hx : x.toNat = lo)
    (hy : y.toNat = 2 ^ i * hi) (hlo : lo < 2 ^ i) : (x ^^^ y).toNat = lo + 2 ^ i * hi := by
  rw [BitVec.toNat_xor, hx, hy, Nat.add_comm, Nat.two_pow_add_eq_or_of_lt hlo]
  refine Nat.eq_of_testBit_eq fun k => ?_
  rw [Nat.testBit_xor, Nat.testBit_or, Nat.testBit_two_pow_mul]
  by_cases hk : i ≤ k
  · rw [Nat.testBit_lt_two_pow (Nat.lt_of_lt_of_le hlo (Nat.pow_le_pow_right (by omega) hk))]
    simp
  · simp [hk]

/-- Two halves of digits multiply without overflow. -/
theorem toNat_mul_halves {x y : Digit} {m n : Nat} (hx : x.toNat = m) (hy : y.toNat = n)
    (hm : m < 2 ^ 16) (hn : n < 2 ^ 16) : (x * y).toNat = m * n := by
  rw [BitVec.toNat_mul, hx, hy, Nat.mod_eq_of_lt]
  calc m * n ≤ (2 ^ 16 - 1) * (2 ^ 16 - 1) := Nat.mul_le_mul (by omega) (by omega)
    _ < 2 ^ 32 := by decide

/-- The halves of a product, put together, are the product. -/
private theorem mul_halves (m n : Nat) :
    m % 2 ^ 16 * (n % 2 ^ 16) + 2 ^ 16 * (m / 2 ^ 16 * (n % 2 ^ 16) + m % 2 ^ 16 * (n / 2 ^ 16))
      + 2 ^ 32 * (m / 2 ^ 16 * (n / 2 ^ 16)) = m * n := by
  conv_rhs => rw [← Nat.mod_add_div m (2 ^ 16), ← Nat.mod_add_div n (2 ^ 16)]
  ring

/-- The two digits are the product. -/
theorem digitXDigit_spec (a b : Digit) :
    (digitXDigit a b).1.toNat + 2 ^ 32 * (digitXDigit a b).2.toNat = a.toNat * b.toNat := by
  have ha := a.isLt
  have hb := b.isLt
  have hal : a.toNat % 2 ^ 16 < 2 ^ 16 := Nat.mod_lt _ (by decide)
  have hah : a.toNat / 2 ^ 16 < 2 ^ 16 := by omega
  have hbl : b.toNat % 2 ^ 16 < 2 ^ 16 := Nat.mod_lt _ (by decide)
  have hbh : b.toNat / 2 ^ 16 < 2 ^ 16 := by omega
  have hp := toNat_mul_halves (and_maskLow a) (and_maskLow b) hal hbl
  have hq := toNat_mul_halves (toNat_shiftRight a 16) (and_maskLow b) hah hbl
  have hr := toNat_mul_halves (and_maskLow a) (toNat_shiftRight b 16) hal hbh
  have hs := toNat_mul_halves (toNat_shiftRight a 16) (toNat_shiftRight b 16) hah hbh
  have htotal := mul_halves a.toNat b.toNat
  have hbound : a.toNat * b.toNat < 2 ^ 64 := by
    calc a.toNat * b.toNat ≤ (2 ^ 32 - 1) * (2 ^ 32 - 1) := Nat.mul_le_mul (by omega) (by omega)
      _ < 2 ^ 64 := by decide
  rw [← hp, ← hq, ← hr, ← hs] at htotal
  unfold digitXDigit
  dsimp only
  generalize (a &&& maskLow) * (b &&& maskLow) = p at *
  generalize (a >>> 16) * (b &&& maskLow) = q at *
  generalize (a &&& maskLow) * (b >>> 16) = r at *
  generalize (a >>> 16) * (b >>> 16) = s at *
  have hpl := p.isLt
  have hql := q.isLt
  have hrl := r.isLt
  -- the two column sums, neither of which overflows
  have ht₁ : ((p >>> 16) + (q &&& maskLow) + (r &&& maskLow)).toNat
      = p.toNat / 2 ^ 16 + q.toNat % 2 ^ 16 + r.toNat % 2 ^ 16 := by
    rw [BitVec.toNat_add, BitVec.toNat_add, toNat_shiftRight, and_maskLow, and_maskLow]
    omega
  generalize (p >>> 16) + (q &&& maskLow) + (r &&& maskLow) = t₁ at *
  have ht₂ : ((q >>> 16) + (r >>> 16) + (s &&& maskLow) + (t₁ >>> 16)).toNat
      = q.toNat / 2 ^ 16 + r.toNat / 2 ^ 16 + s.toNat % 2 ^ 16 + t₁.toNat / 2 ^ 16 := by
    rw [BitVec.toNat_add, BitVec.toNat_add, BitVec.toNat_add, toNat_shiftRight, toNat_shiftRight,
      and_maskLow, toNat_shiftRight]
    omega
  generalize (q >>> 16) + (r >>> 16) + (s &&& maskLow) + (t₁ >>> 16) = t₂ at *
  have hshifted : (t₁ <<< 16).toNat = 2 ^ 16 * (t₁.toNat % 2 ^ 16) := by
    rw [BitVec.toNat_shiftLeft, Nat.shiftLeft_eq]
    omega
  have htop : ((s &&& maskHigh) + (t₂ &&& maskHigh)).toNat
      = 2 ^ 16 * (s.toNat / 2 ^ 16 + t₂.toNat / 2 ^ 16) := by
    rw [BitVec.toNat_add, and_maskHigh, and_maskHigh]
    omega
  rw [toNat_xor_halves (and_maskLow p) hshifted (Nat.mod_lt _ (by decide)),
    toNat_xor_halves (and_maskLow t₂) htop (Nat.mod_lt _ (by decide))]
  omega

/-! ## Multiprecision loops -/

/-- `mp_add`: the carry and the sum. -/
def mpAdd (a b : List Digit) : Digit × List Digit := chain addc 0 a b

/-- `subtract`: the borrow and the difference. -/
def subtract (a b : List Digit) : Digit × List Digit := chain subc 0 a b

/-- The body of the inner loop of `mp_mul`: `c[i + j] + a[i] * b[j] + u`, high
digit first. -/
def mulStep (ai u bj cij : Digit) : Digit × Digit :=
  let uv := digitXDigit ai bj
  let v := addc 0 uv.1 u
  let u := uv.2 + v.1
  let v := addc 0 cij v.2
  (u + v.1, v.2)

/-- `mp_mul`: the product, twice as long as the operands. -/
def mpMul (a b : List Digit) : List Digit := mulRows mulStep a b (List.replicate b.length 0)

theorem mulStep_spec (a u b c : Digit) :
    (mulStep a u b c).2.toNat + 2 ^ 32 * (mulStep a u b c).1.toNat
      = a.toNat * b.toNat + c.toNat + u.toNat := by
  have hmul := digitXDigit_spec a b
  have hadd := addc_spec 0 (digitXDigit a b).1 u (by decide)
  have hadd' := addc_spec 0 c (addc 0 (digitXDigit a b).1 u).2 (by decide)
  have hbound : a.toNat * b.toNat ≤ (2 ^ 32 - 1) * (2 ^ 32 - 1) :=
    Nat.mul_le_mul (by have := a.isLt; omega) (by have := b.isLt; omega)
  have hc := c.isLt
  have hu := u.isLt
  unfold mulStep
  dsimp only
  generalize digitXDigit a b = uv at *
  generalize addc 0 uv.1 u = v at *
  generalize addc 0 c v.2 = v' at *
  simp only [BitVec.ofNat_eq_ofNat, BitVec.toNat_ofNat, Nat.zero_mod, Nat.add_zero] at hadd hadd'
  rw [BitVec.toNat_add, BitVec.toNat_add]
  omega

/-- A word masked with all ones or all zeros, as the constant-time selections do. -/
def maskOf (b : Bool) : Digit := if b then BitVec.allOnes 32 else 0

/-- The masked number is the number or zero. -/
theorem value_map_and_mask (xs : List Digit) (b : Bool) :
    value (xs.map (· &&& maskOf b)) = if b then value xs else 0 := by
  cases b with
  | true =>
    have hid : (fun x : Digit => x &&& maskOf true) = id := by
      funext x
      exact BitVec.and_allOnes
    rw [hid, List.map_id, if_pos rfl]
  | false =>
    have hzero : (fun x : Digit => x &&& maskOf false) = fun _ => 0#32 := by
      funext x
      exact BitVec.and_zero
    rw [hzero, List.map_const', Lib.Limbs.value_replicate_zero, if_neg Bool.false_ne_true]

variable {a b : List Digit}

/-- The sum and its carry. -/
theorem mpAdd_spec (h : a.length = b.length) :
    (mpAdd a b).1.toNat ≤ 1 ∧ (mpAdd a b).2.length = a.length ∧
    value (mpAdd a b).2 + 2 ^ (32 * a.length) * (mpAdd a b).1.toNat = value a + value b := by
  have hsum := Lib.Limbs.chain_add addc_spec (c := 0) (by decide) h
  exact ⟨hsum.1, Lib.Limbs.length_chain h, hsum.2⟩

/-- The sum without its carry. -/
theorem mpAdd_mod (h : a.length = b.length) :
    value (mpAdd a b).2 = (value a + value b) % 2 ^ (32 * a.length) := by
  obtain ⟨-, hlen, hval⟩ := mpAdd_spec h
  have hlt := Lib.Limbs.value_lt (mpAdd a b).2
  rw [hlen] at hlt
  rw [← hval, Nat.add_mul_mod_self_left, Nat.mod_eq_of_lt hlt]

/-- The difference and its borrow. -/
theorem subtract_spec (h : a.length = b.length) :
    (subtract a b).1.toNat ≤ 1 ∧ (subtract a b).2.length = a.length ∧
    value (subtract a b).2 + value b
      = value a + 2 ^ (32 * a.length) * (subtract a b).1.toNat := by
  have hdiff := Lib.Limbs.chain_sub subc_spec (c := 0) (by decide) h
  exact ⟨hdiff.1, Lib.Limbs.length_chain h, hdiff.2⟩

/-- The product. -/
theorem mpMul_spec (hb : b ≠ []) :
    (mpMul a b).length = a.length + b.length ∧ value (mpMul a b) = value a * value b := by
  have hacc : (List.replicate b.length (0 : Digit)).length = b.length := List.length_replicate
  refine ⟨Lib.Limbs.length_mulRows hacc hb, ?_⟩
  have hval : value (mpMul a b) = value a * value b + value (List.replicate b.length 0) :=
    Lib.Limbs.value_mulRows mulStep_spec hacc hb
  rw [show (0 : Digit) = 0#32 from rfl, Lib.Limbs.value_replicate_zero, Nat.add_zero] at hval
  exact hval

/-! ## Shifting along the words -/

/-- `SHIFTR` by one, for words of any size. -/
def shiftr {w : Nat} (high low : BitVec w) : BitVec w := (low >>> 1) ^^^ (high <<< (w - 1))

/-- The loops that shift a number right by one bit; nothing comes in at the top. -/
def shiftRightOne {w : Nat} : List (BitVec w) → List (BitVec w)
  | [] => []
  | [x] => [x >>> 1]
  | x :: y :: xs => shiftr y x :: shiftRightOne (y :: xs)

@[simp] theorem length_shiftRightOne {w : Nat} (xs : List (BitVec w)) :
    (shiftRightOne xs).length = xs.length := by
  induction xs with
  | nil => rfl
  | cons x xs ih =>
    cases xs with
    | nil => rfl
    | cons y ys => exact congrArg (· + 1) ih

/-- The low bit of the higher word comes in at the top. -/
theorem toNat_shiftr {w : Nat} (hw : 0 < w) (y x : BitVec w) :
    (shiftr y x).toNat = x.toNat / 2 + 2 ^ (w - 1) * (y.toNat % 2) := by
  have hlt := x.isLt
  have hpow : 2 ^ w = 2 ^ (w - 1) * 2 := by rw [← pow_succ, Nat.sub_add_cancel hw]
  have hlow : (x >>> 1).toNat = x.toNat / 2 := by
    rw [BitVec.toNat_ushiftRight, Nat.shiftRight_eq_div_pow, pow_one]
  have hhigh : (y <<< (w - 1)).toNat = 2 ^ (w - 1) * (y.toNat % 2) := by
    rw [BitVec.toNat_shiftLeft, Nat.shiftLeft_eq, hpow, Nat.mul_comm, Nat.mul_mod_mul_left]
  exact toNat_xor_halves hlow hhigh (by omega)

/-- The number is halved. -/
theorem value_shiftRightOne {w : Nat} (hw : 0 < w) (xs : List (BitVec w)) :
    value (shiftRightOne xs) = value xs / 2 := by
  have hpow : 2 ^ w = 2 * 2 ^ (w - 1) := by rw [← pow_succ', Nat.sub_add_cancel hw]
  induction xs with
  | nil => simp [shiftRightOne]
  | cons x xs ih =>
    cases xs with
    | nil =>
      have hlow : (x >>> 1).toNat = x.toNat / 2 := by
        rw [BitVec.toNat_ushiftRight, Nat.shiftRight_eq_div_pow, pow_one]
      simp only [shiftRightOne, Lib.Limbs.value_cons, Lib.Limbs.value_nil, hlow, Nat.mul_zero,
        Nat.add_zero]
    | cons y ys =>
      have hparity : value (y :: ys) % 2 = y.toNat % 2 := by
        rw [Lib.Limbs.value_cons, hpow, Nat.mul_assoc, Nat.add_mul_mod_self_left]
      have hhalf := Nat.div_add_mod (value (y :: ys)) 2
      rw [hparity] at hhalf
      show (shiftr y x).toNat + 2 ^ w * value (shiftRightOne (y :: ys))
        = (x.toNat + 2 ^ w * value (y :: ys)) / 2
      rw [toNat_shiftr hw, ih, hpow, Nat.mul_assoc, Nat.mul_assoc,
        Nat.add_mul_div_left _ _ (by decide)]
      conv_rhs => rw [← hhalf]
      ring

end QubicLedger
