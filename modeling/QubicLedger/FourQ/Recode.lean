import QubicLedger.FourQ.Order
import QubicLedger.Lib.FixedBuf
import Mathlib.Algebra.BigOperators.Intervals
import Mathlib.Algebra.BigOperators.Ring.Finset

/-!
# The scalar recoding (`mLSB_set_recode`, `eccp2.c`)

An odd scalar is written with 50 signs and 200 bits: column `pos` has the sign
`±1` of weight `2^pos` and four bits of weights `2^(50 (r + 1) + pos)` that take
the sign of their column. The loop takes one bit after the other off the
scalar; where a bit is taken negatively, one is added to what is left.

That addition finds its carry by comparing with zero, but the comparison takes
a `digit_t`, half of the 64-bit word: a word whose low half becomes zero is
carried from even if the word itself is not zero. `falseCarries` is what such
carries add, and `recode_value` is the exact account: the digits stand for the
scalar plus what the false carries added, less what is left over at the top.
-/

namespace QubicLedger

open Lib (FixedBuf)
open Lib.Limbs (value)

/-! ## The parameters -/

/-- `W_FIXEDBASE`, `V_FIXEDBASE`. -/
abbrev wFixedbase : Nat := 5
abbrev vFixedbase : Nat := 5

/-- `NBITS_ORDER_PLUS_ONE`. -/
abbrev nbitsOrderPlusOne : Nat := 246 + 1

/-- `E_FIXEDBASE`, `D_FIXEDBASE`, `L_FIXEDBASE`. -/
abbrev eFixedbase : Nat :=
  (nbitsOrderPlusOne + wFixedbase * vFixedbase - 1) / (wFixedbase * vFixedbase)
abbrev dFixedbase : Nat := eFixedbase * vFixedbase
abbrev lFixedbase : Nat := dFixedbase * wFixedbase

example : (eFixedbase, dFixedbase, lFixedbase) = (10, 50, 250) := rfl

/-- The size of `digits`. -/
abbrev ndigits : Nat := nbitsOrderPlusOne + wFixedbase * vFixedbase - 1

/-- `unsigned int digits[NBITS_ORDER_PLUS_ONE + W_FIXEDBASE * V_FIXEDBASE - 1]`. -/
abbrev Digits := FixedBuf (BitVec 32) ndigits

/-- `digits[i]`. -/
def digitAt (digits : Digits) (i : Nat) : BitVec 32 := digits.cells.getD i 0

/-! ## The functions -/

/-- A `digit_t` array read through a `uint64_t` pointer. -/
def words64 : List Digit → List (BitVec 64)
  | x :: y :: xs => (y ++ x : BitVec 64) :: words64 xs
  | _ => []

/-- What `mLSB_set_recode` works on. -/
structure Recoding where
  scalar : List (BitVec 64)
  digits : Digits

/-- `scalar[0] & 1`. -/
def lowBit (scalar : List (BitVec 64)) : BitVec 64 := scalar.headD 0 &&& 1

/-- The first loop: the sign row. -/
def signStep (st : Recoding) (i : Nat) : Recoding :=
  { digits := st.digits.set i ((lowBit st.scalar - 1).setWidth 32)
    scalar := shiftRightOne st.scalar }

/-- `(uint64_t)is_digit_zero_ct((digit_t)x)`. -/
def lowHalfZero (x : BitVec 64) : BitVec 64 := (isDigitZeroCt (x.setWidth 32)).setWidth 64

/-- The additions at the end of the second loop. -/
def addCarries : BitVec 64 → List (BitVec 64) → List (BitVec 64)
  | _, [] => []
  | carry, x :: xs => (x + carry) :: addCarries (carry &&& lowHalfZero (x + carry)) xs

/-- `temp`: one if the digit is set and its column negative. -/
def bitTemp (digits : Digits) (i : Nat) : BitVec 64 :=
  ((0 - digitAt digits (i - i / dFixedbase * dFixedbase)) &&& digitAt digits i).setWidth 64

/-- The second loop: one bit of the scalar. -/
def bitStep (st : Recoding) (i : Nat) : Recoding :=
  let digits := st.digits.set i ((lowBit st.scalar).setWidth 32)
  { digits := digits, scalar := addCarries (bitTemp digits i) (shiftRightOne st.scalar) }

/-- After the first loop. -/
def signRow (scalar : List (BitVec 64)) (digits : Digits) : Recoding :=
  (List.range (dFixedbase - 1)).foldl signStep
    { digits := digits.set (dFixedbase - 1) 0, scalar := shiftRightOne scalar }

/-- `mLSB_set_recode`. -/
def mLSBSetRecode (scalar : List (BitVec 64)) (digits : Digits) : Recoding :=
  (List.range' dFixedbase (lFixedbase - dFixedbase)).foldl bitStep (signRow scalar digits)

/-! ## Words -/

theorem words64_spec (xs : List Digit) (n : Nat) (h : xs.length = 2 * n) :
    (words64 xs).length = n ∧ value (words64 xs) = value xs := by
  induction n generalizing xs with
  | zero =>
    rw [List.length_eq_zero_iff.mp h]
    exact ⟨rfl, rfl⟩
  | succ n ih =>
    match xs, h with
    | x :: y :: xs, h =>
      obtain ⟨hlen, hval⟩ := ih xs (by rw [List.length_cons, List.length_cons] at h; omega)
      refine ⟨congrArg (· + 1) hlen, ?_⟩
      have hx := x.isLt
      rw [words64, Lib.Limbs.value_cons, Lib.Limbs.value_cons, Lib.Limbs.value_cons, hval,
        BitVec.toNat_append, ← Nat.shiftLeft_add_eq_or_of_lt hx, Nat.shiftLeft_eq]
      ring

theorem lowBit_toNat (scalar : List (BitVec 64)) : (lowBit scalar).toNat = value scalar % 2 := by
  cases scalar with
  | nil => rfl
  | cons x xs =>
    rw [lowBit, List.headD_cons, BitVec.toNat_and, Lib.Limbs.value_cons,
      show (1 : BitVec 64).toNat = 2 ^ 1 - 1 from rfl, Nat.and_two_pow_sub_one_eq_mod]
    omega

theorem lowBit_eq (scalar : List (BitVec 64)) :
    lowBit scalar = if value scalar % 2 = 1 then 1 else 0 := by
  have h := lowBit_toNat scalar
  rcases Nat.mod_two_eq_zero_or_one (value scalar) with hbit | hbit
  · rw [hbit] at h ⊢
    exact BitVec.eq_of_toNat_eq h
  · rw [hbit] at h ⊢
    exact BitVec.eq_of_toNat_eq h

/-! ## The carries -/

/-- What the carries out of words that are not zero add. -/
def falseCarries : BitVec 64 → List (BitVec 64) → Nat
  | _, [] => 0
  | carry, x :: xs =>
    let carry' := carry &&& lowHalfZero (x + carry)
    2 ^ 64 * (carry'.toNat - (x.toNat + carry.toNat) / 2 ^ 64 + falseCarries carry' xs)

theorem lowHalfZero_eq (x : BitVec 64) :
    lowHalfZero x = if x.toNat % 2 ^ 32 = 0 then 1 else 0 := by
  have hzero : x.setWidth 32 = 0 ↔ x.toNat % 2 ^ 32 = 0 := by
    rw [← BitVec.toNat_inj, BitVec.toNat_setWidth]
    rfl
  rw [lowHalfZero, isDigitZeroCt_eq]
  by_cases h : x.toNat % 2 ^ 32 = 0
  · rw [if_pos (hzero.mpr h), if_pos h]
    rfl
  · rw [if_neg (fun h' => h (hzero.mp h')), if_neg h]
    rfl

/-- The carry that is handed on: at least the true one. -/
theorem carryOut_toNat {carry : BitVec 64} (hc : carry.toNat ≤ 1) (y : BitVec 64) :
    (carry &&& lowHalfZero y).toNat
      = if carry.toNat = 1 ∧ y.toNat % 2 ^ 32 = 0 then 1 else 0 := by
  have hcarry : carry = 0 ∨ carry = 1 := by
    rcases Nat.le_one_iff_eq_zero_or_eq_one.mp hc with h | h
    · exact .inl (BitVec.eq_of_toNat_eq h)
    · exact .inr (BitVec.eq_of_toNat_eq h)
  rw [lowHalfZero_eq]
  rcases hcarry with rfl | rfl
  · simp
  · by_cases h : y.toNat % 2 ^ 32 = 0
    · rw [if_pos h, if_pos ⟨rfl, h⟩]
      rfl
    · rw [if_neg h, if_neg (fun h' => h h'.2)]
      rfl

@[simp] theorem length_addCarries (carry : BitVec 64) (xs : List (BitVec 64)) :
    (addCarries carry xs).length = xs.length := by
  induction xs generalizing carry with
  | nil => rfl
  | cons x xs ih => exact congrArg (· + 1) (ih _)

/-- Where the top word is small, nothing is lost at the top: the words grow by
the carry handed in and the false carries, and the top word by at most one. -/
theorem addCarries_value {carry : BitVec 64} (hc : carry.toNat ≤ 1) {xs : List (BitVec 64)}
    {m : Nat} (hlen : xs.length = m + 1) (htop : value xs / 2 ^ (64 * m) < 2 ^ 31) :
    value (addCarries carry xs) = value xs + carry.toNat + falseCarries carry xs ∧
    value (addCarries carry xs) / 2 ^ (64 * m) ≤ value xs / 2 ^ (64 * m) + 1 := by
  induction m generalizing carry xs with
  | zero =>
    match xs, hlen with
    | [x], _ =>
      have hcarry := carryOut_toNat hc (x + carry)
      simp only [Lib.Limbs.value_cons, Lib.Limbs.value_nil, Nat.mul_zero, pow_zero, Nat.div_one,
        Nat.add_zero] at htop
      have hsum : (x + carry).toNat = x.toNat + carry.toNat := by
        rw [BitVec.toNat_add]
        omega
      rw [hsum] at hcarry
      have hnone : (carry &&& lowHalfZero (x + carry)).toNat = 0 := by
        rw [hcarry, if_neg (by omega)]
      simp only [addCarries, falseCarries, Lib.Limbs.value_cons, Lib.Limbs.value_nil, hsum, hnone,
        Nat.mul_zero, pow_zero, Nat.div_one, Nat.add_zero]
      omega
  | succ m ih =>
    match xs, hlen with
    | x :: xs, hlen =>
      have hx := x.isLt
      have hcarry := carryOut_toNat hc (x + carry)
      have hsum : (x + carry).toNat = (x.toNat + carry.toNat) % 2 ^ 64 := BitVec.toNat_add _ _
      have hle : (carry &&& lowHalfZero (x + carry)).toNat ≤ 1 := by
        rw [hcarry]
        split <;> omega
      -- a word that overflows is zero, so a true carry is never missed
      have htrue : (x.toNat + carry.toNat) / 2 ^ 64 ≤ (carry &&& lowHalfZero (x + carry)).toNat := by
        rw [hcarry, hsum]
        split <;> omega
      have hdiv (n : Nat) (v : Nat) (hn : n < 2 ^ 64) :
          (n + 2 ^ 64 * v) / 2 ^ (64 * (m + 1)) = v / 2 ^ (64 * m) := by
        rw [show 64 * (m + 1) = 64 + 64 * m by omega, pow_add, ← Nat.div_div_eq_div_mul,
          Nat.add_mul_div_left _ _ (by decide), Nat.div_eq_of_lt hn, Nat.zero_add]
      rw [Lib.Limbs.value_cons, hdiv _ _ hx] at htop
      obtain ⟨hval, htop'⟩ := ih hle (by simpa using hlen) htop
      simp only [addCarries, falseCarries, Lib.Limbs.value_cons]
      rw [hdiv _ _ (x + carry).isLt, hdiv _ _ hx, hval, hsum]
      refine ⟨?_, hval ▸ htop'⟩
      generalize (carry &&& lowHalfZero (x + carry)).toNat = c' at *
      generalize falseCarries (carry &&& lowHalfZero (x + carry)) xs = f at *
      omega

/-! ## The loops -/

theorem digitAt_set {digits : Digits} {i j : Nat} {x : BitVec 32} (hi : i < ndigits) :
    digitAt (digits.set i x) j = if j = i then x else digitAt digits j := by
  have hsize := digits.size_eq
  unfold digitAt
  rw [FixedBuf.cells_set, List.getD_eq_getElem?_getD, List.getD_eq_getElem?_getD,
    List.getElem?_set]
  split
  · rw [if_pos (by omega), if_pos (by omega)]
    rfl
  · rw [if_neg (by omega)]

/-- `-1` as an `unsigned int`. -/
abbrev minusOne : BitVec 32 := BitVec.allOnes 32

/-- After `n` steps of the first loop. -/
theorem signSteps {scalar : List (BitVec 64)} {digits : Digits} (hlen : scalar.length = 4)
    {n : Nat} (hn : n ≤ 49) {st : Recoding}
    (hst : (List.range n).foldl signStep
      { digits := digits.set 49 0, scalar := shiftRightOne scalar } = st) :
    st.scalar.length = 4 ∧ value st.scalar = value scalar / 2 ^ (n + 1) ∧
    (∀ i < n, digitAt st.digits i = if (value scalar).testBit (i + 1) then 0 else minusOne) ∧
    digitAt st.digits 49 = 0 := by
  induction n generalizing st with
  | zero =>
    subst hst
    refine ⟨?_, ?_, fun i hi => absurd hi (by omega), ?_⟩
    · exact (length_shiftRightOne _).trans hlen
    · exact value_shiftRightOne (by decide) _
    · exact (digitAt_set (by decide)).trans (if_pos rfl)
  | succ n ih =>
    rw [List.range_succ, List.foldl_append, List.foldl_cons, List.foldl_nil] at hst
    obtain ⟨hlen', hval, hdigits, hlast⟩ := ih (by omega) rfl
    generalize (List.range n).foldl signStep
      { digits := digits.set 49 0, scalar := shiftRightOne scalar } = prev at *
    have hget (j : Nat) : digitAt st.digits j
        = if j = n then (lowBit prev.scalar - 1).setWidth 32 else digitAt prev.digits j := by
      rw [← hst]
      exact digitAt_set (by show n < 271; omega)
    have hbit : (value scalar).testBit (n + 1) = (value prev.scalar % 2 == 1) := by
      rw [hval, Nat.testBit_eq_decide_div_mod_eq]
      rfl
    refine ⟨?_, ?_, ?_, ?_⟩
    · rw [← hst]
      exact (length_shiftRightOne _).trans hlen'
    · rw [← hst]
      refine (value_shiftRightOne (by decide) _).trans ?_
      rw [hval, Nat.div_div_eq_div_mul, ← pow_succ]
    · intro i hi
      rw [hget]
      rcases Nat.lt_or_eq_of_le (Nat.le_of_lt_succ hi) with h | rfl
      · rw [if_neg (by omega), hdigits i h]
      · rw [if_pos rfl, hbit, lowBit_eq]
        rcases Nat.mod_two_eq_zero_or_one (value prev.scalar) with h | h <;> rw [h] <;> rfl
    · rw [hget, if_neg (by omega), hlast]

/-! ## One bit -/

/-- The sign row: zeros and minus ones, the last column positive. -/
structure SignRow (digits : Digits) : Prop where
  sign : ∀ pos < 50, digitAt digits pos = 0 ∨ digitAt digits pos = minusOne
  last : digitAt digits 49 = 0

/-- The sign of a column. -/
def signOf (digits : Digits) (pos : Nat) : ℤ := if digitAt digits pos = 0 then 1 else -1

theorem signOf_cases (digits : Digits) (pos : Nat) :
    signOf digits pos = 1 ∨ signOf digits pos = -1 := by
  unfold signOf
  split
  · exact .inl rfl
  · exact .inr rfl

/-- What the false carries of one step add to the scalar. -/
def stepExcess (st : Recoding) (i : Nat) : Nat :=
  falseCarries (bitTemp (st.digits.set i ((lowBit st.scalar).setWidth 32)) i)
    (shiftRightOne st.scalar)

/-- The top word of a scalar is small. -/
def SmallTop (scalar : List (BitVec 64)) : Prop :=
  scalar.length = 4 ∧ value scalar / 2 ^ 192 ≤ 2 ^ 14

theorem bitStep_digits {st : Recoding} {i : Nat} (hi : i < 250) (j : Nat) :
    digitAt (bitStep st i).digits j
      = if j = i then (lowBit st.scalar).setWidth 32 else digitAt st.digits j :=
  digitAt_set (by show i < 271; omega)

/-- A set digit of a negative column, and no other, makes the scalar grow. -/
theorem bitTemp_toNat {st : Recoding} {i : Nat} (hsign : SignRow st.digits) (hi : 50 ≤ i)
    (hi' : i < 250) :
    (bitTemp (bitStep st i).digits i).toNat
      = if signOf st.digits (i % 50) = 1 then 0 else value st.scalar % 2 := by
  have hcolumn : i - i / dFixedbase * dFixedbase = i % 50 := by
    show i - i / 50 * 50 = i % 50
    omega
  unfold bitTemp
  rw [hcolumn, bitStep_digits hi', bitStep_digits hi', if_pos rfl, if_neg (by omega), lowBit_eq]
  unfold signOf
  rcases hsign.sign (i % 50) (Nat.mod_lt _ (by decide)) with h | h <;> rw [h]
  · rcases Nat.mod_two_eq_zero_or_one (value st.scalar) with hbit | hbit <;> rw [hbit] <;> rfl
  · rcases Nat.mod_two_eq_zero_or_one (value st.scalar) with hbit | hbit <;> rw [hbit] <;> rfl

/-- The account of one step: the bit with its sign, and twice what is left. -/
theorem bitStep_value {st : Recoding} {i : Nat} (hsign : SignRow st.digits)
    (hsmall : SmallTop st.scalar) (hi : 50 ≤ i) (hi' : i < 250) :
    SmallTop (bitStep st i).scalar ∧
    (value st.scalar : ℤ) + 2 * stepExcess st i
      = signOf st.digits (i % 50) * (value st.scalar % 2 : Nat)
        + 2 * value (bitStep st i).scalar := by
  have htemp := bitTemp_toNat hsign hi hi'
  obtain ⟨hlen, htop⟩ := hsmall
  have hhalf := value_shiftRightOne (by decide) st.scalar
  have hle : (bitTemp (bitStep st i).digits i).toNat ≤ 1 := by
    rw [htemp]
    split <;> omega
  obtain ⟨hval, htop'⟩ := addCarries_value (m := 3) hle
    ((length_shiftRightOne st.scalar).trans hlen) (by omega)
  refine ⟨⟨(length_addCarries _ _).trans ((length_shiftRightOne _).trans hlen), ?_⟩, ?_⟩
  · show value (addCarries (bitTemp (bitStep st i).digits i) _) / 2 ^ 192 ≤ 2 ^ 14
    omega
  · change value (bitStep st i).scalar = _ + _ + stepExcess st i at hval
    rw [hhalf, htemp] at hval
    rcases signOf_cases st.digits (i % 50) with h | h
    · rw [h, if_pos rfl] at hval
      rw [h]
      omega
    · rw [h, if_neg (by decide)] at hval
      rw [h]
      omega

/-! ## The whole scalar -/

/-- After the first loop and `n` steps of the second. -/
def bitRun (scalar : List (BitVec 64)) (digits : Digits) (n : Nat) : Recoding :=
  (List.range' 50 n).foldl bitStep (signRow scalar digits)

theorem bitRun_succ (scalar : List (BitVec 64)) (digits : Digits) (n : Nat) :
    bitRun scalar digits (n + 1) = bitStep (bitRun scalar digits n) (50 + n) := by
  rw [bitRun, List.range'_concat, List.foldl_append, Nat.one_mul]
  rfl

theorem mLSBSetRecode_eq (scalar : List (BitVec 64)) (digits : Digits) :
    mLSBSetRecode scalar digits = bitRun scalar digits 200 := rfl

/-- What the false carries add to the scalar in all. -/
def recodeExcess (scalar : List (BitVec 64)) (digits : Digits) : Nat :=
  ∑ n ∈ Finset.range 200, 2 ^ (51 + n) * stepExcess (bitRun scalar digits n) (50 + n)

variable {scalar : List (BitVec 64)} {D : Digits}

theorem dFixedbase_eq : dFixedbase = 50 := rfl

theorem signRow_eq : signRow scalar D = (List.range 49).foldl signStep
    { digits := D.set 49 0, scalar := shiftRightOne scalar } := by
  rw [signRow, dFixedbase_eq]

/-- The sign row and the scalar that the second loop starts with. -/
theorem bitRun_zero (hlen : scalar.length = 4) :
    SignRow (bitRun scalar D 0).digits ∧ SmallTop (bitRun scalar D 0).scalar ∧
    value (bitRun scalar D 0).scalar = value scalar / 2 ^ 50 ∧
    ∀ pos < 49, signOf (bitRun scalar D 0).digits pos
      = if (value scalar).testBit (pos + 1) then 1 else -1 := by
  have hzero : bitRun scalar D 0 = signRow scalar D := by
    rw [bitRun, List.range'_zero, List.foldl_nil]
  obtain ⟨hlen', hval, hdigits, hlast⟩ := signSteps hlen (le_refl 49)
    ((signRow_eq (D := D)).symm)
  rw [hzero]
  have hlt := Lib.Limbs.value_lt scalar
  rw [hlen] at hlt
  refine ⟨⟨?_, hlast⟩, ⟨hlen', by omega⟩, hval, ?_⟩
  · intro pos hpos
    rcases Nat.lt_or_eq_of_le (Nat.le_of_lt_succ hpos) with h | rfl
    · rw [hdigits pos h]
      split
      · exact .inl rfl
      · exact .inr rfl
    · exact .inl hlast
  · intro pos hpos
    unfold signOf
    rw [hdigits pos hpos]
    cases (value scalar).testBit (pos + 1) <;> rfl

/-- The second loop does not touch the sign row. -/
theorem bitRun_sign {n : Nat} (hn : n ≤ 200) {pos : Nat} (hpos : pos < 50) :
    digitAt (bitRun scalar D n).digits pos = digitAt (bitRun scalar D 0).digits pos := by
  induction n with
  | zero => rfl
  | succ n ih =>
    rw [bitRun_succ, bitStep_digits (by omega), if_neg (by omega)]
    exact ih (by omega)

theorem bitRun_signRow (hlen : scalar.length = 4) {n : Nat} (hn : n ≤ 200) :
    SignRow (bitRun scalar D n).digits := by
  obtain ⟨hsign, -, -, -⟩ := bitRun_zero (D := D) hlen
  refine ⟨fun pos hpos => ?_, (bitRun_sign hn (by decide)).trans hsign.last⟩
  rw [bitRun_sign hn hpos]
  exact hsign.sign pos hpos

theorem signOf_bitRun {n : Nat} (hn : n ≤ 200) {pos : Nat} (hpos : pos < 50) :
    signOf (bitRun scalar D n).digits pos = signOf (bitRun scalar D 0).digits pos := by
  unfold signOf
  rw [bitRun_sign hn hpos]

theorem bitRun_small (hlen : scalar.length = 4) {n : Nat} (hn : n ≤ 200) :
    SmallTop (bitRun scalar D n).scalar := by
  induction n with
  | zero => exact (bitRun_zero hlen).2.1
  | succ n ih =>
    rw [bitRun_succ]
    exact (bitStep_value (bitRun_signRow hlen (by omega)) (ih (by omega)) (by omega)
      (by omega)).1

/-- The account of step `n`. -/
theorem bitRun_step (hlen : scalar.length = 4) {n : Nat} (hn : n < 200) :
    (value (bitRun scalar D n).scalar : ℤ) + 2 * stepExcess (bitRun scalar D n) (50 + n)
      = signOf (bitRun scalar D 0).digits (n % 50)
          * (value (bitRun scalar D n).scalar % 2 : Nat)
        + 2 * value (bitRun scalar D (n + 1)).scalar := by
  have hstep := (bitStep_value (bitRun_signRow hlen (D := D) (by omega))
    (bitRun_small hlen (n := n) (by omega)) (i := 50 + n) (by omega) (by omega)).2
  rw [← bitRun_succ, Nat.add_mod_left, signOf_bitRun (by omega) (Nat.mod_lt _ (by decide))] at hstep
  exact hstep

/-- Digit `50 + m` is the bit that step `m` took off the scalar. -/
theorem bitRun_digit {m n : Nat} (hm : m < n) (hn : n ≤ 200) :
    (digitAt (bitRun scalar D n).digits (50 + m)).toNat
      = value (bitRun scalar D m).scalar % 2 := by
  induction n with
  | zero => exact absurd hm (by omega)
  | succ n ih =>
    rw [bitRun_succ, bitStep_digits (by omega)]
    rcases Nat.lt_or_eq_of_le (Nat.le_of_lt_succ hm) with h | rfl
    · rw [if_neg (by omega)]
      exact ih h (by omega)
    · rw [if_pos rfl, lowBit_eq]
      rcases Nat.mod_two_eq_zero_or_one (value (bitRun scalar D m).scalar) with h | h <;>
        rw [h] <;> rfl

/-- The account of the first `n` steps. -/
theorem bitRun_value (hlen : scalar.length = 4) {n : Nat} (hn : n ≤ 200) :
    ((value scalar / 2 ^ 50 : Nat) : ℤ)
      + ∑ m ∈ Finset.range n, 2 ^ (m + 1) * (stepExcess (bitRun scalar D m) (50 + m) : ℤ)
      = ∑ m ∈ Finset.range n, signOf (bitRun scalar D 0).digits (m % 50)
          * (value (bitRun scalar D m).scalar % 2 : Nat) * 2 ^ m
        + 2 ^ n * value (bitRun scalar D n).scalar := by
  induction n with
  | zero =>
    rw [Finset.sum_range_zero, Finset.sum_range_zero, (bitRun_zero hlen).2.2.1, pow_zero, one_mul,
      zero_add, add_zero]
  | succ n ih =>
    have haccount := ih (by omega)
    have hstep := bitRun_step hlen (D := D) (n := n) (by omega)
    rw [Finset.sum_range_succ, Finset.sum_range_succ, ← add_assoc, haccount, pow_succ]
    linear_combination 2 ^ n * hstep

/-! ## What the digits stand for -/

/-- The number that the columns spell. -/
def combValue (digits : Digits) : ℤ :=
  ∑ pos ∈ Finset.range 50, signOf digits pos * 2 ^ pos
    * (1 + ∑ r ∈ Finset.range 4,
      ((digitAt digits (50 * (r + 1) + pos)).toNat : ℤ) * 2 ^ (50 * (r + 1)))

/-- A sum over rows of `d` terms, column by column. -/
theorem sum_columns (f : Nat → ℤ) (d n : Nat) :
    ∑ m ∈ Finset.range (d * n), f m
      = ∑ pos ∈ Finset.range d, ∑ r ∈ Finset.range n, f (d * r + pos) := by
  induction n with
  | zero => simp
  | succ n ih =>
    rw [Nat.mul_succ, Finset.sum_range_add, ih, ← Finset.sum_add_distrib]
    exact Finset.sum_congr rfl fun pos _ => (Finset.sum_range_succ _ n).symm

/-- Signs for the bits above the lowest spell an odd number, from the top down. -/
theorem sum_signs {k : Nat} (hodd : k % 2 = 1) (n : Nat) :
    ∑ pos ∈ Finset.range n, (if k.testBit (pos + 1) then (1 : ℤ) else -1) * 2 ^ pos
      = (k % 2 ^ (n + 1) : Nat) - 2 ^ n := by
  induction n with
  | zero =>
    rw [Finset.sum_range_zero, Nat.zero_add, pow_one, hodd]
    rfl
  | succ n ih =>
    have hsplit := Nat.mod_pow_succ (x := k) (b := 2) (k := n + 1)
    rw [Finset.sum_range_succ, ih, hsplit, Nat.testBit_eq_decide_div_mod_eq]
    rcases Nat.mod_two_eq_zero_or_one (k / 2 ^ (n + 1)) with h | h
    · rw [h, if_neg (by decide)]
      push_cast
      ring
    · rw [h, if_pos (by decide)]
      push_cast
      ring

/-- The columns: the sign row, and above it the bits with their signs. -/
theorem combValue_eq (digits : Digits) :
    combValue digits = ∑ pos ∈ Finset.range 50, signOf digits pos * 2 ^ pos
      + 2 ^ 50 * ∑ m ∈ Finset.range 200,
        signOf digits (m % 50) * (digitAt digits (50 + m)).toNat * 2 ^ m := by
  rw [combValue, show 200 = 50 * 4 from rfl, sum_columns, Finset.mul_sum,
    ← Finset.sum_add_distrib]
  refine Finset.sum_congr rfl fun pos hpos => ?_
  rw [mul_add, mul_one, Finset.mul_sum, Finset.mul_sum]
  refine congrArg₂ (· + ·) rfl (Finset.sum_congr rfl fun r _ => ?_)
  rw [Nat.mul_add_mod, Nat.mod_eq_of_lt (Finset.mem_range.mp hpos),
    show 50 + (50 * r + pos) = 50 * (r + 1) + pos by omega, Nat.mul_succ, pow_add, pow_add]
  ring

/-- The sign row alone spells the low 50 bits of an odd scalar. -/
theorem sum_signRow (hlen : scalar.length = 4) (hodd : value scalar % 2 = 1) :
    ∑ pos ∈ Finset.range 50, signOf (bitRun scalar D 0).digits pos * 2 ^ pos
      = (value scalar % 2 ^ 50 : Nat) := by
  obtain ⟨hsign, -, -, hsigns⟩ := bitRun_zero (D := D) hlen
  have hlast : signOf (bitRun scalar D 0).digits 49 = 1 := by
    unfold signOf
    rw [hsign.last, if_pos rfl]
  have hrow : ∑ pos ∈ Finset.range 49, signOf (bitRun scalar D 0).digits pos * 2 ^ pos
      = ∑ pos ∈ Finset.range 49,
        (if (value scalar).testBit (pos + 1) then (1 : ℤ) else -1) * 2 ^ pos := by
    refine Finset.sum_congr rfl fun pos hpos => ?_
    rw [hsigns pos (Finset.mem_range.mp hpos)]
  rw [Finset.sum_range_succ, hrow, sum_signs hodd, hlast, one_mul, sub_add_cancel]

/-- The exact account of the recoding of an odd scalar: the columns, and what is
left over above bit 250, are the scalar and what the false carries added. -/
theorem recode_value (hlen : scalar.length = 4) (hodd : value scalar % 2 = 1) :
    combValue (mLSBSetRecode scalar D).digits
        + 2 ^ 250 * value (mLSBSetRecode scalar D).scalar
      = value scalar + recodeExcess scalar D := by
  have haccount := bitRun_value (D := D) hlen (le_refl 200)
  have hlow : ∑ pos ∈ Finset.range 50, signOf (bitRun scalar D 200).digits pos * 2 ^ pos
      = (value scalar % 2 ^ 50 : Nat) := by
    rw [← sum_signRow (D := D) hlen hodd]
    refine Finset.sum_congr rfl fun pos hpos => ?_
    rw [signOf_bitRun (le_refl 200) (Finset.mem_range.mp hpos)]
  have hhigh : ∑ m ∈ Finset.range 200, signOf (bitRun scalar D 200).digits (m % 50)
        * ((digitAt (bitRun scalar D 200).digits (50 + m)).toNat : ℤ) * 2 ^ m
      = ∑ m ∈ Finset.range 200, signOf (bitRun scalar D 0).digits (m % 50)
        * (value (bitRun scalar D m).scalar % 2 : Nat) * 2 ^ m := by
    refine Finset.sum_congr rfl fun m hm => ?_
    rw [signOf_bitRun (le_refl 200) (Nat.mod_lt _ (by decide)),
      bitRun_digit (Finset.mem_range.mp hm) (le_refl 200)]
  have hexcess : (recodeExcess scalar D : ℤ) = 2 ^ 50 * ∑ m ∈ Finset.range 200,
      2 ^ (m + 1) * (stepExcess (bitRun scalar D m) (50 + m) : ℤ) := by
    rw [recodeExcess, Finset.mul_sum, Nat.cast_sum]
    refine Finset.sum_congr rfl fun m _ => ?_
    rw [Nat.cast_mul, Nat.cast_pow, show 51 + m = 50 + (m + 1) by omega, pow_add]
    push_cast
    ring
  have hsplit := congrArg (Nat.cast : Nat → ℤ) (Nat.mod_add_div (value scalar) (2 ^ 50))
  rw [Nat.cast_add, Nat.cast_mul] at hsplit
  rw [mLSBSetRecode_eq, combValue_eq, hlow, hhigh, hexcess]
  linear_combination 2 ^ 50 * -haccount + hsplit

/-- The recoded digits: a sign row, and bits above it. -/
theorem recode_digits (hlen : scalar.length = 4) :
    SignRow (mLSBSetRecode scalar D).digits ∧
    ∀ m < 200, (digitAt (mLSBSetRecode scalar D).digits (50 + m)).toNat ≤ 1 := by
  rw [mLSBSetRecode_eq]
  refine ⟨bitRun_signRow hlen (le_refl 200), fun m hm => ?_⟩
  rw [bitRun_digit hm (le_refl 200)]
  omega

/-! ## Without false carries -/

theorem stepExcess_eq_zero (hexact : recodeExcess scalar D = 0) {n : Nat} (hn : n < 200) :
    stepExcess (bitRun scalar D n) (50 + n) = 0 := by
  have h := Finset.sum_eq_zero_iff.mp hexact n (Finset.mem_range.mpr hn)
  exact (Nat.mul_eq_zero.mp h).resolve_left (Nat.two_pow_pos _).ne'

/-- What is left halves in every step, rounded up at most. -/
theorem bitRun_le (hlen : scalar.length = 4) (hlt : value scalar < 2 ^ 249)
    (hexact : recodeExcess scalar D = 0) {n : Nat} (hn : n ≤ 199) :
    value (bitRun scalar D n).scalar ≤ 2 ^ (199 - n) := by
  induction n with
  | zero =>
    rw [(bitRun_zero hlen).2.2.1]
    exact Nat.le_of_lt (Nat.div_lt_of_lt_mul (by rwa [← pow_add]))
  | succ n ih =>
    have hle := ih (by omega)
    have hstep := bitRun_step hlen (D := D) (n := n) (by omega)
    rw [stepExcess_eq_zero hexact (by omega)] at hstep
    rw [show 199 - n = 199 - (n + 1) + 1 by omega, pow_succ] at hle
    generalize 2 ^ (199 - (n + 1)) = bound at *
    rcases signOf_cases (bitRun scalar D 0).digits (n % 50) with h | h
    · rw [h] at hstep
      omega
    · rw [h] at hstep
      omega

/-- The recoding is exact: the columns spell the scalar, and nothing is left over. -/
theorem recode_exact (hlen : scalar.length = 4) (hodd : value scalar % 2 = 1)
    (hlt : value scalar < 2 ^ 249) (hexact : recodeExcess scalar D = 0) :
    combValue (mLSBSetRecode scalar D).digits = value scalar ∧
    value (mLSBSetRecode scalar D).scalar = 0 := by
  have haccount := recode_value (D := D) hlen hodd
  have hle := bitRun_le (D := D) hlen hlt hexact (le_refl 199)
  have hstep := bitRun_step hlen (D := D) (n := 199) (by decide)
  -- the last column is positive, so the last bit leaves nothing
  have hlast : signOf (bitRun scalar D 0).digits (199 % 50) = 1 := by
    unfold signOf
    rw [(bitRun_signRow hlen (by decide)).last, if_pos rfl]
  rw [hlast, stepExcess_eq_zero hexact (by decide), show 199 + 1 = 200 from rfl] at hstep
  rw [mLSBSetRecode_eq] at haccount ⊢
  have hzero : value (bitRun scalar D 200).scalar = 0 := by omega
  rw [hzero, hexact] at haccount
  exact ⟨by simpa using haccount, hzero⟩

end QubicLedger
