import QubicLedger.FourQ.Encode

/-!
# Point validation (`ecc_point_validate`, `eccp2.c`)

The curve equation on digits. The function compares with zero digit by digit,
and a half that is zero can also be all digits of the prime: the test for that
adds one to each digit and asks for a top digit that no field element has.
`eccPointValidate_iff` says exactly what is tested, and `unseen_coordinate`
where the difference shows: for three second coordinates that are not reduced.
-/

namespace QubicLedger

open Lib (FixedBuf EdwardsCurve)
open Lib.Limbs (value)

/-! ## The functions -/

/-- `point_setup`. -/
def pointSetup (P : PointAffine) : PointExtproj :=
  { x := P.x, y := P.y, z := fp2one, ta := P.x, tb := P.y }

/-- `t[0] | t[1] | t[2] | t[3]`. -/
def orDigits (t : List Digit) : Digit := t.foldl (· ||| ·) 0

/-- What `ecc_point_validate` asks of either half of `t1`. -/
def isZeroHalf (t : Felm) : Bool :=
  isDigitZeroCt (orDigits t.cells) == 1 || isDigitZeroCt (orDigits (t.cells.map (· + 1))) == 1

/-- `ecc_point_validate`. -/
def eccPointValidate (P : PointExtproj) : Bool :=
  let t1 := fp2sqr1271 P.y
  let t2 := fp2sqr1271 P.x
  let t3 := fp2sub1271 t1 t2
  let t1 := fp2mul1271 t1 t2
  let t2 := fp2mul1271 parameterD t1
  let t2 := fp2add1271 t2 fp2one
  let t1 := fp2sub1271 t3 t2
  isZeroHalf t1.c0 && isZeroHalf t1.c1

/-! ## Representations of zero -/

variable {a b : Felm} {x : Fp}

theorem Felm.ext_val (h : a.val = b.val) : a = b :=
  FixedBuf.ext (Lib.Limbs.value_inj (a.size_eq.trans b.size_eq.symm) h)

/-- Digits stand for one element. -/
theorem Fp2Rep.unique {a : F2elm} {x y : Fp2} (hx : Fp2Rep a x) (hy : Fp2Rep a y) : x = y :=
  QuadraticAlgebra.ext (hx.re.eq.symm.trans hy.re.eq) (hx.im.eq.symm.trans hy.im.eq)

/-- Zero has two representations. -/
theorem FpRep.eq_zero_or (ha : FpRep a 0) : a.val = 0 ∨ a.val = p1271 := by
  have hlt := ha.lt
  have hdvd := (ZMod.natCast_eq_zero_iff _ _).mp ha.eq
  rw [p1271_eq] at *
  omega

theorem FpRep.val_mod (ha : FpRep a x) : x.val = a.val % p1271 := by
  rw [← ha.eq, ZMod.val_natCast]

/-- Anything else has one representation. -/
theorem FpRep.val_eq (ha : FpRep a x) (hx : x ≠ 0) : a.val = x.val := by
  have hlt := ha.lt
  have hne : a.val ≠ p1271 := by
    intro h
    rw [← ha.eq, h, ZMod.natCast_self] at hx
    exact hx rfl
  rw [← ha.eq, ZMod.val_natCast, Nat.mod_eq_of_lt]
  rw [p1271_eq] at *
  omega

/-- Where a difference is the prime. -/
theorem fpsub1271_eq_prime_iff (ha : a.val < 2 ^ 127) (hb : b.val < 2 ^ 127) :
    (fpsub1271 a b).val = p1271 ↔ a.val = p1271 ∧ b.val = 0 := by
  have hval := fpsub1271_val ha hb
  rw [p1271_eq] at *
  split at hval <;> omega

/-- Where a sum is written as zero. -/
theorem fpadd1271_eq_zero_iff (ha : a.val < 2 ^ 127) (hb : b.val < 2 ^ 127) :
    (fpadd1271 a b).val = 0 ↔ a.val = 0 ∧ b.val = 0 := by
  have hval := fpadd1271_val ha hb
  omega

/-- Where a difference is written as zero. -/
theorem fpsub1271_eq_zero_iff {y : Fp} (ha : FpRep a x) (hb : FpRep b y) :
    (fpsub1271 a b).val = 0 ↔ x = y ∧ ¬ (a.val = p1271 ∧ b.val = 0) := by
  have hsub := ha.sub hb
  constructor
  · intro hzero
    refine ⟨sub_eq_zero.mp ?_, ?_⟩
    · rw [← hsub.eq, hzero, Nat.cast_zero]
    · rintro ⟨ha', hb'⟩
      rw [fpsub1271_val ha.lt hb.lt, ha', hb', if_pos (Nat.zero_le _)] at hzero
      exact absurd hzero (by decide)
  · rintro ⟨rfl, hplain⟩
    rw [sub_self] at hsub
    exact hsub.eq_zero_or.resolve_right fun hprime =>
      hplain ((fpsub1271_eq_prime_iff ha.lt hb.lt).mp hprime)

/-- Where a double is the prime. -/
theorem fpadd1271_self_eq_prime (ha : a.val < 2 ^ 127) (h : (fpadd1271 a a).val = p1271) :
    a.val = p1271 := by
  have hval := fpadd1271_val ha ha
  rw [p1271_eq] at h ⊢
  rcases Nat.lt_or_ge (a.val + a.val) (2 ^ 127) with hlow | hhigh
  · -- the prime is odd
    rw [Nat.mod_eq_of_lt hlow, Nat.div_eq_of_lt hlow] at hval
    omega
  · have hdiv : (a.val + a.val) / 2 ^ 127 = 1 :=
      Nat.div_eq_of_lt_le (by rwa [Nat.one_mul]) (by clear hval; omega)
    have hmod := Nat.mod_add_div (a.val + a.val) (2 ^ 127)
    rw [hdiv] at hmod hval
    omega

/-- Where a product is the prime, neither factor is written as zero. -/
theorem fpmul1271_eq_prime (ha : a.val < 2 ^ 127) (hb : b.val < 2 ^ 127)
    (h : (fpmul1271 a b).val = p1271) : a.val ≠ 0 ∧ b.val ≠ 0 := by
  have hval := (fpmul1271_val ha hb).1
  have hpos : p1271 ≠ 0 := by decide
  refine ⟨fun hzero => hpos ?_, fun hzero => hpos ?_⟩
  · rw [← h, hval, hzero, Nat.zero_mul]
    rfl
  · rw [← h, hval, hzero, Nat.mul_zero]
    rfl

theorem isZeroHalf_iff (ha : a.val < 2 ^ 127) : isZeroHalf a = true ↔ a.val = 0 := by
  have hdigit (d : Digit) : (isDigitZeroCt d == 1) = true ↔ d = 0 := by
    rw [isDigitZeroCt_eq]
    by_cases hd : d = 0
    · rw [if_pos hd]
      exact ⟨fun _ => hd, fun _ => rfl⟩
    · rw [if_neg hd]
      exact ⟨fun h => absurd h (by decide), fun h => absurd h hd⟩
  have hfold (t : List Digit) : orDigits t = 0 ↔ value t = 0 :=
    (foldl_or_eq_zero 0 t).trans (and_iff_right rfl)
  -- the second test needs a top digit of all ones
  have hones : value (a.cells.map (· + 1)) ≠ 0 := by
    obtain ⟨cells, hsize⟩ := a
    match cells, hsize with
    | [c₀, c₁, c₂, c₃], _ =>
      change value [c₀, c₁, c₂, c₃] < 2 ^ 127 at ha
      show value [c₀ + 1, c₁ + 1, c₂ + 1, c₃ + 1] ≠ 0
      have htop := BitVec.toNat_add c₃ 1
      have hone : (1 : Digit).toNat = 1 := rfl
      simp only [Lib.Limbs.value_cons, Lib.Limbs.value_nil] at ha ⊢
      omega
  unfold isZeroHalf
  rw [Bool.or_eq_true, hdigit, hdigit, hfold, hfold, or_iff_left hones]
  exact Iff.rfl

/-! ## The curve equation -/

/-- The coordinates satisfy the curve equation. -/
def OnCurve (x y : Fp2) : Prop := -x ^ 2 + y ^ 2 = 1 + fourQCurve.d * x ^ 2 * y ^ 2

/-- The equation as `ecc_point_validate` has it. -/
theorem onCurve_iff (x y : Fp2) :
    OnCurve x y ↔ y * y - x * x = fourQCurve.d * (y * y * (x * x)) + 1 := by
  unfold OnCurve
  constructor
  · intro h
    linear_combination h
  · intro h
    linear_combination h

theorem d_im_ne_zero : fourQCurve.d.im ≠ 0 := by
  intro h
  have hval : fourQCurve.d.im.val ≠ 0 := by decide +kernel
  exact hval (by rw [h, ZMod.val_zero])

theorem OnCurve.neg {x y : Fp2} (h : OnCurve x y) : OnCurve (-x) y := by
  unfold OnCurve at h ⊢
  rwa [neg_sq]

/-- The second coordinate is 0, 1 or -1, with the prime for a zero half. -/
def OddlyWritten (y : F2elm) : Prop :=
  y.c1.val = p1271 ∧ (y.c0.val = 1 ∨ y.c0.val = p1271 - 1 ∨ y.c0.val = p1271)

section Validate

variable {P : PointExtproj} {x y : Fp2}

/-- A difference of zero that `ecc_point_validate` does not see. -/
def Unseen (P : PointExtproj) : Prop :=
  (fp2sqr1271 P.y).c1.val = p1271 ∧ (fp2sqr1271 P.x).c1.val = 0 ∧
    (fp2mul1271 parameterD (fp2mul1271 (fp2sqr1271 P.y) (fp2sqr1271 P.x))).c1.val = 0

/-- `ecc_point_validate`, exactly. -/
theorem eccPointValidate_iff (hx : Fp2Rep P.x x) (hy : Fp2Rep P.y y) :
    eccPointValidate P = true ↔ OnCurve x y ∧ ¬ Unseen P := by
  have hd : Fp2Rep parameterD fourQCurve.d := Fp2Rep.of_num (by decide +kernel)
  have hleft := hy.sqr.sub hx.sqr
  have hproduct := hd.mul (hy.sqr.mul hx.sqr)
  have hright := hproduct.add Fp2Rep.one
  have hrep := hleft.sub hright
  -- the real half of the right side is a sum with one, which is not written as zero
  have hre := (fpsub1271_eq_zero_iff hleft.re hright.re).trans (and_iff_left fun h =>
    absurd ((fpadd1271_eq_zero_iff hproduct.re.lt Fp2Rep.one.re.lt).mp h.2).2 (by decide))
  have hzero : fp2one.c1.val = 0 := rfl
  have hunseen : (fpsub1271 (fp2sqr1271 P.y).c1 (fp2sqr1271 P.x).c1).val = p1271 ∧
      (fpadd1271 (fp2mul1271 parameterD (fp2mul1271 (fp2sqr1271 P.y) (fp2sqr1271 P.x))).c1
        fp2one.c1).val = 0 ↔ Unseen P := by
    rw [fpsub1271_eq_prime_iff hy.sqr.im.lt hx.sqr.im.lt,
      fpadd1271_eq_zero_iff hproduct.im.lt Fp2Rep.one.im.lt, and_iff_left hzero, and_assoc]
    exact Iff.rfl
  have him := (fpsub1271_eq_zero_iff hleft.im hright.im).trans
    (and_congr_right fun _ => not_congr hunseen)
  unfold eccPointValidate
  dsimp only
  rw [Bool.and_eq_true, isZeroHalf_iff hrep.re.lt, isZeroHalf_iff hrep.im.lt, onCurve_iff,
    QuadraticAlgebra.ext_iff, and_assoc]
  exact and_congr hre him

/-- Where a square has the prime in its imaginary half. -/
theorem sqr_c1_eq_prime {a : F2elm} (ha : Fp2Rep a x) (h : (fp2sqr1271 a).c1.val = p1271) :
    x.re * x.im = 0 ∧ a.c0.val ≠ 0 ∧ a.c1.val ≠ 0 := by
  have hmul := ha.re.mul ha.im
  have hprime := fpadd1271_self_eq_prime hmul.lt h
  refine ⟨?_, fpmul1271_eq_prime ha.re.lt ha.im.lt hprime⟩
  rw [← hmul.eq, hprime]
  exact ZMod.natCast_self _

/-- The second coordinates behind an unseen zero: 0, 1 and -1, with the prime for a zero. -/
theorem unseen_coordinate (hx : Fp2Rep P.x x) (hy : Fp2Rep P.y y) (hon : OnCurve x y)
    (h : Unseen P) : P.y.c1.val = p1271 ∧ (P.y.c0.val = 1 ∨ P.y.c0.val = p1271 - 1 ∨
      P.y.c0.val = p1271) := by
  obtain ⟨hprime, hzero, -⟩ := h
  obtain ⟨hmul, hne0, hne1⟩ := sqr_c1_eq_prime hy hprime
  -- both squares are real, so one of them is zero
  have hxx : (x * x).im = 0 := by rw [← hx.sqr.im.eq, hzero, Nat.cast_zero]
  have hyy : (y * y).im = 0 := by
    rw [QuadraticAlgebra.im_mul]
    linear_combination 2 * hmul
  rw [onCurve_iff] at hon
  have hproduct : (y * y).re * (x * x).re = 0 := by
    have him := congrArg QuadraticAlgebra.im hon
    rw [QuadraticAlgebra.im_sub, QuadraticAlgebra.im_add, QuadraticAlgebra.im_mul fourQCurve.d,
      QuadraticAlgebra.re_mul (y * y), QuadraticAlgebra.im_mul (y * y), hxx, hyy,
      QuadraticAlgebra.im_one] at him
    refine (mul_eq_zero.mp ?_).resolve_left d_im_ne_zero
    linear_combination -him
  rcases mul_eq_zero.mp hproduct with hre | hre
  · -- `y = 0`
    have hy0 : y = 0 := mul_self_eq_zero.mp (QuadraticAlgebra.ext hre hyy)
    rw [hy0] at hy
    exact ⟨hy.im.eq_zero_or.resolve_left hne1, .inr (.inr (hy.re.eq_zero_or.resolve_left hne0))⟩
  · -- `x = 0` and `y = 1` or `y = -1`
    have hx0 : x * x = 0 := QuadraticAlgebra.ext hre hxx
    rw [hx0, mul_zero, mul_zero, sub_zero, zero_add] at hon
    rcases mul_self_eq_one_iff.mp hon with hy1 | hy1
    · rw [hy1] at hy
      refine ⟨hy.im.eq_zero_or.resolve_left hne1, .inl ?_⟩
      exact (hy.re.val_eq one_ne_zero).trans (by decide +kernel)
    · rw [hy1] at hy
      have him : FpRep P.y.c1 (-0) := hy.im
      rw [neg_zero] at him
      refine ⟨him.eq_zero_or.resolve_left hne1, .inr (.inl ?_)⟩
      exact (hy.re.val_eq (neg_ne_zero.mpr one_ne_zero)).trans (by decide +kernel)

end Validate

/-- `point_setup` and `ecc_point_validate`: right with any other second coordinate. -/
theorem eccPointValidate_pointSetup {a b : F2elm} {x y : Fp2} (hx : Fp2Rep a x) (hy : Fp2Rep b y) :
    (eccPointValidate (pointSetup ⟨a, b⟩) = true → OnCurve x y) ∧
      (OnCurve x y → ¬ OddlyWritten b → eccPointValidate (pointSetup ⟨a, b⟩) = true) := by
  have hiff : eccPointValidate (pointSetup ⟨a, b⟩) = true ↔ _ := eccPointValidate_iff hx hy
  rw [hiff]
  exact ⟨And.left, fun hon hplain =>
    ⟨hon, fun hunseen => hplain (unseen_coordinate (P := pointSetup ⟨a, b⟩) hx hy hon hunseen)⟩⟩

end QubicLedger
