import QubicLedger.FourQ.Quadratic
import QubicLedger.FourQ.Order
import QubicLedger.Lib.Edwards
import Mathlib.Tactic.NormNum.LegendreSymbol

/-!
# The curve (`FourQ_params.h`, `eccp2.c`)

The parameter `d` is no square in GF(p²), so the addition law is complete and
the functions on points need no case for equal or opposite points. `eccdouble`
and `eccmadd` run the formulas of `Lib.Ext` on digits; `PointRep` says which
point of the curve a record of digits stands for, and each function has one
lemma in terms of it.
-/

namespace QubicLedger

open Lib (FixedBuf Ext Precomp EdwardsCurve)
open Lib.EdwardsCurve (ExtIs PrecompIs)
open Lib.Limbs (value)

/-! ## The constants -/

/-- A field element given as two 64-bit words. -/
def felmOf64 (w₀ w₁ : BitVec 64) : Felm := ⟨digitsOf64 [w₀, w₁], rfl⟩

/-- An element of GF(p²) given as four 64-bit words. -/
def f2elmOf64 (w₀ w₁ w₂ w₃ : BitVec 64) : F2elm := ⟨felmOf64 w₀ w₁, felmOf64 w₂ w₃⟩

/-- `PARAMETER_d`. -/
def parameterD : F2elm :=
  f2elmOf64 0x0000000000000142 0x00000000000000E4 0xB3821488F1FC0C8D 0x5E472F846657E0FC

/-- `GENERATOR_x`. -/
def generatorX : F2elm :=
  f2elmOf64 0x286592AD7B3833AA 0x1A3472237C2FB305 0x96869FB360AC77F6 0x1E1F553F2878AA9C

/-- `GENERATOR_y`. -/
def generatorY : F2elm :=
  f2elmOf64 0xB924A2462BCBB287 0x0E3FEE9BA120785A 0x49A7C344844C8B5C 0x6E1C4AF8630E0242

/-! ## The functions -/

/-- `point_affine`. -/
structure PointAffine where
  x : F2elm
  y : F2elm
  deriving DecidableEq

/-- `point_extproj`. -/
abbrev PointExtproj := Ext F2elm

/-- `point_precomp`. -/
abbrev PointPrecomp := Precomp F2elm

/-- `eccset`. -/
def eccset : PointAffine := ⟨generatorX, generatorY⟩

/-- `eccnorm`. -/
def eccnorm (P : PointExtproj) : PointAffine :=
  let z := fp2inv1271 P.z
  ⟨fp2mod1271 (fp2mul1271 P.x z), fp2mod1271 (fp2mul1271 P.y z)⟩

/-- `R5_to_R1`. -/
def r5ToR1 (P : PointPrecomp) : PointExtproj :=
  let x := fp2div1271 (fp2sub1271 P.xy P.yx)
  let y := fp2div1271 (fp2add1271 P.xy P.yx)
  { x := x, y := y, z := fp2one, ta := x, tb := y }

/-- `eccdouble`. -/
def eccdouble (P : PointExtproj) : PointExtproj :=
  let t1 := fp2sqr1271 P.x
  let t2 := fp2sqr1271 P.y
  let x := fp2add1271 P.x P.y
  let tb := fp2add1271 t1 t2
  let t1 := fp2sub1271 t2 t1
  let t2 := fp2sqr1271 P.z
  let ta := fp2sqr1271 x
  let t2 := fp2add1271 t2 t2
  let ta := fp2sub1271 ta tb
  let t2 := fp2sub1271 t2 t1
  { x := fp2mul1271 t2 ta, y := fp2mul1271 t1 tb, z := fp2mul1271 t1 t2, ta := ta, tb := tb }

/-- `eccmadd`. -/
def eccmadd (Q : PointPrecomp) (P : PointExtproj) : PointExtproj :=
  let ta := fp2mul1271 P.ta P.tb
  let t1 := fp2add1271 P.z P.z
  let ta := fp2mul1271 ta Q.t2
  let z := fp2add1271 P.x P.y
  let tb := fp2sub1271 P.y P.x
  let t2 := fp2sub1271 t1 ta
  let t1 := fp2add1271 t1 ta
  let ta := fp2mul1271 Q.xy z
  let x := fp2mul1271 Q.yx tb
  let z := fp2mul1271 t1 t2
  let tb := fp2sub1271 ta x
  let ta := fp2add1271 ta x
  { x := fp2mul1271 tb t2, y := fp2mul1271 ta t1, z := z, ta := ta, tb := tb }

/-! ## Numbers for the kernel

The constants are checked by computation. `Num2` is GF(p²) on pairs of natural
numbers, which evaluates fast; `toFp2` carries its results over. -/

/-- A pair of numbers below the prime. -/
@[ext]
structure Num2 where
  re : Nat
  im : Nat
  deriving DecidableEq

namespace Num2

instance : Add Num2 := ⟨fun a b => ⟨(a.re + b.re) % p1271, (a.im + b.im) % p1271⟩⟩
instance : Sub Num2 :=
  ⟨fun a b => ⟨(a.re + (p1271 - b.re % p1271)) % p1271, (a.im + (p1271 - b.im % p1271)) % p1271⟩⟩
instance : Mul Num2 :=
  ⟨fun a b => ⟨(a.re * b.re + (p1271 - a.im * b.im % p1271)) % p1271,
    (a.re * b.im + a.im * b.re) % p1271⟩⟩

/-- The element of GF(p²). -/
def toFp2 (a : Num2) : Fp2 := ⟨a.re, a.im⟩

theorem toFp2_add (a b : Num2) : (a + b).toFp2 = a.toFp2 + b.toFp2 := by
  refine QuadraticAlgebra.ext ?_ ?_
  · show ((_ % p1271 : Nat) : Fp) = _
    rw [ZMod.natCast_mod, Nat.cast_add]
    rfl
  · show ((_ % p1271 : Nat) : Fp) = _
    rw [ZMod.natCast_mod, Nat.cast_add]
    rfl

private theorem cast_complement (n : Nat) : ((p1271 - n % p1271 : Nat) : Fp) = -(n : Fp) := by
  have hlt : n % p1271 < p1271 := Nat.mod_lt _ (by decide)
  rw [Nat.cast_sub hlt.le, ZMod.natCast_self, ZMod.natCast_mod, zero_sub]

theorem toFp2_sub (a b : Num2) : (a - b).toFp2 = a.toFp2 - b.toFp2 := by
  refine QuadraticAlgebra.ext ?_ ?_
  · show ((_ % p1271 : Nat) : Fp) = _
    rw [ZMod.natCast_mod, Nat.cast_add, cast_complement, ← sub_eq_add_neg]
    rfl
  · show ((_ % p1271 : Nat) : Fp) = _
    rw [ZMod.natCast_mod, Nat.cast_add, cast_complement, ← sub_eq_add_neg]
    rfl

theorem toFp2_mul (a b : Num2) : (a * b).toFp2 = a.toFp2 * b.toFp2 := by
  refine QuadraticAlgebra.ext ?_ ?_
  · show ((_ % p1271 : Nat) : Fp) = _
    rw [ZMod.natCast_mod, Nat.cast_add, cast_complement, Nat.cast_mul, Nat.cast_mul,
      QuadraticAlgebra.re_mul]
    show _ = (a.re : Fp) * b.re + -1 * a.im * b.im
    ring
  · show ((_ % p1271 : Nat) : Fp) = _
    rw [ZMod.natCast_mod, Nat.cast_add, Nat.cast_mul, Nat.cast_mul, QuadraticAlgebra.im_mul]
    show _ = (a.re : Fp) * b.im + a.im * b.re + 0 * a.im * b.im
    ring

end Num2

/-- The two halves as numbers. -/
def F2elm.num (a : F2elm) : Num2 := ⟨a.c0.val, a.c1.val⟩

/-- Digits below `2¹²⁷` stand for their own value. -/
theorem Fp2Rep.of_num {a : F2elm} (h : a.num.re < 2 ^ 127 ∧ a.num.im < 2 ^ 127) :
    Fp2Rep a a.num.toFp2 :=
  ⟨⟨h.1, rfl⟩, ⟨h.2, rfl⟩⟩

def Num2.one : Num2 := ⟨1, 0⟩

theorem Num2.toFp2_one : Num2.one.toFp2 = 1 :=
  QuadraticAlgebra.ext Nat.cast_one Nat.cast_zero

/-! ## The curve -/

/-- The norm of `d` is no square modulo the prime. -/
theorem normD_nonsquare :
    ¬ IsSquare ((parameterD.num.re ^ 2 + parameterD.num.im ^ 2 : Nat) : Fp) := by
  have hnum : (parameterD.num.re ^ 2 + parameterD.num.im ^ 2) % p1271
      = 170141183460469230846243588177825628091 := by decide +kernel
  have hjacobi : jacobiSym 170141183460469230846243588177825628091
      170141183460469231731687303715884105727 = -1 := by norm_num
  rw [← ZMod.natCast_mod, hnum]
  exact ZMod.nonsquare_of_jacobiSym_eq_neg_one
    (a := 170141183460469230846243588177825628091) hjacobi

/-- A square root of `d` would give one of its norm. -/
theorem sq_ne_parameterD (r : Fp2) : r ^ 2 ≠ parameterD.num.toFp2 := by
  intro h
  refine normD_nonsquare ⟨QuadraticAlgebra.norm r, ?_⟩
  have hnorm := congrArg QuadraticAlgebra.norm h
  rw [map_pow, pow_two, QuadraticAlgebra.norm_def parameterD.num.toFp2] at hnorm
  rw [hnorm, Nat.cast_add, Nat.cast_pow, Nat.cast_pow]
  show _ = (parameterD.num.re : Fp) * parameterD.num.re + 0 * parameterD.num.re * parameterD.num.im
    - -1 * parameterD.num.im * parameterD.num.im
  ring

/-- FourQ. -/
def fourQCurve : EdwardsCurve Fp2 where
  d := parameterD.num.toFp2
  i := ⟨0, 1⟩
  i_sq := by
    rw [pow_two, QuadraticAlgebra.mk_mul_mk]
    refine QuadraticAlgebra.ext ?_ ?_
    · show (0 : Fp) * 0 + -1 * 1 * 1 = -1
      ring
    · show (0 : Fp) * 1 + 1 * 0 + 0 * 1 * 1 = -0
      ring
  sq_ne_d := sq_ne_parameterD
  two_ne_zero := two_ne_zero_fp2

/-- The coordinates of the generator satisfy the equation. -/
theorem generator_on_curve :
    -generatorX.num.toFp2 ^ 2 + generatorY.num.toFp2 ^ 2
      = 1 + fourQCurve.d * generatorX.num.toFp2 ^ 2 * generatorY.num.toFp2 ^ 2 := by
  have hnum : generatorY.num * generatorY.num - generatorX.num * generatorX.num
      = Num2.one + parameterD.num * (generatorX.num * generatorX.num)
        * (generatorY.num * generatorY.num) := by decide +kernel
  have h := congrArg Num2.toFp2 hnum
  simp only [Num2.toFp2_add, Num2.toFp2_sub, Num2.toFp2_mul, Num2.toFp2_one] at h
  show -generatorX.num.toFp2 ^ 2 + generatorY.num.toFp2 ^ 2
      = 1 + parameterD.num.toFp2 * generatorX.num.toFp2 ^ 2 * generatorY.num.toFp2 ^ 2
  linear_combination h

/-- The generator. -/
def generator : fourQCurve.Point := ⟨generatorX.num.toFp2, generatorY.num.toFp2, generator_on_curve⟩

/-! ## Points as digits -/

/-- The coordinates stand for those of `P'`. -/
structure ExtRep (P : PointExtproj) (P' : Ext Fp2) : Prop where
  x : Fp2Rep P.x P'.x
  y : Fp2Rep P.y P'.y
  z : Fp2Rep P.z P'.z
  ta : Fp2Rep P.ta P'.ta
  tb : Fp2Rep P.tb P'.tb

/-- The prepared coordinates stand for those of `P'`. -/
structure PrecompRep (P : PointPrecomp) (P' : Precomp Fp2) : Prop where
  xy : Fp2Rep P.xy P'.xy
  yx : Fp2Rep P.yx P'.yx
  t2 : Fp2Rep P.t2 P'.t2

/-- The digits stand for the point. -/
def PointRep (P : PointExtproj) (Q : fourQCurve.Point) : Prop := ∃ P', ExtRep P P' ∧ ExtIs P' Q

/-- The prepared digits stand for the point. -/
def PreparedRep (P : PointPrecomp) (Q : fourQCurve.Point) : Prop :=
  ∃ P', PrecompRep P P' ∧ PrecompIs P' Q

/-- The digits are the coordinates of the point, each in its one representation. -/
structure AffineRep (P : PointAffine) (Q : fourQCurve.Point) : Prop where
  x_re : P.x.c0.val = Q.x.re.val
  x_im : P.x.c1.val = Q.x.im.val
  y_re : P.y.c0.val = Q.y.re.val
  y_im : P.y.c1.val = Q.y.im.val

variable {P : PointExtproj} {S : PointPrecomp} {Q Q' : fourQCurve.Point}

/-- `eccset` is the generator. -/
theorem AffineRep.eccset : AffineRep eccset generator :=
  ⟨by decide +kernel, by decide +kernel, by decide +kernel, by decide +kernel⟩

/-- `eccdouble`, for every point. -/
theorem PointRep.double (h : PointRep P Q) : PointRep (eccdouble P) (Q + Q) := by
  obtain ⟨P', hrep, his⟩ := h
  refine ⟨P'.double, ?_, his.double⟩
  have ht1 := hrep.y.sqr.sub hrep.x.sqr
  have htb := hrep.x.sqr.add hrep.y.sqr
  have hta := (hrep.x.add hrep.y).sqr.sub htb
  have ht2 := (hrep.z.sqr.add hrep.z.sqr).sub ht1
  exact ⟨ht2.mul hta, ht1.mul htb, ht1.mul ht2, hta, htb⟩

/-- `eccmadd`, for every pair of points. -/
theorem PointRep.madd (h : PointRep P Q) (hS : PreparedRep S Q') :
    PointRep (eccmadd S P) (Q + Q') := by
  obtain ⟨P', hrep, his⟩ := h
  obtain ⟨S', hrep', his'⟩ := hS
  refine ⟨P'.madd S', ?_, his.madd his'⟩
  have ht := (hrep.ta.mul hrep.tb).mul hrep'.t2
  have htheta := (hrep.z.add hrep.z).sub ht
  have halpha := (hrep.z.add hrep.z).add ht
  have hu := hrep'.xy.mul (hrep.x.add hrep.y)
  have hv := hrep'.yx.mul (hrep.y.sub hrep.x)
  refine ⟨(hu.sub hv).mul htheta, (hu.add hv).mul halpha, halpha.mul htheta, hu.add hv, hu.sub hv⟩

/-- `R5_to_R1`. -/
theorem PointRep.r5ToR1 (hS : PreparedRep S Q) : PointRep (r5ToR1 S) Q := by
  obtain ⟨S', hrep, his⟩ := hS
  have hx : Fp2Rep (fp2div1271 (fp2sub1271 S.xy S.yx)) Q.x := by
    refine (hrep.xy.sub hrep.yx).div ?_
    rw [his.xy_eq, his.yx_eq]
    ring
  have hy : Fp2Rep (fp2div1271 (fp2add1271 S.xy S.yx)) Q.y := by
    refine (hrep.xy.add hrep.yx).div ?_
    rw [his.xy_eq, his.yx_eq]
    ring
  exact ⟨⟨Q.x, Q.y, 1, Q.x, Q.y⟩, ⟨hx, hy, Fp2Rep.one, hx, hy⟩, ExtIs.of_affine Q⟩

/-- `eccnorm`: the affine coordinates, fully reduced. -/
theorem AffineRep.eccnorm (h : PointRep P Q) : AffineRep (eccnorm P) Q := by
  obtain ⟨P', hrep, his⟩ := h
  have hx := (hrep.x.mul hrep.z.inv).mod
  have hy := (hrep.y.mul hrep.z.inv).mod
  rw [his.x_eq, mul_inv_cancel_right₀ his.z_ne] at hx
  rw [his.y_eq, mul_inv_cancel_right₀ his.z_ne] at hy
  exact ⟨hx.2.1, hx.2.2, hy.2.1, hy.2.2⟩

/-- No two points have the same digits. -/
theorem AffineRep.unique {p : PointAffine} (h : AffineRep p Q) (h' : AffineRep p Q') : Q = Q' := by
  refine EdwardsCurve.Point.ext ?_ ?_
  · exact QuadraticAlgebra.ext (ZMod.val_injective _ (h.x_re.symm.trans h'.x_re))
      (ZMod.val_injective _ (h.x_im.symm.trans h'.x_im))
  · exact QuadraticAlgebra.ext (ZMod.val_injective _ (h.y_re.symm.trans h'.y_re))
      (ZMod.val_injective _ (h.y_im.symm.trans h'.y_im))

end QubicLedger
