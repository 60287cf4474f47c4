import QubicLedger.FourQ.Field
import Mathlib.Algebra.QuadraticAlgebra.Basic
import Mathlib.NumberTheory.LegendreSymbol.Basic

/-!
# The quadratic extension (`eccp2.c`)

An element of GF(p²) is a pair `a₀ + a₁ i` with `i² = -1`; that `-1` is no
square modulo the prime makes the pairs a field. `Fp2Rep` is `FpRep` on both
halves, and the functions on pairs compute the field operations.
-/

namespace QubicLedger

/-- `f2elm_t`: `a[0]` and `a[1]`. -/
structure F2elm where
  c0 : Felm
  c1 : Felm
  deriving DecidableEq

/-- GF(p²). -/
abbrev Fp2 := QuadraticAlgebra Fp (-1) 0

theorem p1271_mod_four : p1271 % 4 = 3 := rfl

/-- `-1` is no square modulo the prime. -/
instance : Fact (∀ r : Fp, r ^ 2 ≠ -1 + 0 * r) := ⟨by
  intro r hr
  refine ZMod.exists_sq_eq_neg_one_iff.mp ⟨r, ?_⟩ p1271_mod_four
  rw [← pow_two, hr, zero_mul, add_zero]⟩

/-! ## The functions -/

/-- `fp2zero1271`. -/
def fp2zero1271 : F2elm := ⟨fpzero1271, fpzero1271⟩

/-- `fp2neg1271`. -/
def fp2neg1271 (a : F2elm) : F2elm := ⟨fpneg1271 a.c0, fpneg1271 a.c1⟩

/-- `fp2sqr1271`. -/
def fp2sqr1271 (a : F2elm) : F2elm :=
  let t1 := fpadd1271 a.c0 a.c1
  let t2 := fpsub1271 a.c0 a.c1
  let t3 := fpmul1271 a.c0 a.c1
  ⟨fpmul1271 t1 t2, fpadd1271 t3 t3⟩

/-- `fp2mul1271`. -/
def fp2mul1271 (a b : F2elm) : F2elm :=
  let t1 := fpmul1271 a.c0 b.c0
  let t2 := fpmul1271 a.c1 b.c1
  let t3 := fpadd1271 a.c0 a.c1
  let t4 := fpadd1271 b.c0 b.c1
  let t3 := fpmul1271 t3 t4
  let t3' := fpsub1271 t3 t1
  ⟨fpsub1271 t1 t2, fpsub1271 t3' t2⟩

/-- `fp2add1271`. -/
def fp2add1271 (a b : F2elm) : F2elm := ⟨fpadd1271 a.c0 b.c0, fpadd1271 a.c1 b.c1⟩

/-- `fp2sub1271`. -/
def fp2sub1271 (a b : F2elm) : F2elm := ⟨fpsub1271 a.c0 b.c0, fpsub1271 a.c1 b.c1⟩

/-- `fp2inv1271`. -/
def fp2inv1271 (a : F2elm) : F2elm :=
  let t := fpinv1271 (fpadd1271 (fpsqr1271 a.c0) (fpsqr1271 a.c1))
  ⟨fpmul1271 a.c0 t, fpmul1271 (fpneg1271 a.c1) t⟩

/-- `fp2div1271`. -/
def fp2div1271 (a : F2elm) : F2elm := ⟨fpdiv1271 a.c0, fpdiv1271 a.c1⟩

/-- `mod1271` on both halves. -/
def fp2mod1271 (a : F2elm) : F2elm := ⟨mod1271 a.c0, mod1271 a.c1⟩

/-- `fp2zero1271(z); z[0][0] = 1`. -/
def fp2one : F2elm := ⟨⟨[1, 0, 0, 0], rfl⟩, fpzero1271⟩

/-! ## What they compute -/

/-- The pair stands for the element. -/
structure Fp2Rep (a : F2elm) (x : Fp2) : Prop where
  re : FpRep a.c0 x.re
  im : FpRep a.c1 x.im

variable {a b : F2elm} {x y : Fp2}

theorem Fp2Rep.zero : Fp2Rep fp2zero1271 0 := ⟨FpRep.zero, FpRep.zero⟩

theorem Fp2Rep.one : Fp2Rep fp2one 1 := ⟨⟨by decide, rfl⟩, FpRep.zero⟩

/-- `fp2neg1271`. -/
theorem Fp2Rep.neg (ha : Fp2Rep a x) : Fp2Rep (fp2neg1271 a) (-x) := ⟨ha.re.neg, ha.im.neg⟩

/-- `fp2add1271`. -/
theorem Fp2Rep.add (ha : Fp2Rep a x) (hb : Fp2Rep b y) : Fp2Rep (fp2add1271 a b) (x + y) :=
  ⟨ha.re.add hb.re, ha.im.add hb.im⟩

/-- `fp2sub1271`. -/
theorem Fp2Rep.sub (ha : Fp2Rep a x) (hb : Fp2Rep b y) : Fp2Rep (fp2sub1271 a b) (x - y) :=
  ⟨ha.re.sub hb.re, ha.im.sub hb.im⟩

/-- `fp2mul1271`: three multiplications for the four products. -/
theorem Fp2Rep.mul (ha : Fp2Rep a x) (hb : Fp2Rep b y) : Fp2Rep (fp2mul1271 a b) (x * y) := by
  have h1 := ha.re.mul hb.re
  have h2 := ha.im.mul hb.im
  have h3 := (ha.re.add ha.im).mul (hb.re.add hb.im)
  have hre : (x * y).re = x.re * y.re - x.im * y.im := by
    rw [QuadraticAlgebra.re_mul]
    ring
  have him : (x * y).im = (x.re + x.im) * (y.re + y.im) - x.re * y.re - x.im * y.im := by
    rw [QuadraticAlgebra.im_mul]
    ring
  refine ⟨?_, ?_⟩
  · rw [hre]
    exact h1.sub h2
  · rw [him]
    exact (h3.sub h1).sub h2

/-- `fp2sqr1271`. -/
theorem Fp2Rep.sqr (ha : Fp2Rep a x) : Fp2Rep (fp2sqr1271 a) (x * x) := by
  have h3 := ha.re.mul ha.im
  have hre : (x * x).re = (x.re + x.im) * (x.re - x.im) := by
    rw [QuadraticAlgebra.re_mul]
    ring
  have him : (x * x).im = x.re * x.im + x.re * x.im := by
    rw [QuadraticAlgebra.im_mul]
    ring
  refine ⟨?_, ?_⟩
  · rw [hre]
    exact (ha.re.add ha.im).mul (ha.re.sub ha.im)
  · rw [him]
    exact h3.add h3

/-- `fp2inv1271`: the conjugate over the norm, and zero for zero. -/
theorem Fp2Rep.inv (ha : Fp2Rep a x) : Fp2Rep (fp2inv1271 a) x⁻¹ := by
  have hnorm := (ha.re.sqr.add ha.im.sqr).inv
  have hval : QuadraticAlgebra.norm x = x.re ^ 2 + x.im ^ 2 := by
    rw [QuadraticAlgebra.norm_def]
    ring
  have hre : (x⁻¹).re = x.re * (x.re ^ 2 + x.im ^ 2)⁻¹ := by
    rw [QuadraticAlgebra.inv_def, QuadraticAlgebra.re_smul, hval, QuadraticAlgebra.re_star,
      smul_eq_mul]
    ring
  have him : (x⁻¹).im = -x.im * (x.re ^ 2 + x.im ^ 2)⁻¹ := by
    rw [QuadraticAlgebra.inv_def, QuadraticAlgebra.im_smul, hval, QuadraticAlgebra.im_star,
      smul_eq_mul]
    ring
  refine ⟨?_, ?_⟩
  · rw [hre]
    exact ha.re.mul hnorm
  · rw [him]
    exact ha.im.neg.mul hnorm

theorem two_ne_zero_fp2 : (2 : Fp2) ≠ 0 := by
  intro h
  exact two_ne_zero_fp (congrArg QuadraticAlgebra.re h)

/-- `fp2div1271` halves. -/
theorem Fp2Rep.div (ha : Fp2Rep a x) (h : x = y + y) : Fp2Rep (fp2div1271 a) y := by
  have hhalf (z : Fp) : (z + z) / 2 = z := by
    rw [← two_mul, mul_div_cancel_left₀ _ two_ne_zero_fp]
  have hre := ha.re.div
  have him := ha.im.div
  rw [h, QuadraticAlgebra.re_add, hhalf] at hre
  rw [h, QuadraticAlgebra.im_add, hhalf] at him
  exact ⟨hre, him⟩

/-- `mod1271` leaves the one representation of the element. -/
theorem Fp2Rep.mod (ha : Fp2Rep a x) :
    Fp2Rep (fp2mod1271 a) x ∧
    (fp2mod1271 a).c0.val = x.re.val ∧ (fp2mod1271 a).c1.val = x.im.val :=
  ⟨⟨ha.re.mod1271.1, ha.im.mod1271.1⟩, ha.re.mod1271.2, ha.im.mod1271.2⟩

end QubicLedger
