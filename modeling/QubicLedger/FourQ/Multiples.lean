import QubicLedger.FourQ.Table
import QubicLedger.Lib.Pratt
import Mathlib.Algebra.BigOperators.Intervals
import Mathlib.Tactic.NormNum.Prime

/-!
# Multiples of the generator

Entry `u` of block `b` of the fixed-base table is the generator times
`2¹⁰ᵇ (1 + Σ uᵣ 2⁵⁰⁽ʳ⁺¹⁾)`, where `uᵣ` are the four bits of `u`, and the generator
times the order is the neutral point. Both are checked by running the formulas
of the curve on `Num2`; every entry is compared with one mixed addition to an
entry already known. The order is a prime, so no smaller multiple is neutral.
-/

namespace QubicLedger

open Lib (Ext Precomp EdwardsCurve appendBits)
open Lib.EdwardsCurve (ExtIs PrecompIs)

/-! ## Runs on numbers -/

/-- The generator in extended coordinates. -/
def generatorExt : Ext Num2 :=
  ⟨generatorX.num, generatorY.num, Num2.one, generatorX.num, generatorY.num⟩

theorem generatorExt_is : ExtIs (generatorExt.map Num2.toFp2) generator := by
  have h := ExtIs.of_affine generator
  rw [← Num2.toFp2_one] at h
  exact h

/-- The numbers of a prepared point. -/
def PointPrecomp.num (e : PointPrecomp) : Precomp Num2 := ⟨e.xy.num, e.yx.num, e.t2.num⟩

/-- The numbers are those of field elements. -/
def PointPrecomp.Bounded (e : PointPrecomp) : Prop :=
  (e.xy.num.re < 2 ^ 127 ∧ e.xy.num.im < 2 ^ 127) ∧
  (e.yx.num.re < 2 ^ 127 ∧ e.yx.num.im < 2 ^ 127) ∧
  (e.t2.num.re < 2 ^ 127 ∧ e.t2.num.im < 2 ^ 127)

instance (e : PointPrecomp) : Decidable e.Bounded := inferInstanceAs (Decidable (_ ∧ _ ∧ _))

/-- The prepared numbers are those of the point in extended coordinates. -/
def Prepares (P : Ext Num2) (e : Precomp Num2) : Prop :=
  e.xy * P.z = P.x + P.y ∧ e.yx * P.z = P.y - P.x ∧
  e.t2 * P.z = (parameterD.num + parameterD.num) * (P.ta * P.tb)

instance (P : Ext Num2) (e : Precomp Num2) : Decidable (Prepares P e) :=
  inferInstanceAs (Decidable (_ ∧ _ ∧ _))

variable {P : Ext Num2} {e : Precomp Num2} {Q : fourQCurve.Point}

/-- The comparison carries over to the curve. -/
theorem Prepares.is (h : Prepares P e) (hP : ExtIs (P.map Num2.toFp2) Q) :
    PrecompIs (e.map Num2.toFp2) Q := by
  obtain ⟨hxy, hyx, ht2⟩ := h
  have hx : P.x.toFp2 = Q.x * P.z.toFp2 := hP.x_eq
  have hy : P.y.toFp2 = Q.y * P.z.toFp2 := hP.y_eq
  have ht : P.ta.toFp2 * P.tb.toFp2 = Q.x * Q.y * P.z.toFp2 := hP.t_eq
  replace hxy := congrArg Num2.toFp2 hxy
  replace hyx := congrArg Num2.toFp2 hyx
  replace ht2 := congrArg Num2.toFp2 ht2
  rw [Num2.toFp2_mul, Num2.toFp2_add, hx, hy] at hxy
  rw [Num2.toFp2_mul, Num2.toFp2_sub, hx, hy] at hyx
  rw [Num2.toFp2_mul, Num2.toFp2_mul, Num2.toFp2_mul, Num2.toFp2_add, ht] at ht2
  refine ⟨mul_right_cancel₀ hP.z_ne ?_, mul_right_cancel₀ hP.z_ne ?_,
    mul_right_cancel₀ hP.z_ne ?_⟩
  · show e.xy.toFp2 * P.z.toFp2 = (Q.x + Q.y) * P.z.toFp2
    rw [hxy]
    ring
  · show e.yx.toFp2 * P.z.toFp2 = (Q.y - Q.x) * P.z.toFp2
    rw [hyx]
    ring
  · show e.t2.toFp2 * P.z.toFp2 = 2 * parameterD.num.toFp2 * Q.x * Q.y * P.z.toFp2
    rw [ht2]
    ring

theorem generatorDoubles_is (n : Nat) :
    ExtIs ((generatorExt.doubles n).map Num2.toFp2) (2 ^ n • generator) := by
  rw [Ext.map_doubles Num2.toFp2_add Num2.toFp2_sub Num2.toFp2_mul]
  exact generatorExt_is.doubles n

/-! ## The order -/

/-- The generator prepared for mixed additions: the first entry of the table. -/
def generatorPrepared : Precomp Num2 := (fixedBaseTable.getD 0 ⟨fp2one, fp2one, fp2one⟩).num

theorem generatorPrepared_is : PrecompIs (generatorPrepared.map Num2.toFp2) generator :=
  Prepares.is (P := generatorExt) (by decide +kernel) generatorExt_is

/-- The bits of `n` below bit `len`, the highest first. -/
def bitsBelow (n len : Nat) : List Bool := (List.range len).map fun i => n.testBit (len - 1 - i)

/-- The generator times `n` has the coordinates `x` and `y`, by a run over the
bits of `n` below its highest. -/
structure RunsTo (n len : Nat) (x y : Num2) : Prop where
  bits : appendBits 1 (bitsBelow n len) = n
  x : (generatorExt.doubleAndAdd generatorPrepared (bitsBelow n len)).x
    = x * (generatorExt.doubleAndAdd generatorPrepared (bitsBelow n len)).z
  y : (generatorExt.doubleAndAdd generatorPrepared (bitsBelow n len)).y
    = y * (generatorExt.doubleAndAdd generatorPrepared (bitsBelow n len)).z

instance (n len : Nat) (x y : Num2) : Decidable (RunsTo n len x y) :=
  decidable_of_iff (_ ∧ _ ∧ _) ⟨fun h => ⟨h.1, h.2.1, h.2.2⟩, fun h => ⟨h.bits, h.x, h.y⟩⟩

theorem RunsTo.coordinates {n len : Nat} {x y : Num2} (h : RunsTo n len x y) :
    (n • generator).x = x.toFp2 ∧ (n • generator).y = y.toFp2 := by
  have hrun := (ExtIs.doubleAndAdd (n := 1) (one_nsmul generator ▸ generatorExt_is)
    generatorPrepared_is (bitsBelow n len))
  rw [h.bits, ← Ext.map_doubleAndAdd Num2.toFp2_add Num2.toFp2_sub Num2.toFp2_mul] at hrun
  have hx := congrArg Num2.toFp2 h.x
  have hy := congrArg Num2.toFp2 h.y
  rw [Num2.toFp2_mul] at hx hy
  exact ⟨mul_right_cancel₀ hrun.z_ne (hrun.x_eq.symm.trans hx),
    mul_right_cancel₀ hrun.z_ne (hrun.y_eq.symm.trans hy)⟩

/-- The generator times the order is the neutral point. -/
theorem order_nsmul_generator : order • generator = 0 := by
  have hrun : RunsTo order 245 ⟨0, 0⟩ Num2.one := by decide +kernel
  obtain ⟨hx, hy⟩ := hrun.coordinates
  have hzero : Num2.toFp2 ⟨0, 0⟩ = 0 := QuadraticAlgebra.ext Nat.cast_zero Nat.cast_zero
  exact EdwardsCurve.Point.ext (hx.trans hzero) (hy.trans Num2.toFp2_one)

/-- Multiples of the generator depend on the residue modulo the order. -/
theorem zsmul_generator_congr {m n : ℤ} (h : m ≡ n [ZMOD order]) :
    m • generator = n • generator := by
  obtain ⟨k, hk⟩ := h.dvd
  rw [show n = m + k * order by rw [mul_comm]; omega, add_zsmul, mul_zsmul, natCast_zsmul,
    order_nsmul_generator, zsmul_zero, add_zero]

theorem generator_ne_zero : generator ≠ 0 := by
  intro h
  have hx : generatorX.num.toFp2.re = 0 := congrArg (fun Q => QuadraticAlgebra.re Q.x) h
  have hval : (generatorX.num.re : Fp) = 0 := hx
  rw [ZMod.natCast_eq_zero_iff] at hval
  exact absurd hval (by decide +kernel)

/-- The primes that the certificate of the order starts from. -/
def smallPrimes : List Nat :=
  [2, 3, 5, 11, 17, 29, 31, 101, 149, 157, 257, 263, 2377, 3253, 4931, 29833, 103043, 374093,
    1556657, 1576049, 5948609, 7355633]

theorem smallPrimes_prime : ∀ q ∈ smallPrimes, q.Prime := by
  unfold smallPrimes
  simp only [List.forall_mem_cons]
  norm_num

/-- The certificate of the order. -/
def orderCertificate : List Lib.Entry :=
  [⟨9560163629, 2, [2, 2, 149, 3253, 4931]⟩,
    ⟨349523429, 2, [2, 2, 29, 101, 29833]⟩,
    ⟨366671478348367, 5, [2, 3, 31, 31, 157, 257, 1576049]⟩,
    ⟨29633655537158324207, 5, [2, 17, 2377, 366671478348367]⟩,
    ⟨95178976488652476489556669482413803056485341, 6,
      [2, 2, 3, 5, 263, 374093, 1556657, 349523429, 29633655537158324207]⟩,
    ⟨order, 6, [2, 3, 3, 103043, 5948609, 7355633, 9560163629,
      95178976488652476489556669482413803056485341]⟩]

theorem order_prime : order.Prime := by
  have hcert : Lib.Certifies 246 smallPrimes orderCertificate := by decide +kernel
  exact hcert.prime smallPrimes_prime _ (List.getLast_mem (List.cons_ne_nil _ _))

/-- No smaller multiple is neutral. -/
theorem addOrderOf_generator : addOrderOf generator = order := by
  have : Fact order.Prime := ⟨order_prime⟩
  exact addOrderOf_eq_prime order_nsmul_generator generator_ne_zero

theorem zsmul_generator_eq_zero_iff {n : ℤ} : n • generator = 0 ↔ (order : ℤ) ∣ n := by
  rw [← addOrderOf_generator, addOrderOf_dvd_iff_zsmul_eq_zero]

/-! ## The table -/

/-- An entry of the table. -/
def tableEntry (b u : Nat) : PointPrecomp :=
  fixedBaseTable.getD (16 * b + u) ⟨fp2zero1271, fp2zero1271, fp2zero1271⟩

/-- The bits of `u` at distance 50, above a one. -/
def combWeight (u : Nat) : Nat := 1 + ∑ r ∈ Finset.range 4, u / 2 ^ r % 2 * 2 ^ (50 * (r + 1))

theorem combWeight_zero : combWeight 0 = 1 := by decide +kernel

/-- Setting the bit above the highest. -/
theorem combWeight_add {r u : Nat} (hr : r < 4) (hu : u < 2 ^ r) :
    combWeight (u + 2 ^ r) = 2 ^ (50 * (r + 1)) + combWeight u := by
  have hall : ∀ r < 4, ∀ u < 2 ^ r,
      combWeight (u + 2 ^ r) = 2 ^ (50 * (r + 1)) + combWeight u := by decide +kernel
  exact hall r hr u hu

theorem tableEntry_bounded {b u : Nat} (hb : b < 5) (hu : u < 16) : (tableEntry b u).Bounded := by
  have hall : ∀ b < 5, ∀ u < 16, (tableEntry b u).Bounded := by decide +kernel
  exact hall b hb u hu

/-- The first entry of a block. -/
theorem tableEntry_zero {b : Nat} (hb : b < 5) :
    Prepares (generatorExt.doubles (10 * b)) (tableEntry b 0).num := by
  have hall : ∀ b < 5, Prepares (generatorExt.doubles (10 * b)) (tableEntry b 0).num := by
    decide +kernel
  exact hall b hb

/-- An entry with its highest bit set is one addition away from the entry without it. -/
theorem tableEntry_add {b r u : Nat} (hb : b < 5) (hr : r < 4) (hu : u < 2 ^ r) :
    Prepares ((generatorExt.doubles (10 * b + 50 * (r + 1))).madd (tableEntry b u).num)
      (tableEntry b (u + 2 ^ r)).num := by
  have hall : ∀ b < 5, ∀ r < 4, ∀ u < 2 ^ r,
      Prepares ((generatorExt.doubles (10 * b + 50 * (r + 1))).madd (tableEntry b u).num)
        (tableEntry b (u + 2 ^ r)).num := by decide +kernel
  exact hall b hb r hr u hu

/-- The entries below `2ʳ`, by adding one bit after the other. -/
theorem tableEntry_is {b : Nat} (hb : b < 5) {r : Nat} (hr : r ≤ 4) : ∀ u < 2 ^ r,
    PrecompIs ((tableEntry b u).num.map Num2.toFp2) ((2 ^ (10 * b) * combWeight u) • generator) := by
  induction r with
  | zero =>
    intro u hu
    rw [show u = 0 by omega, combWeight_zero, mul_one]
    exact (tableEntry_zero hb).is (generatorDoubles_is _)
  | succ r ih =>
    intro u hu
    rcases Nat.lt_or_ge u (2 ^ r) with hlow | hhigh
    · exact ih (by omega) u hlow
    · obtain ⟨v, rfl⟩ := Nat.exists_eq_add_of_le' hhigh
      have hv : v < 2 ^ r := by
        rw [pow_succ] at hu
        omega
      have hknown := ih (by omega) v hv
      have hsum := (generatorDoubles_is (10 * b + 50 * (r + 1))).madd hknown
      rw [← Ext.map_madd Num2.toFp2_add Num2.toFp2_sub Num2.toFp2_mul] at hsum
      rw [combWeight_add hr hv, mul_add, ← pow_add, add_nsmul]
      exact (tableEntry_add hb hr hv).is hsum

/-- Every entry of the table. -/
theorem tableEntry_prepared {b u : Nat} (hb : b < 5) (hu : u < 16) :
    PreparedRep (tableEntry b u) ((2 ^ (10 * b) * combWeight u) • generator) := by
  obtain ⟨hxy, hyx, ht2⟩ := tableEntry_bounded hb hu
  exact ⟨_, ⟨Fp2Rep.of_num hxy, Fp2Rep.of_num hyx, Fp2Rep.of_num ht2⟩,
    tableEntry_is hb (le_refl 4) u hu⟩

end QubicLedger
