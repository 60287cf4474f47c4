import Mathlib.Algebra.Field.Basic
import Mathlib.Algebra.GroupWithZero.Basic
import Mathlib.Tactic.FieldSimp
import Mathlib.Tactic.LinearCombination
import Mathlib.Tactic.Ring

/-!
# Complete twisted Edwards curves

The curve `-x² + y² = 1 + d x² y²` over a field in which `-1` is a square, `d`
is not, and `2 ≠ 0`. Under these conditions the addition law has no
exceptional pair: `cross_ne` says that neither denominator `1 ± d x₁x₂y₁y₂`
vanishes on the curve. The points are then a commutative group, and the group
law needs no case distinction.

The second half is the arithmetic that implementations run: extended
coordinates `(X : Y : Z)` with `X·Y = Ta·Tb·Z`, in which a sum and a double are
polynomials. `Ext.double` and `Ext.madd` are these polynomials over any ring;
`ExtIs.double` and `ExtIs.madd` say that they compute the group law, whatever
the points are, and `ExtIs.doubleAndAdd` follows a run of both.
-/

namespace Lib

/-- The curve `-x² + y² = 1 + d x² y²` with the conditions that make its
addition law complete. -/
structure EdwardsCurve (F : Type) [Field F] where
  d : F
  i : F
  i_sq : i ^ 2 = -1
  sq_ne_d : ∀ r : F, r ^ 2 ≠ d
  two_ne_zero : (2 : F) ≠ 0

namespace EdwardsCurve

variable {F : Type} [Field F] {E : EdwardsCurve F}

/-- The points of the curve. -/
@[ext]
structure Point (E : EdwardsCurve F) where
  x : F
  y : F
  on_curve : -x ^ 2 + y ^ 2 = 1 + E.d * x ^ 2 * y ^ 2

/-! ## Completeness -/

/-- The term that the denominators of a sum add to and take from one. -/
def Point.cross (P Q : E.Point) : F := E.d * P.x * Q.x * P.y * Q.y

/-- If the term squares to one, `d` times a square is a square both ways round. -/
private theorem cross_sq {P Q : E.Point} (h : P.cross Q ^ 2 = 1) :
    (E.i * P.x + P.cross Q * P.y) ^ 2
      = E.d * (P.x * P.y * (E.i * Q.x + Q.y)) ^ 2 ∧
    (E.i * P.x - P.cross Q * P.y) ^ 2
      = E.d * (P.x * P.y * (E.i * Q.x - Q.y)) ^ 2 := by
  have hi := E.i_sq
  have hP := P.on_curve
  have hQ := Q.on_curve
  unfold Point.cross at h ⊢
  grind

private theorem d_ne_of_mul {u v : F} (hv : v ≠ 0) : u ^ 2 ≠ E.d * v ^ 2 := by
  intro h
  refine E.sq_ne_d (u / v) ?_
  rw [div_pow, h, mul_div_assoc, div_self (pow_ne_zero 2 hv), mul_one]

theorem cross_sq_ne_one (P Q : E.Point) : P.cross Q ^ 2 ≠ 1 := by
  intro h
  have hne : P.cross Q ≠ 0 := by
    intro h0
    rw [h0] at h
    exact zero_ne_one (by rw [← h]; ring)
  have hxy : P.x * P.y ≠ 0 := by
    intro h0
    exact hne (by unfold Point.cross; linear_combination E.d * Q.x * Q.y * h0)
  have hy : Q.y ≠ 0 := by
    intro h0
    exact hne (by unfold Point.cross; rw [h0, mul_zero])
  obtain ⟨hplus, hminus⟩ := cross_sq h
  -- not both factors vanish, and where one does not, `d` is a square
  by_cases hfactor : E.i * Q.x + Q.y = 0
  · refine d_ne_of_mul (mul_ne_zero hxy ?_) hminus
    intro h0
    exact mul_ne_zero E.two_ne_zero hy (by linear_combination hfactor - h0)
  · exact d_ne_of_mul (mul_ne_zero hxy hfactor) hplus

/-- No pair of points is exceptional. -/
theorem one_add_cross_ne (P Q : E.Point) : 1 + P.cross Q ≠ 0 := by
  intro h
  exact cross_sq_ne_one P Q (by linear_combination (P.cross Q - 1) * h)

theorem one_sub_cross_ne (P Q : E.Point) : 1 - P.cross Q ≠ 0 := by
  intro h
  exact cross_sq_ne_one P Q (by linear_combination (-P.cross Q - 1) * h)

/-! ## The group -/

instance : Zero E.Point := ⟨⟨0, 1, by ring⟩⟩

instance : Neg E.Point := ⟨fun P => ⟨-P.x, P.y, by linear_combination P.on_curve⟩⟩

private theorem sum_on_curve (P Q : E.Point) :
    -((P.x * Q.y + Q.x * P.y) / (1 + P.cross Q)) ^ 2
      + ((P.y * Q.y + P.x * Q.x) / (1 - P.cross Q)) ^ 2
    = 1 + E.d * ((P.x * Q.y + Q.x * P.y) / (1 + P.cross Q)) ^ 2
      * ((P.y * Q.y + P.x * Q.x) / (1 - P.cross Q)) ^ 2 := by
  have hplus := one_add_cross_ne P Q
  have hminus := one_sub_cross_ne P Q
  have hP := P.on_curve
  have hQ := Q.on_curve
  field_simp
  unfold Point.cross
  grind

instance : Add E.Point :=
  ⟨fun P Q => ⟨_, _, sum_on_curve P Q⟩⟩

@[simp] theorem zero_x : (0 : E.Point).x = 0 := rfl
@[simp] theorem zero_y : (0 : E.Point).y = 1 := rfl
@[simp] theorem neg_x (P : E.Point) : (-P).x = -P.x := rfl
@[simp] theorem neg_y (P : E.Point) : (-P).y = P.y := rfl

theorem add_x (P Q : E.Point) : (P + Q).x = (P.x * Q.y + Q.x * P.y) / (1 + P.cross Q) := rfl
theorem add_y (P Q : E.Point) : (P + Q).y = (P.y * Q.y + P.x * Q.x) / (1 - P.cross Q) := rfl

/-- The coordinates of a sum, as equations without division. -/
theorem add_x_mul (P Q : E.Point) :
    (P + Q).x * (1 + P.cross Q) = P.x * Q.y + Q.x * P.y := by
  rw [add_x, div_mul_cancel₀ _ (one_add_cross_ne P Q)]

theorem add_y_mul (P Q : E.Point) :
    (P + Q).y * (1 - P.cross Q) = P.y * Q.y + P.x * Q.x := by
  rw [add_y, div_mul_cancel₀ _ (one_sub_cross_ne P Q)]

/-- A sum is recognised by its equations. -/
theorem eq_add_of_mul {P Q R : E.Point} (hx : R.x * (1 + P.cross Q) = P.x * Q.y + Q.x * P.y)
    (hy : R.y * (1 - P.cross Q) = P.y * Q.y + P.x * Q.x) : R = P + Q := by
  refine Point.ext ?_ ?_
  · exact mul_right_cancel₀ (one_add_cross_ne P Q) (hx.trans (add_x_mul P Q).symm)
  · exact mul_right_cancel₀ (one_sub_cross_ne P Q) (hy.trans (add_y_mul P Q).symm)

private theorem add_comm' (P Q : E.Point) : P + Q = Q + P := by
  have hcross : Q.cross P = P.cross Q := by
    unfold Point.cross
    ring
  refine eq_add_of_mul ?_ ?_
  · rw [hcross, add_x_mul]
    ring
  · rw [hcross, add_y_mul]
    ring

private theorem zero_add' (P : E.Point) : 0 + P = P := by
  refine (eq_add_of_mul ?_ ?_).symm
  · simp [Point.cross]
  · simp [Point.cross]

private theorem neg_add' (P : E.Point) : -P + P = 0 := by
  refine (eq_add_of_mul ?_ ?_).symm
  · simp
  · rw [zero_y, neg_y, neg_x]
    unfold Point.cross
    rw [neg_x, neg_y]
    linear_combination -P.on_curve

/-- Associativity with the denominators cleared: an identity between
polynomials modulo the three curve equations. -/
private theorem assoc_poly {d x₁ y₁ x₂ y₂ x₃ y₃ : F}
    (h₁ : -x₁ ^ 2 + y₁ ^ 2 = 1 + d * x₁ ^ 2 * y₁ ^ 2)
    (h₂ : -x₂ ^ 2 + y₂ ^ 2 = 1 + d * x₂ ^ 2 * y₂ ^ 2)
    (h₃ : -x₃ ^ 2 + y₃ ^ 2 = 1 + d * x₃ ^ 2 * y₃ ^ 2) :
    let A := x₁ * y₂ + x₂ * y₁
    let C := y₁ * y₂ + x₁ * x₂
    let c := d * x₁ * x₂ * y₁ * y₂
    let A' := x₂ * y₃ + x₃ * y₂
    let C' := y₂ * y₃ + x₂ * x₃
    let c' := d * x₂ * x₃ * y₂ * y₃
    (A * (1 - c) * y₃ + x₃ * C * (1 + c)) * ((1 + c') * (1 - c') + d * x₁ * y₁ * A' * C')
      = (x₁ * C' * (1 + c') + A' * (1 - c') * y₁) * ((1 + c) * (1 - c) + d * x₃ * y₃ * A * C) ∧
    (C * (1 + c) * y₃ + A * (1 - c) * x₃) * ((1 + c') * (1 - c') - d * x₁ * y₁ * A' * C')
      = (y₁ * C' * (1 + c') + x₁ * A' * (1 - c')) * ((1 + c) * (1 - c) - d * x₃ * y₃ * A * C) := by
  intro A C c A' C' c'
  exact ⟨by grind, by grind⟩

private theorem add_assoc' (P Q R : E.Point) : P + Q + R = P + (Q + R) := by
  have hB := one_add_cross_ne P Q
  have hD := one_sub_cross_ne P Q
  have hB' := one_add_cross_ne Q R
  have hD' := one_sub_cross_ne Q R
  have hA := add_x_mul P Q
  have hC := add_y_mul P Q
  have hA' := add_x_mul Q R
  have hC' := add_y_mul Q R
  obtain ⟨hx, hy⟩ := assoc_poly P.on_curve Q.on_curve R.on_curve
  have hden := mul_ne_zero (mul_ne_zero hB hD) (mul_ne_zero hB' hD')
  refine Point.ext ?_ ?_
  · rw [add_x (P + Q) R, add_x P (Q + R),
      div_eq_div_iff (one_add_cross_ne _ _) (one_add_cross_ne _ _)]
    refine mul_left_cancel₀ hden ?_
    rw [← hA, ← hC, ← hA', ← hC'] at hx
    unfold Point.cross at hx ⊢
    linear_combination hx
  · rw [add_y (P + Q) R, add_y P (Q + R),
      div_eq_div_iff (one_sub_cross_ne _ _) (one_sub_cross_ne _ _)]
    refine mul_left_cancel₀ hden ?_
    rw [← hA, ← hC, ← hA', ← hC'] at hy
    unfold Point.cross at hy ⊢
    linear_combination hy

instance : AddCommGroup E.Point where
  add_assoc := add_assoc'
  zero_add := zero_add'
  add_zero P := (add_comm' P 0).trans (zero_add' P)
  add_comm := add_comm'
  neg_add_cancel := neg_add'
  nsmul := nsmulRec
  zsmul := zsmulRec

end EdwardsCurve

namespace EdwardsCurve

variable {F : Type} [Field F] {E : EdwardsCurve F}

/-- The square of the first coordinate is a ratio in the second: no denominator vanishes. -/
theorem one_add_d_mul_sq_ne_zero (E : EdwardsCurve F) (y : F) : 1 + E.d * y ^ 2 ≠ 0 := by
  intro h
  have hy : y ≠ 0 := by
    intro hy
    rw [hy] at h
    exact one_ne_zero (by rw [← h]; ring)
  exact d_ne_of_mul (E := E) hy (u := E.i) (by rw [E.i_sq]; linear_combination -h)

theorem Point.x_sq_mul (P : E.Point) : P.x ^ 2 * (1 + E.d * P.y ^ 2) = P.y ^ 2 - 1 := by
  linear_combination -P.on_curve

/-- A point is determined by its second coordinate up to the sign of the first. -/
theorem Point.x_eq_or_neg {P Q : E.Point} (h : P.y = Q.y) : P.x = Q.x ∨ P.x = -Q.x := by
  refine sq_eq_sq_iff_eq_or_eq_neg.mp (mul_right_cancel₀ (E.one_add_d_mul_sq_ne_zero Q.y) ?_)
  rw [Q.x_sq_mul, ← h, P.x_sq_mul]

/-- A point whose second coordinate is zero has an order that divides four. -/
theorem Point.double_double_of_y_eq_zero {P : E.Point} (h : P.y = 0) : P + P + (P + P) = 0 := by
  have hcross : P.cross P = 0 := by
    unfold Point.cross
    rw [h, mul_zero]
  have hP := P.on_curve
  have hx := add_x_mul P P
  have hy := add_y_mul P P
  rw [h] at hP
  rw [hcross, h] at hx hy
  -- the double is the point with coordinates zero and minus one
  have hx2 : (P + P).x = 0 := by linear_combination hx
  have hy2 : (P + P).y = -1 := by linear_combination hy - hP
  apply Eq.symm
  apply eq_add_of_mul
  · rw [zero_x, hx2]
    ring
  · rw [zero_y, Point.cross, hx2, hy2]
    ring

end EdwardsCurve

/-! ## Extended coordinates -/

/-- `(X : Y : Z)` with `X·Y = Ta·Tb·Z`. -/
@[ext]
structure Ext (R : Type) where
  x : R
  y : R
  z : R
  ta : R
  tb : R

/-- An affine point prepared for mixed additions: `(x + y, y - x, 2 d x y)`. -/
@[ext]
structure Precomp (R : Type) where
  xy : R
  yx : R
  t2 : R

section Formulas

variable {R S : Type} [Add R] [Sub R] [Mul R] [Add S] [Sub S] [Mul S]

/-- Doubling; the old `Ta` and `Tb` are not used. -/
def Ext.double (P : Ext R) : Ext R :=
  let t1 := P.y * P.y - P.x * P.x
  let tb := P.x * P.x + P.y * P.y
  let ta := (P.x + P.y) * (P.x + P.y) - tb
  let t2 := P.z * P.z + P.z * P.z - t1
  { x := t2 * ta, y := t1 * tb, z := t1 * t2, ta := ta, tb := tb }

/-- Mixed addition. -/
def Ext.madd (P : Ext R) (Q : Precomp R) : Ext R :=
  let t := P.ta * P.tb * Q.t2
  let theta := P.z + P.z - t
  let alpha := P.z + P.z + t
  let u := Q.xy * (P.x + P.y)
  let v := Q.yx * (P.y - P.x)
  { x := (u - v) * theta, y := (u + v) * alpha, z := alpha * theta, ta := u + v, tb := u - v }

/-- `n` doublings. -/
def Ext.doubles : Nat → Ext R → Ext R
  | 0, P => P
  | n + 1, P => doubles n P.double

/-- Doubling, and adding where the bit is set. -/
def Ext.doubleAndAdd (Q : Precomp R) : Ext R → List Bool → Ext R
  | P, [] => P
  | P, bit :: bits => doubleAndAdd Q (if bit then P.double.madd Q else P.double) bits

/-- The number that the bits append to `n`. -/
def appendBits : Nat → List Bool → Nat
  | n, [] => n
  | n, bit :: bits => appendBits (2 * n + bit.toNat) bits

def Ext.map (f : R → S) (P : Ext R) : Ext S := ⟨f P.x, f P.y, f P.z, f P.ta, f P.tb⟩
def Precomp.map (f : R → S) (P : Precomp R) : Precomp S := ⟨f P.xy, f P.yx, f P.t2⟩

variable {f : R → S} (hadd : ∀ a b, f (a + b) = f a + f b) (hsub : ∀ a b, f (a - b) = f a - f b)
  (hmul : ∀ a b, f (a * b) = f a * f b)

include hadd hsub hmul

/-- The formulas commute with ring operations, so they may be run anywhere. -/
theorem Ext.map_double (P : Ext R) : P.double.map f = (P.map f).double := by
  simp only [Ext.map, Ext.double, hadd, hsub, hmul]

theorem Ext.map_madd (P : Ext R) (Q : Precomp R) :
    (P.madd Q).map f = (P.map f).madd (Q.map f) := by
  simp only [Ext.map, Precomp.map, Ext.madd, hadd, hsub, hmul]

theorem Ext.map_doubles (n : Nat) (P : Ext R) : (P.doubles n).map f = (P.map f).doubles n := by
  induction n generalizing P with
  | zero => rfl
  | succ n ih => rw [doubles, ih, map_double hadd hsub hmul, doubles]

theorem Ext.map_doubleAndAdd (Q : Precomp R) (P : Ext R) (bits : List Bool) :
    (P.doubleAndAdd Q bits).map f = (P.map f).doubleAndAdd (Q.map f) bits := by
  induction bits generalizing P with
  | nil => rfl
  | cons bit bits ih =>
    rw [doubleAndAdd, ih, doubleAndAdd]
    cases bit with
    | true => rw [if_pos rfl, if_pos rfl, map_madd hadd hsub hmul, map_double hadd hsub hmul]
    | false => rw [if_neg Bool.false_ne_true, if_neg Bool.false_ne_true,
        map_double hadd hsub hmul]

end Formulas

namespace EdwardsCurve

variable {F : Type} [Field F] {E : EdwardsCurve F}

/-- The extended coordinates stand for the point. -/
structure ExtIs (P : Ext F) (Q : E.Point) : Prop where
  z_ne : P.z ≠ 0
  x_eq : P.x = Q.x * P.z
  y_eq : P.y = Q.y * P.z
  t_eq : P.ta * P.tb = Q.x * Q.y * P.z

/-- The prepared coordinates stand for the point. -/
structure PrecompIs (P : Precomp F) (Q : E.Point) : Prop where
  xy_eq : P.xy = Q.x + Q.y
  yx_eq : P.yx = Q.y - Q.x
  t2_eq : P.t2 = 2 * E.d * Q.x * Q.y

/-- Affine coordinates as extended ones. -/
theorem ExtIs.of_affine (Q : E.Point) : ExtIs ⟨Q.x, Q.y, 1, Q.x, Q.y⟩ Q :=
  ⟨one_ne_zero, (mul_one _).symm, (mul_one _).symm, (mul_one _).symm⟩

/-- Exchanging the first two coordinates and negating the third negates. -/
theorem PrecompIs.neg {P : Precomp F} {Q : E.Point} (h : PrecompIs P Q) :
    PrecompIs ⟨P.yx, P.xy, -P.t2⟩ (-Q) where
  xy_eq := by rw [h.yx_eq, neg_x, neg_y]; ring
  yx_eq := by rw [h.xy_eq, neg_x, neg_y]; ring
  t2_eq := by rw [h.t2_eq, neg_x, neg_y]; ring

/-- Coordinates determine the point. -/
theorem ExtIs.unique {P : Ext F} {Q Q' : E.Point} (h : ExtIs P Q) (h' : ExtIs P Q') : Q = Q' := by
  refine Point.ext ?_ ?_
  · exact mul_right_cancel₀ h.z_ne (h.x_eq.symm.trans h'.x_eq)
  · exact mul_right_cancel₀ h.z_ne (h.y_eq.symm.trans h'.y_eq)

/-- Doubling is complete. -/
theorem ExtIs.double {P : Ext F} {Q : E.Point} (h : ExtIs P Q) : ExtIs P.double (Q + Q) := by
  have hx := add_x_mul Q Q
  have hy := add_y_mul Q Q
  have hplus := one_add_cross_ne Q Q
  have hminus := one_sub_cross_ne Q Q
  have hQ := Q.on_curve
  -- the two factors of the new `Z` are the two denominators
  have ht1 : P.y * P.y - P.x * P.x = (1 + Q.cross Q) * P.z ^ 2 := by
    rw [h.x_eq, h.y_eq, Point.cross]
    linear_combination P.z ^ 2 * hQ
  have ht2 : P.z * P.z + P.z * P.z - (P.y * P.y - P.x * P.x) = (1 - Q.cross Q) * P.z ^ 2 := by
    rw [ht1]
    ring
  have hta : (P.x + P.y) * (P.x + P.y) - (P.x * P.x + P.y * P.y)
      = (Q + Q).x * (1 + Q.cross Q) * P.z ^ 2 := by
    rw [hx, h.x_eq, h.y_eq]
    ring
  have htb : P.x * P.x + P.y * P.y = (Q + Q).y * (1 - Q.cross Q) * P.z ^ 2 := by
    rw [hy, h.x_eq, h.y_eq]
    ring
  have hz := pow_ne_zero 2 h.z_ne
  unfold Ext.double
  dsimp only
  rw [ht2, ht1, hta, htb]
  exact
    { z_ne := mul_ne_zero (mul_ne_zero hplus hz) (mul_ne_zero hminus hz)
      x_eq := by ring
      y_eq := by ring
      t_eq := by ring }

/-- Mixed addition is complete. -/
theorem ExtIs.madd {P : Ext F} {Q : E.Point} {P' : Precomp F} {Q' : E.Point} (h : ExtIs P Q)
    (h' : PrecompIs P' Q') : ExtIs (P.madd P') (Q + Q') := by
  have hx := add_x_mul Q Q'
  have hy := add_y_mul Q Q'
  have hplus := one_add_cross_ne Q Q'
  have hminus := one_sub_cross_ne Q Q'
  have ht : P.ta * P.tb * P'.t2 = 2 * Q.cross Q' * P.z := by
    rw [h.t_eq, h'.t2_eq, Point.cross]
    ring
  have hu : P'.xy * (P.x + P.y) - P'.yx * (P.y - P.x)
      = 2 * (Q + Q').x * (1 + Q.cross Q') * P.z := by
    rw [mul_assoc 2, hx, h.x_eq, h.y_eq, h'.xy_eq, h'.yx_eq]
    ring
  have hv : P'.xy * (P.x + P.y) + P'.yx * (P.y - P.x)
      = 2 * (Q + Q').y * (1 - Q.cross Q') * P.z := by
    rw [mul_assoc 2, hy, h.x_eq, h.y_eq, h'.xy_eq, h'.yx_eq]
    ring
  have h2z := mul_ne_zero E.two_ne_zero h.z_ne
  unfold Ext.madd
  dsimp only
  rw [hu, hv, ht]
  exact
    { z_ne := by
        have hden := mul_ne_zero (mul_ne_zero h2z hplus) (mul_ne_zero h2z hminus)
        intro h0
        exact hden (by linear_combination h0)
      x_eq := by ring
      y_eq := by ring
      t_eq := by ring }

/-- A run of doublings. -/
theorem ExtIs.doubles {P : Ext F} {Q : E.Point} (h : ExtIs P Q) (n : Nat) :
    ExtIs (P.doubles n) (2 ^ n • Q) := by
  induction n generalizing P Q with
  | zero => rwa [pow_zero, one_nsmul]
  | succ n ih =>
    rw [pow_succ, mul_nsmul', two_nsmul]
    exact ih h.double

/-- A run of double-and-add. -/
theorem ExtIs.doubleAndAdd {P : Ext F} {P' : Precomp F} {Q : E.Point} {n : Nat}
    (h : ExtIs P (n • Q)) (h' : PrecompIs P' Q) (bits : List Bool) :
    ExtIs (P.doubleAndAdd P' bits) (appendBits n bits • Q) := by
  induction bits generalizing P n with
  | nil => exact h
  | cons bit bits ih =>
    have hdouble := h.double
    rw [← two_nsmul, ← mul_nsmul'] at hdouble
    refine ih ?_
    cases bit with
    | true =>
      rw [if_pos rfl, Bool.toNat_true, add_nsmul, one_nsmul]
      exact hdouble.madd h'
    | false =>
      rwa [if_neg Bool.false_ne_true, Bool.toNat_false, Nat.add_zero]

end EdwardsCurve

end Lib
