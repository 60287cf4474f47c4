import Mathlib.Algebra.QuadraticAlgebra.Basic
import Mathlib.FieldTheory.Finite.Basic
import Mathlib.Tactic.LinearCombination
import Mathlib.Tactic.FieldSimp
import Mathlib.Tactic.Ring

/-!
# Square roots of a ratio

In a field with `4m + 3` elements `-1` is no square, so the pairs `a + b i` with
`i² = -1` are a field again. A root of `u / v` there costs two powers: one for
the norm of the root, and one for the inverse and the root of what is left. Each
leaves a sign open. `ratioRoot` computes a candidate without looking at the
signs but for one comparison, and `ratioRoot_spec` says what the candidate is
worth: if there is a root, it is that root up to sign and conjugation.
-/

namespace Lib

/-! ## Powers -/

section Powers

variable {F : Type} [Field F] [Fintype F] {m : Nat}

/-- A power that is a root of a square. -/
theorem sq_pow_succ (hcard : Fintype.card F = 4 * m + 3) (c : F) :
    (c ^ 2) ^ (m + 1) = c ∨ (c ^ 2) ^ (m + 1) = -c := by
  refine sq_eq_sq_iff_eq_or_eq_neg.mp ?_
  have hfermat := FiniteField.pow_card c
  rw [hcard] at hfermat
  calc ((c ^ 2) ^ (m + 1)) ^ 2 = c ^ (4 * m + 3) * c := by ring
    _ = c ^ 2 := by rw [hfermat, pow_two]

/-- A power that is a root of the inverse, of a square and of the negative of one. -/
theorem mul_pow_sq (hcard : Fintype.card F = 4 * m + 3) {e c : F} (he : e = 1 ∨ e = -1)
    (hc : c ≠ 0) : e * c ^ 2 * ((e * c ^ 2) ^ m) ^ 2 = e := by
  have hfermat := FiniteField.pow_card_sub_one_eq_one c hc
  rw [hcard, show 4 * m + 3 - 1 = 4 * m + 2 by omega] at hfermat
  have hodd : e ^ (2 * m + 1) = e := by
    rcases he with rfl | rfl
    · rw [one_pow]
    · exact Odd.neg_one_pow ⟨m, rfl⟩
  calc e * c ^ 2 * ((e * c ^ 2) ^ m) ^ 2 = e ^ (2 * m + 1) * c ^ (4 * m + 2) := by ring
    _ = e := by rw [hodd, hfermat, mul_one]

end Powers

/-- `a + b i`, with `i² = -1`. -/
abbrev Gaussian (F : Type) [Field F] := QuadraticAlgebra F (-1) 0

/-! ## The root -/

section Root

variable {F : Type} [Field F] [DecidableEq F]

/-- What is under the first root, and twice that or, if it is zero, its other value. -/
def doubled (a s : F) : F := if a + s = 0 then 2 * (a - s) else 2 * (a + s)

/-- The two halves of the candidate, from the norm `n` of the denominator and the numerator
`a + b i` times its conjugate. -/
def rootHalves (m : Nat) (n a b : F) : Gaussian F :=
  let t := doubled a ((a ^ 2 + b ^ 2) ^ (m + 1))
  let r := n * (t * n ^ 3) ^ m
  if t = n * (t * r) ^ 2 then ⟨t * r / 2, b * r⟩ else ⟨b * r, t * r / 2⟩

/-- One candidate for a root of `u / v`, with two powers for two square roots and a division. -/
def ratioRoot (m : Nat) (u v : Gaussian F) : Gaussian F :=
  rootHalves m (v.re ^ 2 + v.im ^ 2) (u.re * v.re + u.im * v.im) (u.im * v.re - u.re * v.im)

/-- Either half of the root decides the other. -/
theorem doubled_cases (htwo : (2 : F) ≠ 0) {n x y : F} (hn : n ≠ 0) {s : F}
    (hs : s = n * (x ^ 2 + y ^ 2) ∨ s = -(n * (x ^ 2 + y ^ 2))) :
    doubled (n * (x ^ 2 - y ^ 2)) s = 4 * n * x ^ 2 ∧ (x = 0 → y = 0) ∨
      doubled (n * (x ^ 2 - y ^ 2)) s = -(4 * n * y ^ 2) ∧ y ≠ 0 := by
  have hzero (z : F) : 2 * n * z ^ 2 = 0 ↔ z = 0 := by
    rw [mul_eq_zero, or_iff_right (mul_ne_zero htwo hn), pow_eq_zero_iff two_ne_zero]
  unfold doubled
  rcases hs with rfl | rfl
  · have hsum : n * (x ^ 2 - y ^ 2) + n * (x ^ 2 + y ^ 2) = 0 ↔ x = 0 := by
      rw [← hzero x]
      ring_nf
    by_cases hx : x = 0
    · rw [if_pos (hsum.mpr hx), hx]
      by_cases hy : y = 0
      · exact .inl ⟨by rw [hy]; ring, fun _ => hy⟩
      · exact .inr ⟨by ring, hy⟩
    · rw [if_neg (fun h => hx (hsum.mp h))]
      exact .inl ⟨by ring, fun h => absurd h hx⟩
  · have hsum : n * (x ^ 2 - y ^ 2) + -(n * (x ^ 2 + y ^ 2)) = 0 ↔ y = 0 := by
      rw [← hzero y, ← neg_eq_zero]
      ring_nf
    by_cases hy : y = 0
    · rw [if_pos (hsum.mpr hy)]
      exact .inl ⟨by ring, fun _ => hy⟩
    · rw [if_neg (fun h => hy (hsum.mp h))]
      exact .inr ⟨by ring, hy⟩

variable [Fintype F] {m : Nat}

omit [DecidableEq F] in
/-- The half `x` from the power, and the half `y` from `x`. -/
theorem root_halves (hcard : Fintype.card F = 4 * m + 3) (htwo : (2 : F) ≠ 0) {n e x y t r : F}
    (hn : n ≠ 0) (he : e = 1 ∨ e = -1) (hx : x ≠ 0) (ht : t = e * (4 * n * x ^ 2))
    (hr : r = n * (t * n ^ 3) ^ m) :
    n * (t * r) ^ 2 = e * t ∧ ∃ σ, (σ = 1 ∨ σ = -1) ∧ t * r / 2 = σ * x ∧
      2 * n * x * y * r = σ * e * y := by
  have he' : e ^ 2 = 1 := by
    rcases he with rfl | rfl <;> ring
  have hpow := mul_pow_sq hcard he (c := 2 * n ^ 2 * x)
    (mul_ne_zero (mul_ne_zero htwo (pow_ne_zero 2 hn)) hx)
  rw [show e * (2 * n ^ 2 * x) ^ 2 = t * n ^ 3 by rw [ht]; ring] at hpow
  have hcheck : n * (t * r) ^ 2 = e * t := by
    rw [hr]
    linear_combination t * hpow
  have hsq : (t * r) ^ 2 = (2 * x) ^ 2 := by
    refine mul_left_cancel₀ hn ?_
    rw [hcheck, ht]
    linear_combination 4 * n * x ^ 2 * he'
  obtain ⟨σ, hσ, htr⟩ : ∃ σ : F, (σ = 1 ∨ σ = -1) ∧ t * r = σ * (2 * x) := by
    rcases sq_eq_sq_iff_eq_or_eq_neg.mp hsq with h | h
    · exact ⟨1, .inl rfl, by rw [h, one_mul]⟩
    · exact ⟨-1, .inr rfl, by rw [h]; ring⟩
  refine ⟨hcheck, σ, hσ, ?_, ?_⟩
  · rw [htr]
    field_simp
  · refine mul_left_cancel₀ (mul_ne_zero htwo hx) ?_
    rw [ht] at htr
    linear_combination e * y * htr - 4 * n * x ^ 2 * y * r * he'

/-- The halves of the root `x`, up to sign and conjugation. -/
theorem rootHalves_spec (hcard : Fintype.card F = 4 * m + 3) (htwo : (2 : F) ≠ 0) {n : F}
    (hn : n ≠ 0) (x : Gaussian F) :
    ∃ w, (w = x ∨ w = star x) ∧
      (rootHalves m n (n * (x.re ^ 2 - x.im ^ 2)) (2 * n * x.re * x.im) = w ∨
        rootHalves m n (n * (x.re ^ 2 - x.im ^ 2)) (2 * n * x.re * x.im) = -w) := by
  generalize ha : n * (x.re ^ 2 - x.im ^ 2) = a
  generalize hb : 2 * n * x.re * x.im = b
  unfold rootHalves
  extract_lets t r
  have ht : t = 4 * n * x.re ^ 2 ∧ (x.re = 0 → x.im = 0) ∨
      t = -(4 * n * x.im ^ 2) ∧ x.im ≠ 0 := by
    have hs := sq_pow_succ hcard (n * (x.re ^ 2 + x.im ^ 2))
    rw [show (n * (x.re ^ 2 + x.im ^ 2)) ^ 2 = a ^ 2 + b ^ 2 by rw [← ha, ← hb]; ring] at hs
    have h := doubled_cases htwo hn hs
    rwa [ha] at h
  rcases ht with ⟨ht, hzero⟩ | ⟨ht, him⟩
  · refine ⟨x, .inl rfl, ?_⟩
    by_cases hre : x.re = 0
    · -- no root but zero
      have ht0 : t = 0 := ht.trans (by rw [hre]; ring)
      have hb0 : b = 0 := by rw [← hb, hre]; ring
      rw [if_pos (by rw [ht0]; ring), ht0, hb0, zero_mul, zero_div]
      exact .inl (QuadraticAlgebra.ext hre.symm (hzero hre).symm)
    · obtain ⟨hcheck, σ, hσ, hhalf, hother⟩ := root_halves hcard htwo (y := x.im) hn (.inl rfl) hre
        (ht.trans (one_mul _).symm) (rfl : r = _)
      rw [if_pos (by rw [hcheck, one_mul]), hhalf, ← hb, hother]
      rcases hσ with rfl | rfl
      · exact .inl (QuadraticAlgebra.ext (one_mul _) (by show 1 * 1 * x.im = x.im; ring))
      · exact .inr (QuadraticAlgebra.ext (neg_one_mul _) (by show -1 * 1 * x.im = -x.im; ring))
  · refine ⟨star x, .inr rfl, ?_⟩
    obtain ⟨hcheck, σ, hσ, hhalf, hother⟩ := root_halves hcard htwo (y := x.re) hn (.inr rfl) him
      (ht.trans (neg_one_mul _).symm) (rfl : r = _)
    have ht0 : t ≠ 0 := by
      rw [ht, neg_ne_zero, show 4 * n = 2 * 2 * n by ring]
      exact mul_ne_zero (mul_ne_zero (mul_ne_zero htwo htwo) hn) (pow_ne_zero 2 him)
    have hswap : t ≠ n * (t * r) ^ 2 := by
      rw [hcheck]
      intro h
      exact mul_ne_zero htwo ht0 (by linear_combination h)
    have hb' : b * r = σ * -1 * x.re := by
      rw [← hother, ← hb]
      ring
    rw [if_neg hswap, hhalf, hb']
    rcases hσ with rfl | rfl
    · refine .inr (QuadraticAlgebra.ext ?_ ?_)
      · rw [QuadraticAlgebra.re_neg, QuadraticAlgebra.re_star]
        ring
      · rw [QuadraticAlgebra.im_neg, QuadraticAlgebra.im_star]
        ring
    · refine .inl (QuadraticAlgebra.ext ?_ ?_)
      · rw [QuadraticAlgebra.re_star]
        ring
      · rw [QuadraticAlgebra.im_star]
        ring

/-- If there is a root at all, the candidate is it up to sign and conjugation. -/
theorem ratioRoot_spec (hcard : Fintype.card F = 4 * m + 3) (htwo : (2 : F) ≠ 0)
    {u v x : Gaussian F} (hv : v.re ^ 2 + v.im ^ 2 ≠ 0) (hx : x ^ 2 * v = u) :
    ∃ w, (w = x ∨ w = star x) ∧ (ratioRoot m u v = w ∨ ratioRoot m u v = -w) := by
  have hre : u.re = (x.re ^ 2 - x.im ^ 2) * v.re - 2 * x.re * x.im * v.im := by
    rw [← hx, pow_two]
    simp only [QuadraticAlgebra.re_mul, QuadraticAlgebra.im_mul]
    ring
  have him : u.im = (x.re ^ 2 - x.im ^ 2) * v.im + 2 * x.re * x.im * v.re := by
    rw [← hx, pow_two]
    simp only [QuadraticAlgebra.re_mul, QuadraticAlgebra.im_mul]
    ring
  have ha : u.re * v.re + u.im * v.im = (v.re ^ 2 + v.im ^ 2) * (x.re ^ 2 - x.im ^ 2) := by
    rw [hre, him]
    ring
  have hb : u.im * v.re - u.re * v.im = 2 * (v.re ^ 2 + v.im ^ 2) * x.re * x.im := by
    rw [hre, him]
    ring
  unfold ratioRoot
  rw [ha, hb]
  exact rootHalves_spec hcard htwo hv x

end Root

end Lib
