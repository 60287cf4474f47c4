import Mathlib.Data.Nat.ModEq
import Mathlib.Tactic.Ring

/-!
# Montgomery reduction

One step of Montgomery reduction over the natural numbers: with `n'` the
negative inverse of `n` modulo `r`, adding the right multiple of `n` to `t`
makes it divisible by `r`, and the quotient is `t / r` modulo `n`, below `2 n`
when `t < n r`. Nothing here knows how the numbers are stored.
-/

namespace Lib

/-- The multiple of `n` that makes `t` divisible by `r`. -/
def redcQuotient (r n' t : Nat) : Nat := t % r * n' % r

variable {n r n' t : Nat}

/-- Adding it makes `t` divisible. -/
theorem redc_dvd (hr : 0 < r) (hn' : n * n' % r = r - 1) :
    r ∣ t + redcQuotient r n' t * n := by
  have hq : redcQuotient r n' t ≡ t * n' [MOD r] :=
    (Nat.mod_modEq _ _).trans ((Nat.mod_modEq t r).mul_right n')
  have hinv : n * n' + 1 ≡ 0 [MOD r] := by
    show (n * n' + 1) % r = 0 % r
    rw [Nat.add_mod, hn', Nat.zero_mod, Nat.add_mod_mod, Nat.sub_add_cancel hr, Nat.mod_self]
  refine (Nat.modEq_zero_iff_dvd).mp ?_
  calc t + redcQuotient r n' t * n
      ≡ t + t * n' * n [MOD r] := (hq.mul_right n).add_left t
    _ = t * (n * n' + 1) := by ring
    _ ≡ t * 0 [MOD r] := hinv.mul_left t

/-- The quotient is below `2 n`. -/
theorem redc_lt (hr : 0 < r) (hn : 0 < n) (ht : t < n * r) :
    (t + redcQuotient r n' t * n) / r < 2 * n := by
  have hq : redcQuotient r n' t < r := Nat.mod_lt _ hr
  refine Nat.div_lt_of_lt_mul ?_
  calc t + redcQuotient r n' t * n
      < n * r + r * n := Nat.add_lt_add ht (Nat.mul_lt_mul_of_pos_right hq hn)
    _ = r * (2 * n) := by ring

/-- The quotient is `t / r` modulo `n`. -/
theorem redc_modEq (hr : 0 < r) (hn' : n * n' % r = r - 1) :
    (t + redcQuotient r n' t * n) / r * r ≡ t [MOD n] := by
  rw [Nat.div_mul_cancel (redc_dvd hr hn')]
  show (t + redcQuotient r n' t * n) % n = t % n
  rw [Nat.add_mul_mod_self_right]

end Lib
