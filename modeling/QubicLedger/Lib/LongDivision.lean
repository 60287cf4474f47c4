import QubicLedger.Lib.Positional
import Mathlib.Tactic.Linarith

/-!
# In-place long division of a digit array by a small divisor

`divPass B d r xs` is one left-to-right pass of schoolbook division: `xs` is a
base-`B` number, most significant digit first, `r` the remainder carried in.
Each digit is replaced by its quotient digit and the remainder moves right.

`divPass_spec` is the loop invariant (value in = quotient · d + remainder
out), from which the two facts a caller needs follow: the array now denotes
`value / d` (`divPass_value`) and the carried remainder is `value % d`
(`divPass_remainder`).
-/

namespace Lib

/-- One pass of long division: quotient digits and final remainder. -/
def divPass (B d : Nat) : Nat → List Nat → List Nat × Nat
  | r, [] => ([], r)
  | r, x :: xs =>
    ((r * B + x) / d :: (divPass B d ((r * B + x) % d) xs).1,
      (divPass B d ((r * B + x) % d) xs).2)

@[simp] theorem divPass_nil (B d r : Nat) : divPass B d r [] = ([], r) := rfl

theorem divPass_cons (B d r x : Nat) (xs : List Nat) :
    divPass B d r (x :: xs)
      = ((r * B + x) / d :: (divPass B d ((r * B + x) % d) xs).1,
          (divPass B d ((r * B + x) % d) xs).2) := rfl

@[simp] theorem length_divPass (B d : Nat) :
    ∀ (r : Nat) (xs : List Nat), (divPass B d r xs).1.length = xs.length := by
  intro r xs
  induction xs generalizing r with
  | nil => rfl
  | cons x xs ih => rw [divPass_cons, List.length_cons, List.length_cons, ih]

/-- The pass conserves value: carried-in remainder and digits on one side,
quotient digits and carried-out remainder on the other. -/
theorem divPass_spec {B d : Nat} (hd : 0 < d) :
    ∀ (r : Nat) (xs : List Nat), r < d →
      (divPass B d r xs).2 < d ∧
      valueBE B (divPass B d r xs).1 * d + (divPass B d r xs).2
        = r * B ^ xs.length + valueBE B xs := by
  intro r xs
  induction xs generalizing r with
  | nil => intro hr; simp [hr]
  | cons x xs ih =>
    intro _
    obtain ⟨hlt, hval⟩ := ih ((r * B + x) % d) (Nat.mod_lt _ hd)
    have hdiv := Nat.div_add_mod (r * B + x) d
    refine ⟨hlt, ?_⟩
    rw [divPass_cons, valueBE_cons, valueBE_cons, length_divPass, List.length_cons, pow_succ]
    calc ((r * B + x) / d * B ^ xs.length + valueBE B (divPass B d ((r * B + x) % d) xs).1) * d
          + (divPass B d ((r * B + x) % d) xs).2
        = (d * ((r * B + x) / d)) * B ^ xs.length
          + (valueBE B (divPass B d ((r * B + x) % d) xs).1 * d
            + (divPass B d ((r * B + x) % d) xs).2) := by ring
      _ = (d * ((r * B + x) / d) + (r * B + x) % d) * B ^ xs.length + valueBE B xs := by
          rw [hval]; ring
      _ = r * (B ^ xs.length * B) + (x * B ^ xs.length + valueBE B xs) := by rw [hdiv]; ring

/-- Started with no carry, the digits denote the quotient. -/
theorem divPass_value {B d : Nat} (hd : 0 < d) (xs : List Nat) :
    valueBE B (divPass B d 0 xs).1 = valueBE B xs / d := by
  obtain ⟨hlt, hval⟩ := divPass_spec (B := B) hd 0 xs hd
  rw [Nat.zero_mul, Nat.zero_add] at hval
  rw [← hval, Nat.add_comm, Nat.add_mul_div_right _ _ hd, Nat.div_eq_of_lt hlt, Nat.zero_add]

/-- Started with no carry, the final carry is the remainder. -/
theorem divPass_remainder {B d : Nat} (hd : 0 < d) (xs : List Nat) :
    (divPass B d 0 xs).2 = valueBE B xs % d := by
  obtain ⟨hlt, hval⟩ := divPass_spec (B := B) hd 0 xs hd
  rw [Nat.zero_mul, Nat.zero_add] at hval
  rw [← hval, Nat.mul_add_mod', Nat.mod_eq_of_lt hlt]

end Lib
