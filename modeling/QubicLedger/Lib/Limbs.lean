import Mathlib.Data.Nat.Digits.Defs
import Mathlib.Data.Nat.Digits.Lemmas
import Mathlib.Tactic.LinearCombination
import Mathlib.Tactic.Ring

/-!
# Multiprecision arithmetic on machine words

Numbers held as little-endian lists of `w`-bit words, for any `w`. Every
schoolbook loop over such numbers is one loop, `chain`: a step on two words and
a carry, run from the low words up. `chain_value` is the one induction about
it: if each step is a linear relation between what goes in and what comes out,
so is the whole chain. Addition with carry, subtraction with borrow and a row
of a product are the three instances (`chain_add`, `chain_sub`, `chain_row`).
`mulRows` is the schoolbook product, row by row, over any such row step.
-/

namespace Lib.Limbs

variable {w : Nat}

/-- The number that little-endian words spell. -/
def value (xs : List (BitVec w)) : Nat := Nat.ofDigits (2 ^ w) (xs.map BitVec.toNat)

@[simp] theorem value_nil : value ([] : List (BitVec w)) = 0 := rfl

@[simp] theorem value_cons (x : BitVec w) (xs : List (BitVec w)) :
    value (x :: xs) = x.toNat + 2 ^ w * value xs := by
  rw [value, List.map_cons, Nat.ofDigits_cons, value]

theorem value_append (xs ys : List (BitVec w)) :
    value (xs ++ ys) = value xs + 2 ^ (w * xs.length) * value ys := by
  rw [value, List.map_append, Nat.ofDigits_append, List.length_map, ← pow_mul, value, value]

theorem value_lt (xs : List (BitVec w)) : value xs < 2 ^ (w * xs.length) := by
  induction xs with
  | nil => exact Nat.one_pos
  | cons x xs ih =>
    have hx := x.isLt
    rw [value_cons, List.length_cons, Nat.mul_succ, Nat.pow_add, Nat.mul_comm (2 ^ (w * _))]
    calc x.toNat + 2 ^ w * value xs
        < 2 ^ w + 2 ^ w * value xs := Nat.add_lt_add_right hx _
      _ = 2 ^ w * (value xs + 1) := by ring
      _ ≤ 2 ^ w * 2 ^ (w * xs.length) := Nat.mul_le_mul_left _ ih

theorem value_inj {xs ys : List (BitVec w)} (hlen : xs.length = ys.length)
    (h : value xs = value ys) : xs = ys := by
  induction xs generalizing ys with
  | nil => exact (List.length_eq_zero_iff.mp hlen.symm).symm
  | cons x xs ih =>
    cases ys with
    | nil => exact absurd hlen (by simp)
    | cons y ys =>
      rw [value_cons, value_cons] at h
      have hlow := congrArg (· % 2 ^ w) h
      simp only [Nat.add_mul_mod_self_left, Nat.mod_eq_of_lt x.isLt, Nat.mod_eq_of_lt y.isLt] at hlow
      rw [hlow] at h
      have hrest := Nat.eq_of_mul_eq_mul_left (Nat.two_pow_pos w) (Nat.add_left_cancel h)
      rw [BitVec.eq_of_toNat_eq hlow, ih (Nat.succ_inj.mp hlen) hrest]

@[simp] theorem value_replicate_zero (n : Nat) : value (List.replicate n 0#w) = 0 := by
  induction n with
  | zero => rfl
  | succ n ih => simp [List.replicate_succ, ih]

/-- The low words are the number modulo their range. -/
theorem value_take {xs : List (BitVec w)} {n : Nat} (h : n ≤ xs.length) :
    value (xs.take n) = value xs % 2 ^ (w * n) := by
  have hsplit := value_append (xs.take n) (xs.drop n)
  have hlt := value_lt (xs.take n)
  rw [List.take_append_drop, List.length_take, Nat.min_eq_left h] at hsplit
  rw [List.length_take, Nat.min_eq_left h] at hlt
  rw [hsplit, Nat.add_mul_mod_self_left, Nat.mod_eq_of_lt hlt]

/-- The high words are the number divided by the range of the low ones. -/
theorem value_drop {xs : List (BitVec w)} {n : Nat} (h : n ≤ xs.length) :
    value (xs.drop n) = value xs / 2 ^ (w * n) := by
  have hsplit := value_append (xs.take n) (xs.drop n)
  have hlt := value_lt (xs.take n)
  rw [List.take_append_drop, List.length_take, Nat.min_eq_left h] at hsplit
  rw [List.length_take, Nat.min_eq_left h] at hlt
  rw [hsplit, Nat.add_mul_div_left _ _ (Nat.two_pow_pos _), Nat.div_eq_of_lt hlt, Nat.zero_add]

/-! ## Chains -/

/-- Run `f` along two numbers from the low words up, handing the carry on:
the last carry and the words written. -/
def chain {α : Type} (f : α → BitVec w → BitVec w → α × BitVec w) (c : α) :
    List (BitVec w) → List (BitVec w) → α × List (BitVec w)
  | x :: xs, y :: ys =>
    let r := f c x y
    let rest := chain f r.1 xs ys
    (rest.1, r.2 :: rest.2)
  | _, _ => (c, [])

variable {α : Type} {f : α → BitVec w → BitVec w → α × BitVec w} {c : α}
  {xs ys : List (BitVec w)}

@[simp] theorem length_chain (h : xs.length = ys.length) :
    (chain f c xs ys).2.length = xs.length := by
  induction xs generalizing c ys with
  | nil => rfl
  | cons x xs ih =>
    cases ys with
    | nil => exact absurd h (by simp)
    | cons y ys => exact congrArg (· + 1) (ih (Nat.succ_inj.mp h))

/-- If every step is linear in its words and its carry, so is the chain. -/
theorem chain_value {a b : ℤ} {v : α → ℤ} {P : α → Prop}
    (hcarry : ∀ c x y, P c → P (f c x y).1)
    (hstep : ∀ c x y, P c →
      ((f c x y).2.toNat : ℤ) + 2 ^ w * v (f c x y).1 = a * x.toNat + b * y.toNat + v c)
    (hc : P c) (hlen : xs.length = ys.length) :
    P (chain f c xs ys).1 ∧
    (value (chain f c xs ys).2 : ℤ) + 2 ^ (w * xs.length) * v (chain f c xs ys).1
      = a * value xs + b * value ys + v c := by
  induction xs generalizing c ys with
  | nil =>
    cases ys with
    | nil => exact ⟨hc, by simp [chain]⟩
    | cons y ys => exact absurd hlen (by simp)
  | cons x xs ih =>
    cases ys with
    | nil => exact absurd hlen (by simp)
    | cons y ys =>
      have hthis := hstep c x y hc
      obtain ⟨hlast, hrest⟩ := ih (hcarry c x y hc) (Nat.succ_inj.mp hlen)
      refine ⟨hlast, ?_⟩
      simp only [chain, value_cons, List.length_cons, Nat.mul_succ, pow_add]
      push_cast
      linear_combination hthis + 2 ^ w * hrest

/-- A chain of full adders adds. -/
theorem chain_add {f : BitVec w → BitVec w → BitVec w → BitVec w × BitVec w} {c : BitVec w}
    (hadd : ∀ c x y : BitVec w, c.toNat ≤ 1 → (f c x y).1.toNat ≤ 1 ∧
      (f c x y).2.toNat + 2 ^ w * (f c x y).1.toNat = x.toNat + y.toNat + c.toNat)
    (hc : c.toNat ≤ 1) (hlen : xs.length = ys.length) :
    (chain f c xs ys).1.toNat ≤ 1 ∧
    value (chain f c xs ys).2 + 2 ^ (w * xs.length) * (chain f c xs ys).1.toNat
      = value xs + value ys + c.toNat := by
  have h := chain_value (a := 1) (b := 1) (v := fun c => (c.toNat : ℤ))
    (fun c x y hc => (hadd c x y hc).1)
    (fun c x y hc => by
      have := (hadd c x y hc).2
      push_cast [one_mul]
      exact_mod_cast this) hc hlen
  refine ⟨h.1, ?_⟩
  have hval := h.2
  rw [one_mul, one_mul] at hval
  exact_mod_cast hval

/-- A chain of full subtracters subtracts. -/
theorem chain_sub {f : BitVec w → BitVec w → BitVec w → BitVec w × BitVec w} {c : BitVec w}
    (hsub : ∀ c x y : BitVec w, c.toNat ≤ 1 → (f c x y).1.toNat ≤ 1 ∧
      (f c x y).2.toNat + y.toNat + c.toNat = x.toNat + 2 ^ w * (f c x y).1.toNat)
    (hc : c.toNat ≤ 1) (hlen : xs.length = ys.length) :
    (chain f c xs ys).1.toNat ≤ 1 ∧
    value (chain f c xs ys).2 + value ys + c.toNat
      = value xs + 2 ^ (w * xs.length) * (chain f c xs ys).1.toNat := by
  have h := chain_value (a := 1) (b := -1) (v := fun c => -(c.toNat : ℤ))
    (fun c x y hc => (hsub c x y hc).1)
    (fun c x y hc => by
      have := (hsub c x y hc).2
      zify at this
      linear_combination this) hc hlen
  refine ⟨h.1, ?_⟩
  have hval := h.2
  zify
  linear_combination hval

/-- A chain of multiply-and-add steps adds a multiple. -/
theorem chain_row {f : BitVec w → BitVec w → BitVec w → BitVec w × BitVec w} {c : BitVec w}
    {x : Nat} (hrow : ∀ c y t : BitVec w,
      (f c y t).2.toNat + 2 ^ w * (f c y t).1.toNat = x * y.toNat + t.toNat + c.toNat)
    (hlen : xs.length = ys.length) :
    value (chain f c xs ys).2 + 2 ^ (w * xs.length) * (chain f c xs ys).1.toNat
      = x * value xs + value ys + c.toNat := by
  have h := chain_value (a := x) (b := 1) (v := fun c => (c.toNat : ℤ)) (P := fun _ => True)
    (fun _ _ _ _ => trivial)
    (fun c y t _ => by
      have := hrow c y t
      zify at this
      linear_combination this) (c := c) trivial hlen
  have hval := h.2
  zify
  linear_combination hval

/-! ## The schoolbook product -/

/-- The product of `xs` and `ys` on top of `acc`, one row for each word of
`xs`: a row adds its multiple of `ys` to the window `acc`, leaves the lowest
word behind and moves up by one, its last carry being the new top word. -/
def mulRows (row : BitVec w → BitVec w → BitVec w → BitVec w → BitVec w × BitVec w) :
    List (BitVec w) → List (BitVec w) → List (BitVec w) → List (BitVec w)
  | [], _, acc => acc
  | x :: xs, ys, acc =>
    let r := chain (row x) 0 ys acc
    r.2.headD 0 :: mulRows row xs ys (r.2.tail ++ [r.1])

variable {row : BitVec w → BitVec w → BitVec w → BitVec w → BitVec w × BitVec w}
  {acc : List (BitVec w)}

@[simp] theorem length_mulRows (h : acc.length = ys.length) (hys : ys ≠ []) :
    (mulRows row xs ys acc).length = xs.length + ys.length := by
  induction xs generalizing acc with
  | nil => simp [mulRows, h]
  | cons x xs ih =>
    have hpos : 0 < ys.length := List.length_pos_iff.mpr hys
    have hwindow : ((chain (row x) 0 ys acc).2.tail ++ [(chain (row x) 0 ys acc).1]).length
        = ys.length := by
      rw [List.length_append, List.length_tail, length_chain h.symm, List.length_singleton]
      omega
    simp only [mulRows, List.length_cons, ih hwindow]
    omega

/-- The schoolbook product is the product. -/
theorem value_mulRows
    (hrow : ∀ x c y t : BitVec w,
      (row x c y t).2.toNat + 2 ^ w * (row x c y t).1.toNat = x.toNat * y.toNat + t.toNat + c.toNat)
    (h : acc.length = ys.length) (hys : ys ≠ []) :
    value (mulRows row xs ys acc) = value xs * value ys + value acc := by
  induction xs generalizing acc with
  | nil => simp [mulRows]
  | cons x xs ih =>
    have hval := chain_row (c := 0) (hrow x) h.symm
    have hlen := length_chain (f := row x) (c := 0) h.symm
    cases hr : (chain (row x) 0 ys acc).2 with
    | nil =>
      rw [hr] at hlen
      exact absurd (List.length_eq_zero_iff.mp hlen.symm) hys
    | cons v vs =>
      rw [hr, List.length_cons] at hlen
      have hwindow : (vs ++ [(chain (row x) 0 ys acc).1]).length = ys.length := by
        rw [List.length_append, List.length_singleton, hlen]
      simp only [mulRows, hr, List.headD_cons, List.tail_cons, value_cons, ih hwindow, value_append,
        value_nil, Nat.mul_zero, Nat.add_zero]
      rw [hr, value_cons, ← hlen, Nat.mul_succ, pow_add] at hval
      simp only [BitVec.ofNat_eq_ofNat, BitVec.toNat_ofNat, Nat.zero_mod, Nat.add_zero] at hval
      linear_combination hval

end Lib.Limbs
