import Mathlib.Data.BitVec

/-!
# The permutation Keccak-p

The permutation as it is specified: 25 lanes in columns `x` and rows `y`, five
step mappings, rotation offsets from the walk over the plane and round
constants from the shift register. An implementation has both as tables, its
lanes in variables and the five steps in one. `rotateLeft_eq_xor` is the
rotation such code writes.
-/

namespace Lib.Keccak

variable {w : Nat}

/-- Lanes of `w` bits, by column and row. -/
abbrev State (w : Nat) : Type := Fin 5 → Fin 5 → BitVec w

/-- The parity of a column. -/
def parity (A : State w) (x : Fin 5) : BitVec w := A x 0 ^^^ A x 1 ^^^ A x 2 ^^^ A x 3 ^^^ A x 4

/-- Every bit with the parities of two columns next to it. -/
def theta (A : State w) : State w :=
  fun x y => A x y ^^^ (parity A (x - 1) ^^^ (parity A (x + 1)).rotateLeft 1)

/-- The walk over the plane. -/
def position : Nat → Fin 5 × Fin 5
  | 0 => (1, 0)
  | t + 1 => ((position t).2, 2 * (position t).1 + 3 * (position t).2)

/-- The offset of a lane: a triangular number for each step of the walk. -/
def offset (x y : Fin 5) : Nat :=
  match (List.range 24).find? (fun t => position t = (x, y)) with
  | some t => (t + 1) * (t + 2) / 2
  | none => 0

/-- Every lane rotated by its offset. -/
def rho (A : State w) : State w := fun x y => (A x y).rotateLeft (offset x y)

/-- The lanes moved. -/
def pi (A : State w) : State w := fun x y => A (x + 3 * y) x

/-- The rows mixed. -/
def chi (A : State w) : State w := fun x y => A x y ^^^ (~~~A (x + 1) y &&& A (x + 2) y)

/-- The shift register. -/
def lfsr : Nat → BitVec 8
  | 0 => 1
  | t + 1 => if (lfsr t).msb then (lfsr t <<< 1) ^^^ 0x71 else lfsr t <<< 1

/-- The constant of round `ir`, for lanes of `2 ^ l` bits. -/
def roundConstant (w l ir : Nat) : BitVec w :=
  (List.range (l + 1)).foldl (fun rc j =>
    if (lfsr (j + 7 * ir)).getLsbD 0 then rc ||| BitVec.twoPow w (2 ^ j - 1) else rc) 0

/-- The constant goes into one lane. -/
def iota (rc : BitVec w) (A : State w) : State w :=
  fun x y => if x = 0 ∧ y = 0 then A x y ^^^ rc else A x y

/-- One round. -/
def round (rc : BitVec w) (A : State w) : State w := iota rc (chi (pi (rho (theta A))))

/-- The last `rounds` rounds of the permutation. -/
def keccakP (l rounds : Nat) (A : State w) : State w :=
  (List.range' (12 + 2 * l - rounds) rounds).foldl (fun A ir => round (roundConstant w l ir) A) A

/-- The two halves of a rotation have no bit in common. -/
theorem rotateLeft_eq_xor (a : BitVec w) {n : Nat} (hn : n < w) :
    a.rotateLeft n = if n = 0 then a else (a <<< n) ^^^ (a >>> (w - n)) := by
  apply BitVec.eq_of_getLsbD_eq
  intro i hi
  rw [BitVec.getLsbD_rotateLeft_of_le hn]
  by_cases hzero : n = 0
  · rw [if_pos hzero, hzero, Nat.sub_zero]
    simp [hi]
  · rw [if_neg hzero, BitVec.getLsbD_xor, BitVec.getLsbD_shiftLeft, BitVec.getLsbD_ushiftRight]
    by_cases hlow : i < n
    · -- only the bits that came round
      simp [hlow]
    · have hout : a.getLsbD (w - n + i) = false := BitVec.getLsbD_of_ge _ _ (by omega)
      simp [hlow, hi, hout]

end Lib.Keccak
