import QubicLedger.K12
import QubicLedger.Lib.Keccak
import Mathlib.Data.Fin.VecNotation
import Mathlib.Tactic.FinCases

/-!
# The rounds are Keccak-p

`thetaRhoPiChiIota` is the macro: 25 lanes with names, the five steps in one,
rotations and constants as literals. Taken apart it is θ, then ρ and π, then χ
and ι, each of them the step of that name on lanes by column and row, and
`rounds12` is the permutation with its last twelve rounds.
-/

namespace QubicLedger

open Lib.Keccak (State round theta rho pi chi iota offset roundConstant keccakP)

/-- The lanes by column and row. -/
def Lanes.plane (A : Lanes) : State 64 := fun x y =>
  (![![A.ba, A.be, A.bi, A.bo, A.bu], ![A.ga, A.ge, A.gi, A.go, A.gu],
    ![A.ka, A.ke, A.ki, A.ko, A.ku], ![A.ma, A.me, A.mi, A.mo, A.mu],
    ![A.sa, A.se, A.si, A.so, A.su]] y x).toBitVec

/-- `ROL64` by less than a lane. -/
theorem toBitVec_rol64 (a : UInt64) {n : UInt64} (hpos : n.toNat ≠ 0) (hn : n.toNat < 64) :
    (rol64 a n).toBitVec = a.toBitVec.rotateLeft n.toNat := by
  have hrest : (64 - n).toNat = 64 - n.toNat :=
    UInt64.toNat_sub_of_le _ _ (UInt64.le_iff_toNat_le.mpr (Nat.le_of_lt hn))
  have hleft : (a <<< n).toBitVec = a.toBitVec <<< n.toNat := by
    rw [UInt64.toBitVec_shiftLeft, BitVec.shiftLeft_eq', BitVec.toNat_umod]
    exact congrArg _ (Nat.mod_eq_of_lt hn)
  have hright : (a >>> (64 - n)).toBitVec = a.toBitVec >>> (64 - n.toNat) := by
    rw [UInt64.toBitVec_shiftRight, BitVec.ushiftRight_eq', BitVec.toNat_umod]
    refine congrArg _ ((Nat.mod_eq_of_lt ?_).trans hrest)
    show (64 - n).toNat < 64
    omega
  rw [Lib.Keccak.rotateLeft_eq_xor _ hn, if_neg hpos, rol64, UInt64.toBitVec_xor, hleft, hright]

/-- A literal that is the offset of a lane. -/
theorem toBitVec_rol64_offset (a : UInt64) {n : UInt64} {x y : Fin 5}
    (h : n.toNat = offset x y % 64) (hpos : n.toNat ≠ 0) :
    (rol64 a n).toBitVec = a.toBitVec.rotateLeft (offset x y) := by
  rw [toBitVec_rol64 a hpos (by omega), h, BitVec.rotateLeft_mod_eq_rotateLeft]

/-! ## The macro, taken apart -/

/-- `Aba ^ Da`, .., `Asu ^ Du`. -/
def thetaLanes (A : Lanes) : Lanes :=
  let Ca := A.ba ^^^ A.ga ^^^ A.ka ^^^ A.ma ^^^ A.sa
  let Ce := A.be ^^^ A.ge ^^^ A.ke ^^^ A.me ^^^ A.se
  let Ci := A.bi ^^^ A.gi ^^^ A.ki ^^^ A.mi ^^^ A.si
  let Co := A.bo ^^^ A.go ^^^ A.ko ^^^ A.mo ^^^ A.so
  let Cu := A.bu ^^^ A.gu ^^^ A.ku ^^^ A.mu ^^^ A.su
  let Da := Cu ^^^ rol64 Ce 1
  let De := Ca ^^^ rol64 Ci 1
  let Di := Ce ^^^ rol64 Co 1
  let Do := Ci ^^^ rol64 Cu 1
  let Du := Co ^^^ rol64 Ca 1
  { ba := A.ba ^^^ Da, be := A.be ^^^ De, bi := A.bi ^^^ Di, bo := A.bo ^^^ Do, bu := A.bu ^^^ Du
    ga := A.ga ^^^ Da, ge := A.ge ^^^ De, gi := A.gi ^^^ Di, go := A.go ^^^ Do, gu := A.gu ^^^ Du
    ka := A.ka ^^^ Da, ke := A.ke ^^^ De, ki := A.ki ^^^ Di, ko := A.ko ^^^ Do, ku := A.ku ^^^ Du
    ma := A.ma ^^^ Da, me := A.me ^^^ De, mi := A.mi ^^^ Di, mo := A.mo ^^^ Do, mu := A.mu ^^^ Du
    sa := A.sa ^^^ Da, se := A.se ^^^ De, si := A.si ^^^ Di, so := A.so ^^^ Do, su := A.su ^^^ Du }

/-- `Bba`, .., `Bsu`. -/
def rhoPiLanes (A : Lanes) : Lanes where
  ba := A.ba
  be := rol64 A.ge 44
  bi := rol64 A.ki 43
  bo := rol64 A.mo 21
  bu := rol64 A.su 14
  ga := rol64 A.bo 28
  ge := rol64 A.gu 20
  gi := rol64 A.ka 3
  go := rol64 A.me 45
  gu := rol64 A.si 61
  ka := rol64 A.be 1
  ke := rol64 A.gi 6
  ki := rol64 A.ko 25
  ko := rol64 A.mu 8
  ku := rol64 A.sa 18
  ma := rol64 A.bu 27
  me := rol64 A.ga 36
  mi := rol64 A.ke 10
  mo := rol64 A.mi 15
  mu := rol64 A.so 56
  sa := rol64 A.bi 62
  se := rol64 A.go 55
  si := rol64 A.ku 39
  so := rol64 A.ma 41
  su := rol64 A.se 2

/-- `Eba`, .., `Esu`. -/
def chiIotaLanes (rc : UInt64) (B : Lanes) : Lanes where
  ba := chiLane B.ba B.be B.bi ^^^ rc
  be := chiLane B.be B.bi B.bo
  bi := chiLane B.bi B.bo B.bu
  bo := chiLane B.bo B.bu B.ba
  bu := chiLane B.bu B.ba B.be
  ga := chiLane B.ga B.ge B.gi
  ge := chiLane B.ge B.gi B.go
  gi := chiLane B.gi B.go B.gu
  go := chiLane B.go B.gu B.ga
  gu := chiLane B.gu B.ga B.ge
  ka := chiLane B.ka B.ke B.ki
  ke := chiLane B.ke B.ki B.ko
  ki := chiLane B.ki B.ko B.ku
  ko := chiLane B.ko B.ku B.ka
  ku := chiLane B.ku B.ka B.ke
  ma := chiLane B.ma B.me B.mi
  me := chiLane B.me B.mi B.mo
  mi := chiLane B.mi B.mo B.mu
  mo := chiLane B.mo B.mu B.ma
  mu := chiLane B.mu B.ma B.me
  sa := chiLane B.sa B.se B.si
  se := chiLane B.se B.si B.so
  si := chiLane B.si B.so B.su
  so := chiLane B.so B.su B.sa
  su := chiLane B.su B.sa B.se

theorem thetaRhoPiChiIota_eq (rc : UInt64) (A : Lanes) :
    thetaRhoPiChiIota rc A = chiIotaLanes rc (rhoPiLanes (thetaLanes A)) := rfl

theorem thetaLanes_plane (A : Lanes) : (thetaLanes A).plane = theta A.plane := by
  have hlane : ∀ lane a b : UInt64, (lane ^^^ (a ^^^ rol64 b 1)).toBitVec
      = lane.toBitVec ^^^ (a.toBitVec ^^^ b.toBitVec.rotateLeft 1) := by
    intro lane a b
    rw [UInt64.toBitVec_xor, UInt64.toBitVec_xor, toBitVec_rol64 b (by decide) (by decide)]
    rfl
  funext x y
  -- the column says which parities go in, the row only which lane
  fin_cases x <;> fin_cases y <;> exact hlane _ _ _

theorem rhoPiLanes_plane (A : Lanes) : (rhoPiLanes A).plane = pi (rho A.plane) := by
  have horigin : offset 0 0 = 0 := by decide
  funext x y
  by_cases hzero : x = 0 ∧ y = 0
  · -- the lane that stays
    obtain ⟨rfl, rfl⟩ := hzero
    show A.ba.toBitVec = A.ba.toBitVec.rotateLeft (offset 0 0)
    rw [horigin, Lib.Keccak.rotateLeft_eq_xor _ (by decide), if_pos rfl]
  · fin_cases x <;> fin_cases y <;>
      first
        | exact absurd ⟨rfl, rfl⟩ hzero
        | exact toBitVec_rol64_offset _ (by decide) (by decide)

theorem chiIotaLanes_plane (rc : UInt64) (B : Lanes) :
    (chiIotaLanes rc B).plane = iota rc.toBitVec (chi B.plane) := by
  funext x y
  fin_cases x <;> fin_cases y <;> rfl

/-- A round of the code is a round. -/
theorem thetaRhoPiChiIota_plane (rc : UInt64) (A : Lanes) :
    (thetaRhoPiChiIota rc A).plane = round rc.toBitVec A.plane := by
  rw [thetaRhoPiChiIota_eq, chiIotaLanes_plane, rhoPiLanes_plane, thetaLanes_plane]
  rfl

/-- The literals are the constants of the last twelve rounds. -/
theorem keccakRoundConstants_eq :
    keccakRoundConstants.map UInt64.toBitVec = (List.range' 12 12).map (roundConstant 64 6) := by
  decide +kernel

/-- The code's rounds are the permutation Keccak-p with twelve rounds on 1600 bits. -/
theorem rounds12_keccakP (A : Lanes) : (rounds12 A).plane = keccakP 6 12 A.plane := by
  have hfold : ∀ (rcs : List UInt64) (A : Lanes),
      (rcs.foldl (fun A rc => thetaRhoPiChiIota rc A) A).plane
        = (rcs.map UInt64.toBitVec).foldl (fun A rc => round rc A) A.plane := by
    intro rcs
    induction rcs with
    | nil => exact fun A => rfl
    | cons rc rcs ih =>
      intro A
      rw [List.foldl_cons, ih, thetaRhoPiChiIota_plane]
      rfl
  rw [rounds12, hfold, keccakRoundConstants_eq, List.foldl_map]
  rfl

end QubicLedger
