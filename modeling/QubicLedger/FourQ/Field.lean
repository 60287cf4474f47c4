import QubicLedger.FourQ.Digits
import QubicLedger.Lib.FixedBuf
import Mathlib.NumberTheory.LucasLehmer
import Mathlib.FieldTheory.Finite.Basic

/-!
# The prime field (`ARM/fp_arm.c`)

Field elements are four digits below `2¹²⁷`. The prime is `2¹²⁷ - 1`, so zero
has two representations and a carry out of bit 126 is added back at the
bottom. `FpRep a x` says that the digits `a` stand for the residue `x`; each
operation has one lemma in terms of it, and no later proof looks at digits of a
field element again, except the encoding, which needs the unique
representation that `mod1271` leaves.
-/

namespace QubicLedger

open Lib (FixedBuf)
open Lib.Limbs (value chain mulRows)

/-- `NWORDS_FIELD`. -/
abbrev nwordsField : Nat := 4

/-- `felm_t`. -/
abbrev Felm := FixedBuf Digit nwordsField

theorem Felm.length_cells (a : Felm) : a.cells.length = 4 := a.size_eq

/-- The number in a field element. -/
def Felm.val (a : Felm) : Nat := value a.cells

/-- The prime. -/
abbrev p1271 : Nat := mersenne 127

instance : Fact (Nat.Prime p1271) := ⟨lucas_lehmer_sufficiency 127 (by norm_num) (by norm_num)⟩

abbrev Fp := ZMod p1271

/-! ## The functions -/

/-- `mask_7fff`, `prime1271_0`, `prime1271_1`. -/
def mask7fff : Digit := 0x7FFFFFFF
def prime1271_0 : Digit := 0xFFFFFFFF
def prime1271_1 : Digit := mask7fff

/-- `c[NWORDS_FIELD - 1] >> (RADIX - 1)`. -/
def topBit (c : List Digit) : Digit := c.getD 3 0 >>> 31

/-- `c[NWORDS_FIELD - 1] &= mask_7fff`. -/
def maskTop (c : List Digit) : List Digit := c.set 3 (c.getD 3 0 &&& mask7fff)

/-- `fpzero1271`. -/
def fpzero1271 : Felm := .fill nwordsField 0

def zeroDigits : List Digit := [0, 0, 0, 0]

/-- The last lines of `fpadd1271` and `fpmul1271`: bit 127 is added at the bottom. -/
def foldCarry (c : List Digit) : List Digit := (chain addc (topBit c) (maskTop c) zeroDigits).2

/-- The last lines of `fpsub1271`: bit 127 is taken off at the bottom. -/
def foldBorrow (c : List Digit) : List Digit := (chain subc (topBit c) (maskTop c) zeroDigits).2

theorem length_foldCarry {c : List Digit} (h : c.length = 4) : (foldCarry c).length = 4 := by
  have hmask : (maskTop c).length = 4 := by rw [maskTop, List.length_set, h]
  exact (Lib.Limbs.length_chain (hmask.trans rfl)).trans hmask

theorem length_foldBorrow {c : List Digit} (h : c.length = 4) : (foldBorrow c).length = 4 := by
  have hmask : (maskTop c).length = 4 := by rw [maskTop, List.length_set, h]
  exact (Lib.Limbs.length_chain (hmask.trans rfl)).trans hmask

theorem length_chain_felm {α : Type} {f : α → Digit → Digit → α × Digit} {c : α} (a b : Felm) :
    (chain f c a.cells b.cells).2.length = 4 := by
  rw [Lib.Limbs.length_chain (a.size_eq.trans b.size_eq.symm), a.size_eq]

/-- `fpadd1271`. -/
def fpadd1271 (a b : Felm) : Felm :=
  ⟨foldCarry (chain addc 0 a.cells b.cells).2, length_foldCarry (length_chain_felm a b)⟩

/-- `fpsub1271`. -/
def fpsub1271 (a b : Felm) : Felm :=
  ⟨foldBorrow (chain subc 0 a.cells b.cells).2, length_foldBorrow (length_chain_felm a b)⟩

/-- `fpneg1271`. -/
def fpneg1271 (a : Felm) : Felm :=
  ⟨(chain subc 0 [prime1271_0, prime1271_0, prime1271_0] (a.cells.take 3)).2
      ++ [prime1271_1 - a.cells.getD 3 0], by
    have ha := a.size_eq
    rw [List.length_append, Lib.Limbs.length_chain]
    · rfl
    · rw [List.length_take, ha]
      rfl⟩

/-- The body of the reduction loop of `fpmul1271`: the high half, shifted left
by the bit above the low half, is added to the low half. -/
def reduceStep (bc : Digit × Digit) (lo hi : Digit) : (Digit × Digit) × Digit :=
  let temp := hi >>> 31
  let hi := (hi <<< 1) + bc.1
  let r := addc bc.2 lo hi
  ((temp, r.1), r.2)

/-- `t` after the double loop of `fpmul1271`. -/
def product (a b : Felm) : List Digit := mulRows mulStep a.cells b.cells zeroDigits

theorem length_product (a b : Felm) : (product a b).length = 8 := by
  have hb : b.cells ≠ [] := by
    intro h
    have hsize := b.size_eq
    rw [h] at hsize
    exact absurd hsize (by decide)
  rw [product, Lib.Limbs.length_mulRows (b.size_eq.symm ▸ rfl) hb, a.size_eq, b.size_eq]
  rfl

/-- `fpmul1271`. -/
def fpmul1271 (a b : Felm) : Felm :=
  let t := product a b
  let lo := t.take nwordsField
  ⟨foldCarry (chain reduceStep (topBit lo, 0) (maskTop lo) (t.drop nwordsField)).2, by
    have ht := length_product a b
    have hlo : (maskTop (t.take nwordsField)).length = 4 := by
      rw [maskTop, List.length_set, List.length_take, ht]
      rfl
    refine length_foldCarry ((Lib.Limbs.length_chain ?_).trans hlo)
    rw [hlo, List.length_drop, ht]
    rfl⟩

/-- `fpsqr1271`. -/
def fpsqr1271 (a : Felm) : Felm := fpmul1271 a a

/-- The digits of the prime. -/
def primeDigits : List Digit := [prime1271_0, prime1271_0, prime1271_0, prime1271_1]

/-- What `mod1271` and `fpdiv1271` add under a mask. -/
def maskedPrime (mask : Digit) : List Digit := [mask, mask, mask, mask >>> 1]

/-- `mod1271`. -/
def mod1271 (a : Felm) : Felm :=
  let r := chain subc 0 a.cells primeDigits
  ⟨(chain addc 0 r.2 (maskedPrime (0 - r.1))).2, by
    have ha := a.size_eq
    have hr : r.2.length = 4 := (Lib.Limbs.length_chain ha).trans ha
    exact (Lib.Limbs.length_chain (hr.trans rfl)).trans hr⟩

/-- `for (i = 0; i < n; i++) fpsqr1271(t, t)`. -/
def fpsqrTimes (n : Nat) (t : Felm) : Felm := fpsqr1271^[n] t

/-- `fpexp1251`. -/
def fpexp1251 (a : Felm) : Felm :=
  let t2 := fpmul1271 a (fpsqr1271 a)
  let t3 := fpmul1271 t2 (fpsqr1271 (fpsqr1271 t2))
  let t4 := fpmul1271 t3 (fpsqr1271 (fpsqr1271 (fpsqr1271 (fpsqr1271 t3))))
  let t5 := fpmul1271 t4 (fpsqrTimes 7 (fpsqr1271 t4))
  let t2 := fpmul1271 t5 (fpsqrTimes 15 (fpsqr1271 t5))
  let t1 := fpmul1271 t2 (fpsqrTimes 31 (fpsqr1271 t2))
  let t1 := fpmul1271 (fpsqrTimes 32 t1) t2
  let t1 := fpmul1271 t5 (fpsqrTimes 16 t1)
  let t1 := fpmul1271 t4 (fpsqrTimes 8 t1)
  let t1 := fpmul1271 t3 (fpsqrTimes 4 t1)
  fpmul1271 a (fpsqr1271 t1)

/-- `fpinv1271`. -/
def fpinv1271 (a : Felm) : Felm := fpmul1271 a (fpsqr1271 (fpsqr1271 (fpexp1251 a)))

/-- `fpdiv1271`. -/
def fpdiv1271 (a : Felm) : Felm :=
  let mask := 0 - (a.cells.getD 0 0 &&& 1)
  ⟨shiftRightOne (chain addc 0 (maskedPrime mask) a.cells).2, by
    have ha := a.size_eq
    rw [length_shiftRightOne, Lib.Limbs.length_chain (by rw [ha]; rfl)]
    rfl⟩

/-! ## Folding bit 127 -/

/-- Bit 127 and what is left without it. -/
theorem split_top {c : List Digit} (h : c.length = 4) :
    (maskTop c).length = 4 ∧ (topBit c).toNat ≤ 1 ∧ value (maskTop c) < 2 ^ 127 ∧
    value c = value (maskTop c) + 2 ^ 127 * (topBit c).toNat := by
  match c, h with
  | [c₀, c₁, c₂, c₃], _ =>
    have h₀ := c₀.isLt
    have h₁ := c₁.isLt
    have h₂ := c₂.isLt
    have h₃ := c₃.isLt
    have hlow : (c₃ &&& mask7fff).toNat = c₃.toNat % 2 ^ 31 := by
      rw [BitVec.toNat_and, show mask7fff.toNat = 2 ^ 31 - 1 from rfl,
        Nat.and_two_pow_sub_one_eq_mod]
    have htop := toNat_shiftRight c₃ 31
    refine ⟨rfl, ?_⟩
    show (c₃ >>> 31).toNat ≤ 1 ∧ value [c₀, c₁, c₂, c₃ &&& mask7fff] < 2 ^ 127 ∧
      value [c₀, c₁, c₂, c₃] = value [c₀, c₁, c₂, c₃ &&& mask7fff] + 2 ^ 127 * (c₃ >>> 31).toNat
    simp only [Lib.Limbs.value_cons, Lib.Limbs.value_nil, hlow, htop]
    omega

@[simp] theorem value_zeroDigits : value zeroDigits = 0 := rfl

/-- The fold, unless every bit is set: the low 127 bits plus the one above. -/
theorem value_foldCarry {c : List Digit} (h : c.length = 4) (hlt : value c < 2 ^ 128 - 1) :
    value (foldCarry c) = value c % 2 ^ 127 + value c / 2 ^ 127 := by
  obtain ⟨hlen, htop, hmask, hval⟩ := split_top h
  obtain ⟨hcarry, hsum⟩ := Lib.Limbs.chain_add addc_spec htop
    (show (maskTop c).length = zeroDigits.length from hlen)
  have hbound := Lib.Limbs.value_lt (foldCarry c)
  rw [length_foldCarry h] at hbound
  rw [hlen, value_zeroDigits] at hsum
  change value (foldCarry c) + _ = _ at hsum
  have hfold : value (foldCarry c) = value (maskTop c) + (topBit c).toNat := by omega
  rw [hfold, hval, Nat.add_mul_mod_self_left, Nat.mod_eq_of_lt hmask,
    Nat.add_mul_div_left _ _ (by positivity), Nat.div_eq_of_lt hmask, Nat.zero_add]

/-- Taking bit 127 off at the bottom. -/
theorem value_foldBorrow {c : List Digit} (h : c.length = 4)
    (hpos : (topBit c).toNat ≤ value (maskTop c)) :
    value (foldBorrow c) + (topBit c).toNat = value (maskTop c) := by
  obtain ⟨hlen, htop, hmask, -⟩ := split_top h
  obtain ⟨hborrow, hdiff⟩ := Lib.Limbs.chain_sub subc_spec htop
    (show (maskTop c).length = zeroDigits.length from hlen)
  have hbound := Lib.Limbs.value_lt (foldBorrow c)
  rw [length_foldBorrow h] at hbound
  rw [hlen, value_zeroDigits] at hdiff
  change value (foldBorrow c) + _ + _ = _ at hdiff
  omega

/-! ## What the functions compute -/

/-- The digits stand for the residue. -/
structure FpRep (a : Felm) (x : Fp) : Prop where
  lt : a.val < 2 ^ 127
  eq : (a.val : Fp) = x

variable {a b : Felm} {x y : Fp}

theorem p1271_eq : p1271 = 2 ^ 127 - 1 := rfl

/-- `2¹²⁷` is one in the field. -/
theorem two_pow_127 : (2 ^ 127 : Fp) = 1 := by
  have h : ((2 ^ 127 - 1 + 1 : Nat) : Fp) = 0 + 1 := by
    rw [Nat.cast_add, ← p1271_eq, ZMod.natCast_self, Nat.cast_one]
  rw [zero_add] at h
  rw [← h]
  norm_num

/-- The low 127 bits plus the rest: the same residue. -/
theorem cast_fold (n : Nat) : ((n % 2 ^ 127 + n / 2 ^ 127 : Nat) : Fp) = (n : Fp) := by
  have hsplit := congrArg (Nat.cast : Nat → Fp) (Nat.mod_add_div n (2 ^ 127))
  rw [Nat.cast_add, Nat.cast_mul, Nat.cast_pow, Nat.cast_ofNat, two_pow_127, one_mul] at hsplit
  rw [Nat.cast_add, hsplit]

theorem FpRep.zero : FpRep fpzero1271 0 := ⟨by decide, rfl⟩

/-- The number that `fpadd1271` leaves. -/
theorem fpadd1271_val (ha : a.val < 2 ^ 127) (hb : b.val < 2 ^ 127) :
    (fpadd1271 a b).val = (a.val + b.val) % 2 ^ 127 + (a.val + b.val) / 2 ^ 127 := by
  obtain ⟨hcarry, hsum⟩ := Lib.Limbs.chain_add addc_spec (c := 0) (by decide)
    (a.size_eq.trans b.size_eq.symm)
  rw [a.length_cells] at hsum
  have hval : value (chain addc 0 a.cells b.cells).2 = a.val + b.val := by
    have hzero : (0 : Digit).toNat = 0 := rfl
    unfold Felm.val at *
    omega
  rw [← hval]
  exact value_foldCarry (length_chain_felm a b) (by omega)

/-- `fpadd1271`. -/
theorem FpRep.add (ha : FpRep a x) (hb : FpRep b y) : FpRep (fpadd1271 a b) (x + y) := by
  have hval := fpadd1271_val ha.lt hb.lt
  have hlt := ha.lt
  have hlt' := hb.lt
  refine ⟨by omega, ?_⟩
  rw [hval, cast_fold, Nat.cast_add, ha.eq, hb.eq]

/-- The number that `fpsub1271` leaves. -/
theorem fpsub1271_val (ha : a.val < 2 ^ 127) (hb : b.val < 2 ^ 127) :
    (fpsub1271 a b).val = if b.val ≤ a.val then a.val - b.val else a.val + p1271 - b.val := by
  obtain ⟨hborrow, hdiff⟩ := Lib.Limbs.chain_sub subc_spec (c := 0) (by decide)
    (a.size_eq.trans b.size_eq.symm)
  have hlen := length_chain_felm (f := subc) (c := 0) a b
  obtain ⟨-, htop, hmask, hsplit⟩ := split_top hlen
  rw [a.length_cells] at hdiff
  have hzero : (0 : Digit).toNat = 0 := rfl
  have hfold := value_foldBorrow hlen (by unfold Felm.val at *; omega)
  change (fpsub1271 a b).val + _ = _ at hfold
  rw [p1271_eq]
  change value (chain subc 0 a.cells b.cells).2 + b.val + _ = a.val + _ at hdiff
  have hbit : (topBit (chain subc 0 a.cells b.cells).2).toNat = 0 ∨
      (topBit (chain subc 0 a.cells b.cells).2).toNat = 1 := by omega
  rcases hbit with hbit | hbit <;> rw [hbit] at hfold hsplit <;> split <;> omega

/-- `fpsub1271`. -/
theorem FpRep.sub (ha : FpRep a x) (hb : FpRep b y) : FpRep (fpsub1271 a b) (x - y) := by
  have hval := fpsub1271_val ha.lt hb.lt
  have hlt := ha.lt
  have hlt' := hb.lt
  have hprime := p1271_eq
  have hsum : (fpsub1271 a b).val + b.val
      = a.val + p1271 * (if b.val ≤ a.val then 0 else 1) := by
    split at hval <;> split <;> omega
  refine ⟨by split at hval <;> omega, ?_⟩
  have hcast := congrArg (Nat.cast : Nat → Fp) hsum
  rw [Nat.cast_add, Nat.cast_add, Nat.cast_mul, ZMod.natCast_self, zero_mul, add_zero, ha.eq,
    hb.eq] at hcast
  exact eq_sub_of_add_eq hcast

/-- `fpneg1271`. -/
theorem FpRep.neg (ha : FpRep a x) : FpRep (fpneg1271 a) (-x) := by
  have hval : (fpneg1271 a).val + a.val = p1271 := by
    have hlt := ha.lt
    obtain ⟨cells, hsize⟩ := a
    match cells, hsize with
    | [a₀, a₁, a₂, a₃], _ =>
      -- no digit of the prime is below a digit of `a`
      obtain ⟨hborrow, hdiff⟩ := Lib.Limbs.chain_sub subc_spec (c := 0) (by decide)
        (show [prime1271_0, prime1271_0, prime1271_0].length = [a₀, a₁, a₂].length from rfl)
      have hlen : (chain subc 0 [prime1271_0, prime1271_0, prime1271_0] [a₀, a₁, a₂]).2.length = 3 :=
        Lib.Limbs.length_chain rfl
      have hlow := Lib.Limbs.value_lt [a₀, a₁, a₂]
      have htop := BitVec.toNat_sub prime1271_1 a₃
      have h₃ := a₃.isLt
      have hp₀ : value [prime1271_0, prime1271_0, prime1271_0] = 2 ^ 96 - 1 := rfl
      have hp₁ : prime1271_1.toNat = 2 ^ 31 - 1 := rfl
      have hz : (0 : Digit).toNat = 0 := rfl
      have hsplit : value [a₀, a₁, a₂, a₃] = value [a₀, a₁, a₂] + 2 ^ 96 * a₃.toNat :=
        (Lib.Limbs.value_append [a₀, a₁, a₂] [a₃]).trans (by simp)
      show value ((chain subc 0 [prime1271_0, prime1271_0, prime1271_0] [a₀, a₁, a₂]).2
        ++ [prime1271_1 - a₃]) + value [a₀, a₁, a₂, a₃] = p1271
      rw [Lib.Limbs.value_append, hlen, Lib.Limbs.value_cons, Lib.Limbs.value_nil, p1271_eq]
      change value [a₀, a₁, a₂, a₃] < 2 ^ 127 at hlt
      have hdlow := Lib.Limbs.value_lt
        (chain subc 0 [prime1271_0, prime1271_0, prime1271_0] [a₀, a₁, a₂]).2
      rw [hlen] at hdlow
      rw [show [prime1271_0, prime1271_0, prime1271_0].length = 3 from rfl] at hdiff
      rw [show [a₀, a₁, a₂].length = 3 from rfl] at hlow
      omega
  have hlt := ha.lt
  refine ⟨by rw [p1271_eq] at hval; omega, ?_⟩
  have hcast := congrArg (Nat.cast : Nat → Fp) hval
  rw [Nat.cast_add, ZMod.natCast_self, ha.eq] at hcast
  exact eq_neg_of_add_eq_zero_left hcast

/-- The reduction loop of `fpmul1271` adds twice the high half, and the bit
handed in, to the low half. -/
theorem reduceStep_chain {bm : Digit} {lo hi : List Digit} (hbm : bm.toNat ≤ 1)
    (hlen : lo.length = hi.length) :
    value (chain reduceStep (bm, 0) lo hi).2
      + 2 ^ (32 * lo.length) * ((chain reduceStep (bm, 0) lo hi).1.1.toNat
        + (chain reduceStep (bm, 0) lo hi).1.2.toNat)
      = value lo + 2 * value hi + bm.toNat := by
  have h := Lib.Limbs.chain_value (f := reduceStep) (a := 1) (b := 2)
    (v := fun bc => (bc.1.toNat : ℤ) + bc.2.toNat) (P := fun bc => bc.1.toNat ≤ 1 ∧ bc.2.toNat ≤ 1)
    (c := (bm, 0)) ?_ ?_ ⟨hbm, (by decide : (0 : Digit).toNat ≤ 1)⟩ hlen
  · have hval := h.2
    zify
    simp only [show (0 : Digit).toNat = 0 from rfl] at hval
    push_cast at hval
    linear_combination hval
  · intro bc l t hbc
    refine ⟨?_, (addc_spec _ _ _ hbc.2).1⟩
    have ht := t.isLt
    have hshift := toNat_shiftRight t 31
    show (t >>> 31).toNat ≤ 1
    omega
  · intro bc l t hbc
    have hadd := (addc_spec bc.2 l ((t <<< 1) + bc.1) hbc.2).2
    have ht := t.isLt
    have hshift := toNat_shiftRight t 31
    have hdouble : ((t <<< 1) + bc.1).toNat + 2 ^ 32 * (t >>> 31).toNat
        = 2 * t.toNat + bc.1.toNat := by
      have hbit := hbc.1
      rw [BitVec.toNat_add, BitVec.toNat_shiftLeft, Nat.shiftLeft_eq]
      omega
    show ((addc bc.2 l ((t <<< 1) + bc.1)).2.toNat : ℤ)
      + 2 ^ 32 * (((t >>> 31).toNat : ℤ) + (addc bc.2 l ((t <<< 1) + bc.1)).1.toNat)
      = 1 * l.toNat + 2 * t.toNat + (bc.1.toNat + bc.2.toNat)
    zify at hadd hdouble
    linear_combination hadd + hdouble

/-- What the reduction loop of `fpmul1271` leaves of a product: its low 127 bits
plus the rest. -/
theorem reduce_product {t : List Digit} (ht : t.length = 8)
    (hbound : value t ≤ (2 ^ 127 - 1) * (2 ^ 127 - 1)) :
    (chain reduceStep (topBit (t.take 4), 0) (maskTop (t.take 4)) (t.drop 4)).2.length = 4 ∧
    value (chain reduceStep (topBit (t.take 4), 0) (maskTop (t.take 4)) (t.drop 4)).2
      = value t % 2 ^ 127 + value t / 2 ^ 127 := by
  have hlo := Lib.Limbs.value_take (by rw [ht]; decide : 4 ≤ t.length)
  have hhi := Lib.Limbs.value_drop (by rw [ht]; decide : 4 ≤ t.length)
  have hlolen : (t.take 4).length = 4 := by
    rw [List.length_take, ht]
    rfl
  have hhilen : (t.drop 4).length = 4 := by rw [List.length_drop, ht]
  obtain ⟨hmasklen, htop, hmask, hsplit⟩ := split_top hlolen
  have hsum := reduceStep_chain htop (hmasklen.trans hhilen.symm)
  refine ⟨(Lib.Limbs.length_chain (hmasklen.trans hhilen.symm)).trans hmasklen, ?_⟩
  rw [hmasklen] at hsum
  generalize value t = n at *
  generalize chain reduceStep (topBit (t.take 4), 0) (maskTop (t.take 4)) (t.drop 4) = r at *
  have hlow : value (maskTop (t.take 4)) = n % 2 ^ 127 := by omega
  have hhigh : 2 * value (t.drop 4) + (topBit (t.take 4)).toNat = n / 2 ^ 127 := by omega
  have hfit : n / 2 ^ 127 < 2 ^ 127 := by omega
  omega

/-- The number that `fpmul1271` leaves: folded twice. -/
theorem fpmul1271_val (ha : a.val < 2 ^ 127) (hb : b.val < 2 ^ 127) :
    let n := a.val * b.val % 2 ^ 127 + a.val * b.val / 2 ^ 127
    (fpmul1271 a b).val = n % 2 ^ 127 + n / 2 ^ 127 ∧ n < 2 ^ 128 - 1 := by
  intro n
  have hb' : b.cells ≠ [] := by
    intro h
    have hsize := b.length_cells
    rw [h] at hsize
    exact absurd hsize (by decide)
  have hprod : value (product a b) = a.val * b.val :=
    (Lib.Limbs.value_mulRows mulStep_spec (b.length_cells.symm ▸ rfl) hb').trans (Nat.add_zero _)
  have hbound : a.val * b.val ≤ (2 ^ 127 - 1) * (2 ^ 127 - 1) :=
    Nat.mul_le_mul (by omega) (by omega)
  obtain ⟨hlen, hval⟩ := reduce_product (length_product a b) (hprod ▸ hbound)
  rw [hprod] at hval
  have hlt : n < 2 ^ 128 - 1 := by omega
  have hfold : (fpmul1271 a b).val = _ := value_foldCarry hlen (hval ▸ hlt)
  exact ⟨hfold.trans (by rw [hval]), hlt⟩

/-- `fpmul1271`. -/
theorem FpRep.mul (ha : FpRep a x) (hb : FpRep b y) : FpRep (fpmul1271 a b) (x * y) := by
  obtain ⟨hval, hlt⟩ := fpmul1271_val ha.lt hb.lt
  refine ⟨by omega, ?_⟩
  rw [hval, cast_fold, cast_fold, Nat.cast_mul, ha.eq, hb.eq]

/-- `fpsqr1271`. -/
theorem FpRep.sqr (ha : FpRep a x) : FpRep (fpsqr1271 a) (x ^ 2) := by
  rw [pow_two]
  exact ha.mul ha

theorem FpRep.sqrTimes (ha : FpRep a x) (n : Nat) : FpRep (fpsqrTimes n a) (x ^ 2 ^ n) := by
  induction n with
  | zero => simpa [fpsqrTimes] using ha
  | succ n ih =>
    rw [fpsqrTimes, Function.iterate_succ_apply', pow_succ, pow_mul]
    exact ih.sqr

/-- A step of the addition chain of `fpexp1251`. -/
theorem pow_chainStep (x : Fp) (m n : Nat) :
    x ^ (2 ^ (m + n) - 1) = x ^ (2 ^ n - 1) * (x ^ (2 ^ m - 1)) ^ 2 ^ n := by
  have hm := Nat.mul_le_mul (Nat.one_le_two_pow (n := m)) (le_refl (2 ^ n))
  have hn := Nat.one_le_two_pow (n := n)
  rw [← pow_mul, ← pow_add]
  congr 1
  rw [pow_add, Nat.sub_mul, one_mul]
  omega

theorem FpRep.chainStep {t : Felm} {k m n : Nat} (ha : FpRep a (x ^ (2 ^ m - 1)))
    (hb : FpRep b (x ^ (2 ^ n - 1))) (ht : t = fpsqrTimes n a) (hk : k = m + n) :
    FpRep (fpmul1271 b t) (x ^ (2 ^ k - 1)) := by
  rw [ht, hk, pow_chainStep]
  exact hb.mul (ha.sqrTimes n)

/-- `fpexp1251` raises to the power `2¹²⁵ - 1`. -/
theorem FpRep.exp1251 (ha : FpRep a x) : FpRep (fpexp1251 a) (x ^ (2 ^ 125 - 1)) := by
  have h1 : FpRep a (x ^ (2 ^ 1 - 1)) := by simpa using ha
  unfold fpexp1251
  extract_lets t2 t3 t4 t5 t2' t1 t1a t1b t1c t1d
  have h2 : FpRep t2 (x ^ (2 ^ 2 - 1)) := h1.chainStep h1 rfl rfl
  have h4 : FpRep t3 (x ^ (2 ^ 4 - 1)) := h2.chainStep h2 rfl rfl
  have h8 : FpRep t4 (x ^ (2 ^ 8 - 1)) := h4.chainStep h4 rfl rfl
  have h16 : FpRep t5 (x ^ (2 ^ 16 - 1)) := h8.chainStep h8 rfl rfl
  have h32 : FpRep t2' (x ^ (2 ^ 32 - 1)) := h16.chainStep h16 rfl rfl
  have h64 : FpRep t1 (x ^ (2 ^ 64 - 1)) := h32.chainStep h32 rfl rfl
  have h96 : FpRep t1a (x ^ (2 ^ 96 - 1)) := by
    rw [pow_chainStep x 64 32, mul_comm]
    exact (h64.sqrTimes 32).mul h32
  have h112 : FpRep t1b (x ^ (2 ^ 112 - 1)) := h96.chainStep h16 rfl rfl
  have h120 : FpRep t1c (x ^ (2 ^ 120 - 1)) := h112.chainStep h8 rfl rfl
  have h124 : FpRep t1d (x ^ (2 ^ 124 - 1)) := h120.chainStep h4 rfl rfl
  exact h124.chainStep h1 rfl rfl

/-- `fpinv1271`: the inverse, and zero for zero. -/
theorem FpRep.inv (ha : FpRep a x) : FpRep (fpinv1271 a) x⁻¹ := by
  have hmul := ha.mul ha.exp1251.sqr.sqr
  have hpow : x⁻¹ = x * ((x ^ (2 ^ 125 - 1)) ^ 2) ^ 2 := by
    rw [← pow_mul, ← pow_mul, ← pow_succ']
    rcases eq_or_ne x 0 with rfl | hx
    · rw [inv_zero, zero_pow (by norm_num)]
    · have hfermat := ZMod.pow_card_sub_one_eq_one hx
      refine inv_eq_of_mul_eq_one_right ?_
      rw [← pow_succ']
      exact hfermat
  rw [hpow]
  exact hmul

theorem Felm.val_lt (a : Felm) : a.val < 2 ^ 128 := by
  have h := Lib.Limbs.value_lt a.cells
  rw [a.length_cells] at h
  exact h

theorem value_maskedPrime {b : Digit} (h : b.toNat ≤ 1) :
    value (maskedPrime (0 - b)) = p1271 * b.toNat := by
  have hb : b = 0 ∨ b = 1 := by
    rcases Nat.le_one_iff_eq_zero_or_eq_one.mp h with h | h
    · exact .inl (BitVec.eq_of_toNat_eq h)
    · exact .inr (BitVec.eq_of_toNat_eq h)
  rcases hb with rfl | rfl <;> rfl

/-- `mod1271` leaves the one representation below the prime. -/
theorem mod1271_val (h : a.val < 2 ^ 127) : (mod1271 a).val = a.val % p1271 := by
  have hz : (0 : Digit).toNat ≤ 1 := by decide
  obtain ⟨hborrow, hdiff⟩ := Lib.Limbs.chain_sub subc_spec hz
    (show a.cells.length = primeDigits.length from a.size_eq)
  have hlen : (chain subc 0 a.cells primeDigits).2.length = 4 :=
    (Lib.Limbs.length_chain a.size_eq).trans a.size_eq
  obtain ⟨hcarry, hsum⟩ := Lib.Limbs.chain_add addc_spec hz
    (show _ = (maskedPrime (0 - (chain subc 0 a.cells primeDigits).1)).length from hlen)
  have hlt := (mod1271 a).val_lt
  have hzero : (0 : Digit).toNat = 0 := rfl
  have hbound := Lib.Limbs.value_lt (chain subc 0 a.cells primeDigits).2
  rw [value_maskedPrime hborrow, hlen, hzero] at hsum
  rw [a.length_cells, show value primeDigits = p1271 from rfl, hzero] at hdiff
  rw [hlen] at hbound
  change (mod1271 a).val + _ = _ at hsum
  change _ = a.val + _ at hdiff
  rw [p1271_eq] at *
  rcases Nat.lt_or_ge a.val (2 ^ 127 - 1) with hsmall | hbig
  · rw [Nat.mod_eq_of_lt hsmall]
    omega
  · rw [show a.val = 2 ^ 127 - 1 by omega, Nat.mod_self]
    omega

theorem FpRep.mod1271 (ha : FpRep a x) :
    FpRep (mod1271 a) x ∧ (QubicLedger.mod1271 a).val = x.val := by
  have hval := mod1271_val ha.lt
  have hlt : a.val % p1271 < p1271 := Nat.mod_lt _ (by decide)
  refine ⟨⟨?_, ?_⟩, ?_⟩
  · rw [hval]
    exact hlt.trans (by rw [p1271_eq]; norm_num)
  · rw [hval, ZMod.natCast_mod, ha.eq]
  · rw [hval, ← ha.eq, ZMod.val_natCast]

/-- The lowest bit. -/
theorem toNat_lowBit (a : Felm) : (a.cells.getD 0 0 &&& 1).toNat = a.val % 2 := by
  obtain ⟨cells, hsize⟩ := a
  match cells, hsize with
  | x :: xs, _ =>
    show (x &&& 1).toNat = value (x :: xs) % 2
    rw [BitVec.toNat_and, Lib.Limbs.value_cons, show (1 : Digit).toNat = 2 ^ 1 - 1 from rfl,
      Nat.and_two_pow_sub_one_eq_mod]
    omega

theorem two_ne_zero_fp : (2 : Fp) ≠ 0 := by
  intro h
  have hcast : ((2 : Nat) : Fp) = 0 := h
  rw [ZMod.natCast_eq_zero_iff] at hcast
  exact absurd (Nat.le_of_dvd (by norm_num) hcast) (by rw [p1271_eq]; norm_num)

/-- `fpdiv1271` halves. -/
theorem FpRep.div (ha : FpRep a x) : FpRep (fpdiv1271 a) (x / 2) := by
  have hz : (0 : Digit).toNat ≤ 1 := by decide
  have hlt := ha.lt
  have hbit := toNat_lowBit a
  have hmask := value_maskedPrime (b := a.cells.getD 0 0 &&& 1) (by omega)
  obtain ⟨hcarry, hsum⟩ := Lib.Limbs.chain_add addc_spec hz
    (show (maskedPrime (0 - (a.cells.getD 0 0 &&& 1))).length = a.cells.length from
      a.size_eq.symm)
  rw [hmask, hbit] at hsum
  have hval : 2 * (fpdiv1271 a).val = a.val + p1271 * (a.val % 2) := by
    have hshift : (fpdiv1271 a).val = _ := value_shiftRightOne (by decide) _
    change _ = p1271 * (a.val % 2) + a.val + 0 at hsum
    rw [hshift]
    rw [p1271_eq] at *
    change _ + 2 ^ 128 * _ = _ at hsum
    omega
  refine ⟨by rw [p1271_eq] at hval; omega, ?_⟩
  have hcast := congrArg (Nat.cast : Nat → Fp) hval
  rw [Nat.cast_mul, Nat.cast_add, Nat.cast_mul, ZMod.natCast_self, zero_mul, add_zero, ha.eq,
    Nat.cast_ofNat] at hcast
  rw [eq_div_iff two_ne_zero_fp, mul_comm]
  exact hcast

end QubicLedger
