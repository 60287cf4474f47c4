import QubicLedger.FourQ.Multiples
import QubicLedger.FourQ.Recode

/-!
# Fixed-base multiplication (`ecc_mul_fixed`, `eccp2.c`, `table_lookup.c`)

`ecc_mul_fixed` runs the comb: ten rounds, each doubling the sum and adding the
point of one column from each of the five blocks of the table, where the column's
four bits choose the entry and its sign the sign. Whatever the recoded digits
are, the result is the generator times the number that the columns spell; with
the account of the recoding this says exactly which multiple comes out.
-/

namespace QubicLedger

open Lib (FixedBuf)
open Lib.Limbs (value)

/-! ## The functions -/

/-- `(mask & (a ^ b)) ^ a`. -/
def selectDigit (mask a b : Digit) : Digit := (mask &&& (a ^^^ b)) ^^^ a

/-- The selection on all digits of a field element. -/
def selectFelm (mask : Digit) (a b : Felm) : Felm :=
  ⟨List.zipWith (selectDigit mask) a.cells b.cells, by
    rw [List.length_zipWith, a.size_eq, b.size_eq, Nat.min_self]⟩

def selectF2elm (mask : Digit) (a b : F2elm) : F2elm :=
  ⟨selectFelm mask a.c0 b.c0, selectFelm mask a.c1 b.c1⟩

/-- The selection loop over the digits of two points. -/
def selectPrecomp (mask : Digit) (P T : PointPrecomp) : PointPrecomp :=
  ⟨selectF2elm mask P.xy T.xy, selectF2elm mask P.yx T.yx, selectF2elm mask P.t2 T.t2⟩

/-- `-table[digit]`: the first coordinates exchanged, the last negated. -/
def negPrecomp (P : PointPrecomp) : PointPrecomp := ⟨P.yx, P.xy, fp2neg1271 P.t2⟩

/-- `VPOINTS_FIXEDBASE`. -/
abbrev vpointsFixedbase : Nat := 2 ^ (wFixedbase - 1)

/-- `FIXED_BASE_TABLE + n`, read as an array. -/
def tableFrom (n i : Nat) : PointPrecomp :=
  fixedBaseTable.getD (n + i) ⟨fp2zero1271, fp2zero1271, fp2zero1271⟩

/-- One pass of the selection loop: `digit--`, and the entry is taken while the
difference is not negative. -/
def lookupStep (table : Nat → PointPrecomp) (st : BitVec 32 × PointPrecomp) (i : Nat) :
    BitVec 32 × PointPrecomp :=
  let digit := st.1 - 1
  let mask := (digit >>> 31) - 1
  (digit, selectPrecomp mask st.2 (table i))

/-- `table_lookup_fixed_base`, compiled without `NO_CACHE_MEM`. -/
def tableLookupFixedBase (table : Nat → PointPrecomp) (digit sign : BitVec 32) : PointPrecomp :=
  let point := ((List.range' 1 (vpointsFixedbase - 1)).foldl (lookupStep table) (digit, table 0)).2
  selectPrecomp sign point (negPrecomp point)

/-- The bits of a column, the top one at `w * d - x`. -/
def combDigit (digits : Digits) (x : Nat) : BitVec 32 :=
  (List.range (wFixedbase - 2)).foldl
    (fun digit n => 2 * digit + digitAt digits ((wFixedbase - 1 - n) * dFixedbase - x))
    (digitAt digits (wFixedbase * dFixedbase - x))

/-- The point of a column, from block `block` of the table. -/
def combPoint (digits : Digits) (block x : Nat) : PointPrecomp :=
  tableLookupFixedBase (tableFrom (block * vpointsFixedbase)) (combDigit digits x)
    (digitAt digits (dFixedbase - x))

/-- The loop that completes the first round. -/
def firstRound (digits : Digits) : PointExtproj :=
  (List.range (vFixedbase - 1)).foldl
    (fun R j => eccmadd (combPoint digits (vFixedbase - j - 2) ((j + 1) * eFixedbase + 1)) R)
    (r5ToR1 (combPoint digits (vFixedbase - 1) 1))

/-- The round for `ii`. -/
def combRound (digits : Digits) (ii : Nat) (R : PointExtproj) : PointExtproj :=
  (List.range vFixedbase).foldl
    (fun R j => eccmadd (combPoint digits (vFixedbase - j - 1) (j * eFixedbase + eFixedbase - ii)) R)
    (eccdouble R)

/-- The loops of `ecc_mul_fixed` over the recoded digits. -/
def comb (digits : Digits) : PointExtproj :=
  (List.range (eFixedbase - 1)).foldl (fun R n => combRound digits (eFixedbase - 2 - n) R)
    (firstRound digits)

/-- `ecc_mul_fixed`; it always returns true. -/
def eccMulFixed (k : List Digit) : PointAffine :=
  let temp := conversionToOdd (moduloOrder k)
  eccnorm (comb (mLSBSetRecode (words64 temp) (.fill ndigits 0)).digits)

/-! ## Selection -/

@[simp] theorem selectDigit_zero (a b : Digit) : selectDigit 0 a b = a := by
  rw [selectDigit, show (0 : Digit) = 0#32 from rfl, BitVec.zero_and, BitVec.zero_xor]

@[simp] theorem selectDigit_ones (a b : Digit) : selectDigit minusOne a b = b := by
  rw [selectDigit, BitVec.allOnes_and, BitVec.xor_comm a b, BitVec.xor_assoc, BitVec.xor_self,
    BitVec.xor_zero]

theorem selectFelm_zero (a b : Felm) : selectFelm 0 a b = a := by
  refine FixedBuf.ext ?_
  refine List.ext_getElem (by simp [selectFelm]) fun i _ _ => ?_
  simp only [selectFelm, List.getElem_zipWith, selectDigit_zero]

theorem selectFelm_ones (a b : Felm) : selectFelm minusOne a b = b := by
  refine FixedBuf.ext ?_
  refine List.ext_getElem (by simp [selectFelm]) fun i _ _ => ?_
  simp only [selectFelm, List.getElem_zipWith, selectDigit_ones]

theorem selectPrecomp_zero (P T : PointPrecomp) : selectPrecomp 0 P T = P := by
  simp only [selectPrecomp, selectF2elm, selectFelm_zero]

theorem selectPrecomp_ones (P T : PointPrecomp) : selectPrecomp minusOne P T = T := by
  simp only [selectPrecomp, selectF2elm, selectFelm_ones]

/-- After `n` passes the digit has gone down by `n`, and the entry is the last
one that it reached. -/
theorem lookupSteps (table : Nat → PointPrecomp) {digit : BitVec 32} (hdigit : digit.toNat < 16)
    {n : Nat} (hn : n ≤ 15) :
    (List.range' 1 n).foldl (lookupStep table) (digit, table 0)
      = (digit - BitVec.ofNat 32 n, table (min n digit.toNat)) := by
  induction n with
  | zero => simp
  | succ n ih =>
    rw [List.range'_concat, List.foldl_append, ih (by omega), List.foldl_cons, List.foldl_nil,
      lookupStep, Nat.one_mul]
    have hdec : digit - BitVec.ofNat 32 n - 1 = digit - BitVec.ofNat 32 (n + 1) := by
      bv_omega
    rw [hdec]
    refine congrArg (Prod.mk _) ?_
    rcases Nat.lt_or_ge n digit.toNat with h | h
    · have hmask : ((digit - BitVec.ofNat 32 (n + 1)) >>> 31) - 1 = minusOne := by
        have hsub : (digit - BitVec.ofNat 32 (n + 1)).toNat < 2 ^ 31 := by
          rw [BitVec.toNat_sub, BitVec.toNat_ofNat]
          omega
        have hzero : (digit - BitVec.ofNat 32 (n + 1)) >>> 31 = 0 := by
          refine BitVec.eq_of_toNat_eq ?_
          rw [toNat_shiftRight, Nat.div_eq_of_lt hsub]
          rfl
        rw [hzero]
        rfl
      rw [hmask, selectPrecomp_ones, Nat.min_eq_left (by omega : n + 1 ≤ digit.toNat), Nat.add_comm]
    · have hmask : ((digit - BitVec.ofNat 32 (n + 1)) >>> 31) - 1 = 0 := by
        have hsub : (digit - BitVec.ofNat 32 (n + 1)).toNat / 2 ^ 31 = 1 := by
          rw [BitVec.toNat_sub, BitVec.toNat_ofNat]
          omega
        have hone : (digit - BitVec.ofNat 32 (n + 1)) >>> 31 = 1 := by
          refine BitVec.eq_of_toNat_eq ?_
          rw [toNat_shiftRight, hsub]
          rfl
        rw [hone]
        rfl
      rw [hmask, selectPrecomp_zero, Nat.min_eq_right h, Nat.min_eq_right (by omega)]

/-- The branch-free lookup: the entry, or its negative. -/
theorem tableLookupFixedBase_eq (table : Nat → PointPrecomp) {digit sign : BitVec 32}
    (hdigit : digit.toNat < 16) (hsign : sign = 0 ∨ sign = minusOne) :
    tableLookupFixedBase table digit sign
      = if sign = 0 then table digit.toNat else negPrecomp (table digit.toNat) := by
  have hsteps := lookupSteps table hdigit (le_refl 15)
  unfold tableLookupFixedBase
  rw [show vpointsFixedbase - 1 = 15 from rfl, hsteps, Nat.min_eq_right (by omega)]
  rcases hsign with rfl | rfl
  · rw [selectPrecomp_zero, if_pos rfl]
  · rw [selectPrecomp_ones, if_neg (by decide)]

/-! ## Columns -/

/-- Recoded digits: signs in the first row, bits above it. -/
structure Recoded (digits : Digits) : Prop where
  row : SignRow digits
  bit : ∀ m < 200, (digitAt digits (50 + m)).toNat ≤ 1

/-- The multiple that a column without its sign and its place stands for. -/
def columnWeight (digits : Digits) (pos : Nat) : Nat :=
  1 + ∑ r ∈ Finset.range 4, (digitAt digits (50 * (r + 1) + pos)).toNat * 2 ^ (50 * (r + 1))

/-- The number that the bits of a column spell. -/
def columnEntry (digits : Digits) (pos : Nat) : Nat :=
  ∑ r ∈ Finset.range 4, (digitAt digits (50 * (r + 1) + pos)).toNat * 2 ^ r

variable {digits : Digits} (h : Recoded digits)

include h

theorem Recoded.bit_le {r pos : Nat} (hr : r < 4) (hpos : pos < 50) :
    (digitAt digits (50 * (r + 1) + pos)).toNat ≤ 1 := by
  rw [show 50 * (r + 1) + pos = 50 + (50 * r + pos) by omega]
  exact h.bit _ (by omega)

theorem Recoded.entry_lt {pos : Nat} (hpos : pos < 50) : columnEntry digits pos < 16 := by
  have h0 := h.bit_le (r := 0) (by decide) hpos
  have h1 := h.bit_le (r := 1) (by decide) hpos
  have h2 := h.bit_le (r := 2) (by decide) hpos
  have h3 := h.bit_le (r := 3) (by decide) hpos
  simp only [columnEntry, Finset.sum_range_succ, Finset.sum_range_zero]
  omega

/-- The entry that the column chooses has the column's weight. -/
theorem Recoded.combWeight_entry {pos : Nat} (hpos : pos < 50) :
    combWeight (columnEntry digits pos) = columnWeight digits pos := by
  have h0 := h.bit_le (r := 0) (by decide) hpos
  have h1 := h.bit_le (r := 1) (by decide) hpos
  have h2 := h.bit_le (r := 2) (by decide) hpos
  have h3 := h.bit_le (r := 3) (by decide) hpos
  simp only [combWeight, columnEntry, columnWeight, Finset.sum_range_succ, Finset.sum_range_zero]
  omega

/-- The loop that collects the bits of a column. -/
theorem Recoded.combDigit_toNat {pos : Nat} (hpos : pos < 50) :
    (combDigit digits (50 - pos)).toNat = columnEntry digits pos := by
  have h0 := h.bit_le (r := 0) (by decide) hpos
  have h1 := h.bit_le (r := 1) (by decide) hpos
  have h2 := h.bit_le (r := 2) (by decide) hpos
  have h3 := h.bit_le (r := 3) (by decide) hpos
  have hdigit : combDigit digits (50 - pos)
      = 2 * (2 * (2 * digitAt digits (50 * (3 + 1) + pos) + digitAt digits (50 * (2 + 1) + pos))
        + digitAt digits (50 * (1 + 1) + pos)) + digitAt digits (50 * (0 + 1) + pos) := by
    show 2 * (2 * (2 * digitAt digits (250 - (50 - pos)) + digitAt digits (200 - (50 - pos)))
      + digitAt digits (150 - (50 - pos))) + digitAt digits (100 - (50 - pos)) = _
    rw [show 250 - (50 - pos) = 50 * (3 + 1) + pos by omega,
      show 200 - (50 - pos) = 50 * (2 + 1) + pos by omega,
      show 150 - (50 - pos) = 50 * (1 + 1) + pos by omega,
      show 100 - (50 - pos) = 50 * (0 + 1) + pos by omega]
  have htwo : (2 : BitVec 32).toNat = 2 := rfl
  rw [hdigit]
  simp only [columnEntry, Finset.sum_range_succ, Finset.sum_range_zero, BitVec.toNat_add,
    BitVec.toNat_mul, htwo]
  omega

omit h

theorem PreparedRep.neg {S : PointPrecomp} {Q : fourQCurve.Point} (hS : PreparedRep S Q) :
    PreparedRep (negPrecomp S) (-Q) := by
  obtain ⟨S', hrep, his⟩ := hS
  exact ⟨⟨S'.yx, S'.xy, -S'.t2⟩, ⟨hrep.yx, hrep.xy, hrep.t2.neg⟩, his.neg⟩

theorem tableFrom_eq (b u : Nat) : tableFrom (b * vpointsFixedbase) u = tableEntry b u := by
  show fixedBaseTable.getD (b * 16 + u) _ = _
  rw [Nat.mul_comm b, tableEntry]

/-- The point of a column. -/
theorem Recoded.combPoint_rep (h : Recoded digits) {b pos : Nat} (hb : b < 5) (hpos : pos < 50) :
    PreparedRep (combPoint digits b (50 - pos))
      ((signOf digits pos * 2 ^ (10 * b) * columnWeight digits pos) • generator) := by
  have hentry := tableEntry_prepared hb (h.entry_lt hpos)
  rw [h.combWeight_entry hpos] at hentry
  have hsign := h.row.sign pos hpos
  have hindex : dFixedbase - (50 - pos) = pos := by
    show 50 - (50 - pos) = pos
    omega
  rw [combPoint, hindex, tableLookupFixedBase_eq _ (h.combDigit_toNat hpos ▸ h.entry_lt hpos) hsign,
    h.combDigit_toNat hpos, tableFrom_eq]
  unfold signOf
  rcases hsign with hs | hs
  · rw [if_pos hs, if_pos hs, one_mul, ← natCast_zsmul] at *
    convert hentry using 2
    push_cast
    ring
  · have hne : digitAt digits pos ≠ 0 := by
      rw [hs]
      decide
    rw [if_neg hne, if_neg hne]
    convert hentry.neg using 1
    rw [← natCast_zsmul, ← neg_zsmul]
    push_cast
    congr 1
    ring

/-! ## Rounds -/

/-- The multiple that a column of a block stands for. -/
def columnTerm (digits : Digits) (b pos : Nat) : ℤ :=
  signOf digits pos * 2 ^ (10 * b) * columnWeight digits pos

/-- The multiple that one round adds. -/
def roundValue (digits : Digits) (ii : Nat) : ℤ :=
  ∑ j ∈ Finset.range 5, columnTerm digits (4 - j) (10 * (4 - j) + ii)

/-- A loop of mixed additions. -/
theorem PointRep.maddLoop {R : PointExtproj} {m : ℤ} (hR : PointRep R (m • generator))
    {f : Nat → PointPrecomp} {t : Nat → ℤ} {n : Nat}
    (hf : ∀ j < n, PreparedRep (f j) (t j • generator)) :
    PointRep ((List.range n).foldl (fun R j => eccmadd (f j) R) R)
      ((m + ∑ j ∈ Finset.range n, t j) • generator) := by
  induction n with
  | zero => simpa using hR
  | succ n ih =>
    rw [List.range_succ, List.foldl_append, List.foldl_cons, List.foldl_nil,
      Finset.sum_range_succ, ← add_assoc, add_zsmul]
    exact (ih fun j hj => hf j (by omega)).madd (hf n (by omega))

/-- The first round, for `ii = e - 1`. -/
theorem Recoded.firstRound_rep (h : Recoded digits) :
    PointRep (firstRound digits) (roundValue digits 9 • generator) := by
  have hfirst := (h.combPoint_rep (by decide : 4 < 5) (by decide : 49 < 50))
  have hrest : ∀ j < 4, PreparedRep (combPoint digits (5 - j - 2) ((j + 1) * 10 + 1))
      (columnTerm digits (3 - j) (10 * (3 - j) + 9) • generator) := by
    intro j hj
    have hpoint := h.combPoint_rep (by omega : 3 - j < 5) (by omega : 10 * (3 - j) + 9 < 50)
    rw [show 50 - (10 * (3 - j) + 9) = (j + 1) * 10 + 1 by omega,
      show 3 - j = 5 - j - 2 by omega] at hpoint
    rw [show 3 - j = 5 - j - 2 by omega]
    exact hpoint
  have hloop := (PointRep.r5ToR1 hfirst).maddLoop hrest
  have hsum : roundValue digits 9 = columnTerm digits 4 49
      + ∑ j ∈ Finset.range 4, columnTerm digits (3 - j) (10 * (3 - j) + 9) := by
    rw [roundValue, Finset.sum_range_succ']
    simp only [Nat.sub_zero, Nat.reduceMul, Nat.reduceAdd]
    rw [add_comm]
    refine congrArg _ (Finset.sum_congr rfl fun j _ => ?_)
    rw [show 4 - (j + 1) = 3 - j by omega]
  rw [hsum]
  exact hloop

/-- One round: the sum is doubled, and the five columns are added. -/
theorem Recoded.combRound_rep (h : Recoded digits) {ii : Nat} (hii : ii < 10) {R : PointExtproj}
    {m : ℤ} (hR : PointRep R (m • generator)) :
    PointRep (combRound digits ii R) ((2 * m + roundValue digits ii) • generator) := by
  have hdouble := hR.double
  rw [← add_zsmul, ← two_mul] at hdouble
  refine hdouble.maddLoop fun j hj => ?_
  have hj' : j < 5 := hj
  have hpoint := h.combPoint_rep (by omega : 4 - j < 5) (by omega : 10 * (4 - j) + ii < 50)
  have hindex : j * eFixedbase + eFixedbase - ii = 50 - (10 * (4 - j) + ii) := by
    show j * 10 + 10 - ii = _
    omega
  rw [hindex, show vFixedbase - j - 1 = 4 - j by show 5 - j - 1 = 4 - j; omega]
  exact hpoint

/-- The sum after `n` rounds that follow the first. -/
def hornerValue (digits : Digits) : Nat → ℤ
  | 0 => roundValue digits 9
  | n + 1 => 2 * hornerValue digits n + roundValue digits (8 - n)

/-- What the columns of one round add, each at its place. -/
theorem roundValue_eq (digits : Digits) (ii : Nat) :
    ∑ b ∈ Finset.range 5, signOf digits (10 * b + ii) * 2 ^ (10 * b + ii)
        * (columnWeight digits (10 * b + ii) : ℤ)
      = 2 ^ ii * roundValue digits ii := by
  rw [roundValue, Finset.mul_sum,
    ← Finset.sum_range_reflect (fun b => signOf digits (10 * b + ii) * 2 ^ (10 * b + ii)
      * (columnWeight digits (10 * b + ii) : ℤ)) 5]
  refine Finset.sum_congr rfl fun j _ => ?_
  rw [columnTerm, show 5 - 1 - j = 4 - j from rfl, pow_add]
  ring

/-- The rounds spell the columns. -/
theorem hornerValue_eq (digits : Digits) : hornerValue digits 9 = combValue digits := by
  have hcomb : combValue digits
      = ∑ pos ∈ Finset.range (10 * 5), signOf digits pos * 2 ^ pos * columnWeight digits pos := by
    refine Finset.sum_congr rfl fun pos _ => ?_
    rw [columnWeight]
    push_cast
    rfl
  have hrounds : combValue digits = ∑ ii ∈ Finset.range 10, 2 ^ ii * roundValue digits ii := by
    rw [hcomb, sum_columns]
    exact Finset.sum_congr rfl fun ii _ => roundValue_eq digits ii
  rw [hrounds]
  simp only [hornerValue, Finset.sum_range_succ, Finset.sum_range_zero]
  ring

/-- The comb, for every recoded scalar. -/
theorem Recoded.comb_rep (h : Recoded digits) :
    PointRep (comb digits) (combValue digits • generator) := by
  have hrun (n : Nat) (hn : n ≤ 9) :
      PointRep ((List.range n).foldl (fun R n => combRound digits (8 - n) R)
        (firstRound digits)) (hornerValue digits n • generator) := by
    induction n with
    | zero =>
      rw [List.range_zero, List.foldl_nil, hornerValue]
      exact h.firstRound_rep
    | succ n ih =>
      rw [List.range_succ, List.foldl_append, List.foldl_cons, List.foldl_nil, hornerValue]
      exact h.combRound_rep (by omega) (ih (by omega))
  rw [← hornerValue_eq]
  exact hrun 9 (le_refl 9)

/-! ## The multiplication -/

/-- The scalar that is recoded. -/
def oddScalar (k : List Digit) : List (BitVec 64) := words64 (conversionToOdd (moduloOrder k))

/-- What `ecc_mul_fixed` recodes `k` to. -/
def recoded (k : List Digit) : Recoding := mLSBSetRecode (oddScalar k) (.fill ndigits 0)

/-- What false carries add to the scalar. -/
def scalarExcess (k : List Digit) : Nat := recodeExcess (oddScalar k) (.fill ndigits 0)

variable {k : List Digit}

theorem eccMulFixed_eq (k : List Digit) : eccMulFixed k = eccnorm (comb (recoded k).digits) := rfl

/-- The recoded scalar is odd, short, and the same multiple of the generator. -/
theorem oddScalar_spec (hk : k.length = 8) :
    (oddScalar k).length = 4 ∧ value (oddScalar k) % 2 = 1 ∧ value (oddScalar k) < 2 ^ 247 ∧
    value (oddScalar k) ≡ value k [MOD order] := by
  obtain ⟨hlen, hval⟩ := moduloOrder_spec hk
  have hN : value (moduloOrder k) < order := by
    rw [hval]
    exact Nat.mod_lt _ order_pos
  obtain ⟨hodd, hlt, hmod⟩ := conversionToOdd_odd hlen hN
  obtain ⟨hlen64, hval64⟩ := words64_spec (conversionToOdd (moduloOrder k)) 4
    (conversionToOdd_spec hlen hN).1
  have hord := order_lt
  unfold oddScalar
  rw [hval64]
  refine ⟨hlen64, hodd, by omega, hmod.trans ?_⟩
  rw [hval]
  exact Nat.mod_modEq _ _

theorem recoded_digits (hk : k.length = 8) : Recoded (recoded k).digits := by
  obtain ⟨hrow, hbit⟩ := recode_digits (D := .fill ndigits 0) (oddScalar_spec hk).1
  exact ⟨hrow, hbit⟩

/-- What separates the multiple that comes out from the scalar: what the false
carries of the recoding added, less what was left over. -/
def scalarDrift (k : List Digit) : ℤ := scalarExcess k - 2 ^ 250 * value (recoded k).scalar

/-- The columns spell the odd scalar and the drift. -/
theorem scalarDrift_eq (hk : k.length = 8) :
    scalarDrift k = combValue (recoded k).digits - value (oddScalar k) := by
  obtain ⟨hlen, hodd, -, -⟩ := oddScalar_spec hk
  have haccount := recode_value (D := .fill ndigits 0) hlen hodd
  change combValue (recoded k).digits + 2 ^ 250 * value (recoded k).scalar
    = value (oddScalar k) + scalarExcess k at haccount
  rw [scalarDrift]
  linarith

/-- `ecc_mul_fixed`, for every scalar. -/
theorem eccMulFixed_value (hk : k.length = 8) :
    AffineRep (eccMulFixed k) ((value k + scalarDrift k) • generator) := by
  obtain ⟨-, -, -, hmod⟩ := oddScalar_spec hk
  have hcomb : combValue (recoded k).digits • generator
      = (value k + scalarDrift k) • generator := by
    refine zsmul_generator_congr ?_
    rw [← sub_add_cancel (combValue (recoded k).digits) (value (oddScalar k) : ℤ),
      ← scalarDrift_eq hk, add_comm]
    exact Int.ModEq.add_right _ (Int.natCast_modEq_iff.mpr hmod)
  rw [← hcomb, eccMulFixed_eq]
  exact AffineRep.eccnorm (recoded_digits hk).comb_rep

/-- Without false carries nothing is left over either. -/
theorem scalarDrift_eq_zero (hk : k.length = 8) (hexact : scalarExcess k = 0) :
    scalarDrift k = 0 := by
  obtain ⟨hlen, hodd, hlt, -⟩ := oddScalar_spec hk
  have hrest : value (recoded k).scalar = 0 :=
    (recode_exact hlen hodd (hlt.trans (by norm_num)) hexact).2
  rw [scalarDrift, hexact, hrest]
  rfl

/-- It is the multiple by the scalar exactly if the order divides the drift. -/
theorem eccMulFixed_iff (hk : k.length = 8) :
    AffineRep (eccMulFixed k) (value k • generator) ↔ (order : ℤ) ∣ scalarDrift k := by
  have hmul := eccMulFixed_value hk
  rw [add_zsmul, natCast_zsmul] at hmul
  rw [← zsmul_generator_eq_zero_iff]
  refine ⟨fun h => ?_, fun h => ?_⟩
  · have heq := h.unique hmul
    rwa [left_eq_add] at heq
  · rwa [h, add_zero] at hmul

/-- `2⁸³ - 2⁵⁰ + 1`. -/
def carryScalar : List Digit := [1, 0xFFFC0000, 0x0007FFFF, 0, 0, 0, 0, 0]

/-- Its recoding hands on a false carry, and the multiple that comes out is another one. -/
theorem eccMulFixed_iff_carryScalar :
    ¬AffineRep (eccMulFixed carryScalar) (value carryScalar • generator) := by
  rw [eccMulFixed_iff rfl, scalarDrift_eq rfl]
  decide +kernel

end QubicLedger
