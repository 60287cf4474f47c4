import QubicLedger.FourQ.Decode

/-!
# The encodings that `decode` refuses

Every encoding of a point is decoded, but three: where the second coordinate is
1, -1 or 0, its zero half is written as the prime and the top bit is clear,
`ecc_point_validate` takes the point for none. `decode_isSome_iff` is the exact
condition.
-/

namespace QubicLedger

open Lib (FixedBuf bytesLE bytesOfLE)
open Lib.Limbs (value)

variable {a b : Felm}

/-- The other zero. -/
def primeFelm : Felm := ⟨primeDigits, rfl⟩

/-- A product with a zero is written as zero. -/
theorem fpmul1271_zero (h : a.val * b.val = 0) : fpmul1271 a b = fpzero1271 := by
  have hb : b.cells ≠ [] := by
    intro h
    have hsize := b.length_cells
    rw [h] at hsize
    exact absurd hsize (by decide)
  have hprod : product a b = List.replicate 8 0 := by
    refine Lib.Limbs.value_inj ((length_product a b).trans List.length_replicate.symm) ?_
    have hval : value (product a b) = a.val * b.val :=
      (Lib.Limbs.value_mulRows mulStep_spec (b.length_cells.symm ▸ rfl) hb).trans (Nat.add_zero _)
    rw [hval, h, show (0 : Digit) = 0#32 from rfl, Lib.Limbs.value_replicate_zero]
  refine FixedBuf.ext ?_
  unfold fpmul1271
  dsimp only
  rw [hprod]
  decide

/-- Powers of the other zero stay as they are, and their difference is zero. -/
theorem decodeRoot_prime (t0 : Felm) {t1 t2 : Felm} (h1 : t1 = primeFelm) (h2 : t2 = primeFelm) :
    decodeRoot t0 t1 t2 = ⟨fpzero1271, fpzero1271⟩ := by
  have hsqr : fpsqr1271 primeFelm = primeFelm := by decide +kernel
  have hadd : fpadd1271 primeFelm primeFelm = primeFelm := by decide +kernel
  have htimes : fpsqrTimes 125 primeFelm = primeFelm := Function.iterate_fixed hsqr _
  have hzero : isZeroCt (mod1271 primeFelm).cells = true := by decide +kernel
  have hsub : fpsub1271 primeFelm primeFelm = fpzero1271 := by decide +kernel
  have hleft (b : Felm) : fpmul1271 fpzero1271 b = fpzero1271 := fpmul1271_zero (Nat.zero_mul _)
  have hright (a : Felm) : fpmul1271 a fpzero1271 = fpzero1271 := fpmul1271_zero (Nat.mul_zero _)
  have hexp : fpexp1251 fpzero1271 = fpzero1271 := hleft _
  have hlast : isZeroCt (mod1271 (fpsub1271 fpzero1271 fpzero1271)).cells = true := by
    decide +kernel
  subst h1 h2
  unfold decodeRoot
  dsimp only
  rw [hsqr, hadd, htimes, hadd, if_pos hzero, hsub,
    show fpadd1271 fpzero1271 fpzero1271 = fpzero1271 by decide +kernel]
  simp only [hleft, hexp, hright, fpsqr1271]
  rw [if_pos hlast, show fpdiv1271 fpzero1271 = fpzero1271 by decide +kernel]

/-- One and minus one. -/
def unitFelms : List Felm := [fp2one.c0, fpneg1271 fp2one.c0]

/-- One of the two candidates of `decode` passes. -/
def accepts (sign : UInt8) (x y : F2elm) : Bool :=
  let x := decodeSign sign x
  let x' := { x with c1 := fpneg1271 x.c1 }
  eccPointValidate (pointSetup ⟨x, y⟩) || eccPointValidate (pointSetup ⟨x', y⟩)

theorem decode_isSome (Pencoded : FixedBuf UInt8 32) :
    (decode Pencoded).isSome
      = accepts (encodedSign Pencoded) (decodeX (decodeY Pencoded)) (decodeY Pencoded) := by
  rw [decode_eq]
  unfold accepts
  dsimp only
  split
  · rename_i h
    rw [h]
    rfl
  · rename_i h
    rw [Bool.not_eq_true _ |>.mp h, Bool.false_or]
    split
    · rename_i h'
      rw [h']
      rfl
    · rename_i h'
      exact (Bool.not_eq_true _ |>.mp h').symm

theorem accepts_zero : ∀ sign ∈ [(0 : UInt8), 1], ∀ c ∈ unitFelms,
    accepts sign ⟨fpzero1271, fpzero1271⟩ ⟨c, primeFelm⟩ = (sign == 1) := by
  decide +kernel

/-- The coordinates 1 and -1, with the prime for the other half: both numbers under the roots are
the prime too. -/
theorem decodeX_unit : ∀ c ∈ unitFelms, decodeX ⟨c, primeFelm⟩ = ⟨fpzero1271, fpzero1271⟩ := by
  intro c hc
  simp only [unitFelms, List.mem_cons, List.not_mem_nil, or_false] at hc
  unfold decodeX
  dsimp only
  rcases hc with rfl | rfl
  · exact decodeRoot_prime _ (by decide +kernel) (by decide +kernel)
  · exact decodeRoot_prime _ (by decide +kernel) (by decide +kernel)

/-- The power behind the root of `-1`: two has order 127. -/
theorem neg_four_pow {n k : Nat} (hodd : Odd n) (hexp : 2 * n + 1 = 127 * k) :
    -4 * (-4 : Fp) ^ n / 2 = 1 := by
  have hpow : (2 : Fp) ^ (2 * n) * 2 = 1 := by
    rw [← pow_succ, hexp, pow_mul, two_pow_127, one_pow]
  rw [hodd.neg_pow, show (4 : Fp) = 2 ^ 2 by norm_num, ← pow_mul, div_eq_iff two_ne_zero_fp]
  linear_combination 2 * hpow

/-- The root for the second coordinate zero. -/
theorem rootHalves_neg_one {n k : Nat} (hodd : Odd n) (hexp : 2 * n + 1 = 127 * k) :
    Lib.rootHalves n 1 (-1 : Fp) 0 = ⟨0, 1⟩ := by
  have hroot := neg_four_pow hodd hexp
  have ht : Lib.doubled (-1 : Fp) 1 = -4 := by
    unfold Lib.doubled
    rw [if_pos (neg_add_cancel 1)]
    norm_num
  have hswap : (-4 : Fp) ≠ (-4 * (-4) ^ n) ^ 2 := by
    intro h
    have htwo : -4 * (-4 : Fp) ^ n = 2 := by rwa [div_eq_one_iff_eq two_ne_zero_fp] at hroot
    rw [htwo] at h
    refine absurd ?_ (pow_ne_zero 3 two_ne_zero_fp)
    linear_combination -h
  unfold Lib.rootHalves
  dsimp only
  rw [neg_one_sq, zero_pow two_ne_zero, add_zero, one_pow, ht, one_pow, mul_one, one_mul, one_mul,
    if_neg hswap, hroot, zero_mul]

/-- The root that `decodeX` finds for the second coordinate zero. -/
theorem decodeX_of_zero {y : F2elm} (hy : Fp2Rep y 0) :
    (decodeX y).c1 = fp2one.c0 ∧ mod1271 (decodeX y).c0 = fpzero1271 := by
  have hrep := decodeX_rep hy
  have hroot : Lib.ratioRoot (2 ^ 125 - 1) ((0 : Fp2) ^ 2 - 1) (1 + fourQCurve.d * 0 ^ 2)
      = ⟨0, 1⟩ := by
    have hodd : Odd (2 ^ 125 - 1) := ⟨2 ^ 124 - 1, rfl⟩
    have hexp : 2 * (2 ^ 125 - 1) + 1 = 127 * ((2 ^ 126 - 1) / 127) := by norm_num
    rw [zero_pow two_ne_zero, mul_zero, add_zero, zero_sub, Lib.ratioRoot,
      ← rootHalves_neg_one hodd hexp]
    congr 1
  rw [hroot] at hrep
  refine ⟨Felm.ext_val ?_, Felm.ext_val ?_⟩
  · exact (hrep.im.val_eq one_ne_zero).trans (by decide +kernel)
  · exact hrep.re.mod1271.2.trans (by decide +kernel)

theorem accepts_unit : ∀ sign ∈ [(0 : UInt8), 1],
    accepts sign ⟨fpzero1271, fp2one.c0⟩ ⟨primeFelm, primeFelm⟩ = (sign == 1) := by
  decide +kernel

/-- `accepts` looks at the real half modulo the prime. -/
theorem accepts_congr {sign : UInt8} {x x' y : F2elm} (h0 : mod1271 x.c0 = mod1271 x'.c0)
    (h1 : x.c1 = x'.c1) : accepts sign x y = accepts sign x' y := by
  unfold accepts decodeSign
  rw [h0, h1]

theorem encodedSign_mem (Pencoded : FixedBuf UInt8 32) :
    encodedSign Pencoded ∈ [(0 : UInt8), 1] := by
  rcases Nat.le_one_iff_eq_zero_or_eq_one.mp (encodedSign_le Pencoded) with h | h
  · have hzero : encodedSign Pencoded = 0 := UInt8.toNat_inj.mp h
    exact List.mem_cons.mpr (.inl hzero)
  · have hone : encodedSign Pencoded = 1 := UInt8.toNat_inj.mp h
    exact List.mem_cons_of_mem _ (List.mem_singleton.mpr hone)

/-- An oddly written coordinate is accepted with the top bit only. -/
theorem decode_oddlyWritten {Pencoded : FixedBuf UInt8 32} (h128 : bit128 Pencoded = 0)
    (hodd : OddlyWritten (decodeY Pencoded)) :
    (decode Pencoded).isSome = (encodedSign Pencoded == 1) := by
  have hsign := encodedSign_mem Pencoded
  obtain ⟨hprime, hcases⟩ := hodd
  have him : (decodeY Pencoded).c1 = primeFelm := Felm.ext_val (hprime.trans (by decide +kernel))
  have hy : decodeY Pencoded = ⟨(decodeY Pencoded).c0, primeFelm⟩ := by rw [← him]
  rw [decode_isSome]
  rcases hcases with hone | hminus | hzero
  · have hre : (decodeY Pencoded).c0 ∈ unitFelms := by
      rw [Felm.ext_val (b := fp2one.c0) (hone.trans (by decide +kernel))]
      decide
    rw [hy, decodeX_unit _ hre, accepts_zero _ hsign _ hre]
  · have hre : (decodeY Pencoded).c0 ∈ unitFelms := by
      rw [Felm.ext_val (b := fpneg1271 fp2one.c0) (hminus.trans (by decide +kernel))]
      decide +kernel
    rw [hy, decodeX_unit _ hre, accepts_zero _ hsign _ hre]
  · have hre : (decodeY Pencoded).c0 = primeFelm := Felm.ext_val (hzero.trans (by decide +kernel))
    have hrep := decodeY_rep h128
    rw [hre] at hy
    rw [hy] at hrep ⊢
    have hzero' : encodedY Pencoded = 0 :=
      hrep.unique ⟨⟨by decide +kernel, by decide +kernel⟩, ⟨by decide +kernel, by decide +kernel⟩⟩
    rw [hzero'] at hrep
    obtain ⟨him', hre'⟩ := decodeX_of_zero hrep
    rw [← accepts_unit _ hsign]
    refine accepts_congr (hre'.trans ?_) him'
    decide +kernel

/-- The encodings of points that `decode` refuses: 1, -1 and 0, with the prime for the zero half
and the top bit clear. -/
def refusedCodes : List Nat := [1, p1271 - 1, p1271].map (· + 2 ^ 128 * p1271)

theorem mem_refusedCodes_iff (Pencoded : FixedBuf UInt8 32) :
    bytesLE Pencoded.cells ∈ refusedCodes ↔
      OddlyWritten (decodeY Pencoded) ∧ encodedSign Pencoded = 0 := by
  have hlt := bytesLE_lt_32 Pencoded
  obtain ⟨hlow, hhigh⟩ := decodeY_val Pencoded
  have hsign : encodedSign Pencoded = 0 ↔ bytesLE Pencoded.cells / 2 ^ 255 = 0 := by
    rw [← encodedSign_toNat]
    exact UInt8.toNat_inj.symm
  rw [hsign]
  unfold OddlyWritten
  rw [hlow, hhigh]
  unfold refusedCodes
  simp only [List.map_cons, List.map_nil, List.mem_cons, List.not_mem_nil, or_false]
  generalize bytesLE Pencoded.cells = n at *
  rw [p1271_eq]
  clear hlow hhigh hsign
  omega

/-- What `decode` accepts, exactly. -/
theorem decode_isSome_iff {Pencoded : FixedBuf UInt8 32} (h128 : bit128 Pencoded = 0) :
    (decode Pencoded).isSome = true ↔
      (∃ Q : fourQCurve.Point, Q.y = encodedY Pencoded) ∧
        bytesLE Pencoded.cells ∉ refusedCodes := by
  rw [mem_refusedCodes_iff]
  constructor
  · intro hsome
    obtain ⟨P, hdecode⟩ := Option.isSome_iff_exists.mp hsome
    obtain ⟨Q, hdigits, -, hy⟩ := decode_point h128 hdecode
    rw [hdigits] at hy
    refine ⟨⟨Q, hy.unique (decodeY_rep h128)⟩, ?_⟩
    rintro ⟨hodd, hsign⟩
    rw [decode_oddlyWritten h128 hodd, hsign] at hsome
    exact absurd hsome (by decide)
  · rintro ⟨⟨Q, hQ⟩, hrefused⟩
    by_cases hodd : OddlyWritten (decodeY Pencoded)
    · rw [decode_oddlyWritten h128 hodd, beq_iff_eq]
      have hsign := encodedSign_mem Pencoded
      simp only [List.mem_cons, List.not_mem_nil, or_false] at hsign
      exact hsign.resolve_left fun h => hrefused ⟨hodd, h⟩
    · obtain ⟨P, -, hdecode, -⟩ := decode_of_point (hQ ▸ decodeY_rep h128) hodd
      rw [hdecode]
      rfl

/-- The neutral element, with the prime for its zero half. -/
theorem decode_isSome_iff_neutral :
    let Pencoded : FixedBuf UInt8 32 :=
      ⟨bytesOfLE 32 (1 + 2 ^ 128 * p1271), Lib.length_bytesOfLE _ _⟩
    (0 : fourQCurve.Point).y = encodedY Pencoded ∧ (decode Pencoded).isSome = false := by
  intro Pencoded
  have hcode : bytesLE Pencoded.cells = 1 + 2 ^ 128 * p1271 := by decide +kernel
  refine ⟨?_, Bool.eq_false_iff.mpr fun hsome => ?_⟩
  · refine QuadraticAlgebra.ext ?_ ?_
    · decide +kernel
    · decide +kernel
  · obtain ⟨-, hrefused⟩ := (decode_isSome_iff (by decide +kernel)).mp hsome
    rw [hcode] at hrefused
    exact hrefused (by decide)

end QubicLedger
