import QubicLedger.FourQ.Validate
import QubicLedger.Lib.QuadraticRoot

/-!
# Decoded points (`decode`, `crypto_util.c`)

The other half of the format: the second coordinate is read off the bytes, the
first is a square root, and the top bit chooses between it and its negative.
`decodeX` leaves the root up to sign and conjugation; `decode` settles both, by
the top bit and by trying the curve equation twice.

`decode_encode` is the way there and back for points, `encode_decode` for bytes.
-/

namespace QubicLedger

open Lib (FixedBuf EdwardsCurve bytesLE)
open Lib.Limbs (value)

/-! ## The functions -/

/-- `memmove((unsigned char *) P->y, Pencoded, 32); P->y[1][NWORDS_FIELD - 1] &= mask7fff;`. -/
def decodeY (Pencoded : FixedBuf UInt8 32) : F2elm :=
  let y := readDigits Pencoded.cells
  have hy : y.length = 8 := (readDigits_spec (n := 8) Pencoded.size_eq).1
  ⟨⟨y.take nwordsField, by rw [List.length_take, hy]; rfl⟩,
    ⟨maskTop (y.drop nwordsField), by rw [maskTop, List.length_set, List.length_drop, hy]; rfl⟩⟩

/-- The two halves of the root, from the norm `t0` of the denominator and the halves `t1` and
`t2` of the numerator times its conjugate. -/
def decodeRoot (t0 t1 t2 : Felm) : F2elm :=
  let t3 := fpsqr1271 t1
  let t4 := fpsqr1271 t2
  let t3 := fpadd1271 t3 t4
  let t3 := fpsqrTimes 125 t3
  let t := mod1271 (fpadd1271 t1 t3)
  let t := if isZeroCt t.cells then fpsub1271 t1 t3 else t
  let t := fpadd1271 t t
  let t3 := fpsqr1271 t0
  let t3 := fpmul1271 t0 t3
  let t3 := fpmul1271 t t3
  let r := fpexp1251 t3
  let t3 := fpmul1271 t0 r
  let x0 := fpmul1271 t t3
  let t1 := fpsqr1271 x0
  let t1 := fpmul1271 t0 t1
  let x0 := fpdiv1271 x0
  let x1 := fpmul1271 t2 t3
  let t := mod1271 (fpsub1271 t t1)
  if isZeroCt t.cells then ⟨x0, x1⟩ else ⟨x1, x0⟩

/-- The first coordinate, up to sign and conjugation. -/
def decodeX (y : F2elm) : F2elm :=
  let u := fp2sqr1271 y
  let v := fp2mul1271 u parameterD
  let u := fp2sub1271 u fp2one
  let v := fp2add1271 v fp2one
  let t0 := fpsqr1271 v.c0
  let t1 := fpsqr1271 v.c1
  let t0 := fpadd1271 t0 t1
  let t1 := fpmul1271 u.c0 v.c0
  let t2 := fpmul1271 u.c1 v.c1
  let t1 := fpadd1271 t1 t2
  let t2 := fpmul1271 u.c1 v.c0
  let t3 := fpmul1271 u.c0 v.c1
  let t2 := fpsub1271 t2 t3
  decodeRoot t0 t1 t2

/-- `((digit_t *) x)[NWORDS_FIELD - 1] >> (sizeof(digit_t) * 8 - 2)`. -/
def signDec (x : Felm) : Digit := x.cells.getD (nwordsField - 1) 0 >>> 30

/-- `if (sign != (unsigned int) sign_dec) fp2neg1271(P->x);`, from `mod1271(P->x[0])` on. -/
def decodeSign (sign : UInt8) (x : F2elm) : F2elm :=
  let x := { x with c0 := mod1271 x.c0 }
  let sign_dec := if isZeroCt x.c0.cells then signDec x.c1 else signDec x.c0
  if sign.toNat ≠ sign_dec.toNat then fp2neg1271 x else x

/-- `decode`. What it leaves in `P` on an error is not used. -/
def decode (Pencoded : FixedBuf UInt8 32) : Option PointAffine :=
  let y := decodeY Pencoded
  let sign := Pencoded.cells.getD 31 0 >>> 7
  let x := decodeSign sign (decodeX y)
  let R := pointSetup ⟨x, y⟩
  if eccPointValidate R then some ⟨x, y⟩
  else
    let R := { R with x := { R.x with c1 := fpneg1271 R.x.c1 } }
    if eccPointValidate R then some ⟨{ x with c1 := R.x.c1 }, y⟩ else none

/-! ## What is read off the bytes -/

/-- The second coordinate in the bytes. -/
def encodedY (Pencoded : FixedBuf UInt8 32) : Fp2 :=
  ⟨(bytesLE Pencoded.cells % 2 ^ 128 : Nat), (bytesLE Pencoded.cells / 2 ^ 128 % 2 ^ 127 : Nat)⟩

/-- The bit above the low half, which `encode` leaves clear. -/
def bit128 (Pencoded : FixedBuf UInt8 32) : UInt8 := Pencoded.cells.getD 15 0 &&& 0x80

/-- The top bit. -/
def encodedSign (Pencoded : FixedBuf UInt8 32) : UInt8 := Pencoded.cells.getD 31 0 >>> 7

section Bytes

variable {Pencoded : FixedBuf UInt8 32}

theorem bytesLE_lt_32 (Pencoded : FixedBuf UInt8 32) : bytesLE Pencoded.cells < 2 ^ 256 := by
  have h := Lib.bytesLE_lt Pencoded.cells
  rw [Pencoded.size_eq] at h
  exact h

theorem encodedSign_toNat (Pencoded : FixedBuf UInt8 32) :
    (encodedSign Pencoded).toNat = bytesLE Pencoded.cells / 2 ^ 255 := by
  have hlt := bytesLE_lt_32 Pencoded
  have hbyte := Lib.bytesLE_getD Pencoded.cells 31
  unfold encodedSign
  rw [UInt8.toNat_shiftRight, hbyte, show (7 : UInt8).toNat % 8 = 7 from rfl,
    Nat.shiftRight_eq_div_pow]
  omega

theorem bit128_eq_zero_iff (Pencoded : FixedBuf UInt8 32) :
    bit128 Pencoded = 0 ↔ bytesLE Pencoded.cells % 2 ^ 128 < 2 ^ 127 := by
  have hand : ∀ n < 256, n &&& 0x80 = 0 ↔ n < 128 := by decide +kernel
  have hbyte := Lib.bytesLE_getD Pencoded.cells 15
  have hzero : bit128 Pencoded = 0 ↔ (Pencoded.cells.getD 15 0).toNat &&& 0x80 = 0 := by
    rw [← UInt8.toNat_inj]
    unfold bit128
    rw [UInt8.toNat_and]
    exact Iff.rfl
  rw [hzero, hand _ (UInt8.toNat_lt _), hbyte]
  omega

theorem decodeY_val (Pencoded : FixedBuf UInt8 32) :
    (decodeY Pencoded).c0.val = bytesLE Pencoded.cells % 2 ^ 128 ∧
    (decodeY Pencoded).c1.val = bytesLE Pencoded.cells / 2 ^ 128 % 2 ^ 127 := by
  obtain ⟨hlen, hval⟩ := readDigits_spec (n := 8) Pencoded.size_eq
  have hlow := Lib.Limbs.value_take (by rw [hlen]; decide : 4 ≤ (readDigits Pencoded.cells).length)
  have hhigh := Lib.Limbs.value_drop (by rw [hlen]; decide : 4 ≤ (readDigits Pencoded.cells).length)
  rw [hval] at hlow hhigh
  refine ⟨hlow, ?_⟩
  obtain ⟨-, htop, hmask, hsplit⟩ :=
    split_top (by rw [List.length_drop, hlen] : ((readDigits Pencoded.cells).drop 4).length = 4)
  show value (maskTop ((readDigits Pencoded.cells).drop 4)) = _
  rw [← show 32 * 4 = 128 from rfl, ← hhigh, hsplit, Nat.add_mul_mod_self_left,
    Nat.mod_eq_of_lt hmask]

theorem decodeY_rep (h : bit128 Pencoded = 0) : Fp2Rep (decodeY Pencoded) (encodedY Pencoded) := by
  obtain ⟨h0, h1⟩ := decodeY_val Pencoded
  have hlt := (bit128_eq_zero_iff Pencoded).mp h
  refine ⟨⟨h0 ▸ hlt, ?_⟩, ⟨h1 ▸ Nat.mod_lt _ (by decide), ?_⟩⟩
  · rw [h0]
    rfl
  · rw [h1]
    rfl

end Bytes

/-! ## The first coordinate -/

variable {a b : Felm} {x : Fp}

theorem card_fp : Fintype.card Fp = 4 * (2 ^ 125 - 1) + 3 := by
  rw [ZMod.card, p1271_eq]
  norm_num

theorem isZeroCt_mod1271 (ha : FpRep a x) : isZeroCt (mod1271 a).cells = true ↔ x = 0 := by
  have hne : (mod1271 a).cells ≠ [] := by
    intro h
    have hsize := (mod1271 a).length_cells
    rw [h] at hsize
    exact absurd hsize (by decide)
  have hval := ha.mod1271.2
  rw [isZeroCt_iff hne]
  change (mod1271 a).val = 0 ↔ _
  rw [hval, ZMod.val_eq_zero]

/-- What is under the first root, doubled. -/
theorem FpRep.doubled {y : Fp} (ha : FpRep a x) (hb : FpRep b y) :
    let t := QubicLedger.mod1271 (fpadd1271 a b)
    let t := if isZeroCt t.cells then fpsub1271 a b else t
    FpRep (fpadd1271 t t) (Lib.doubled x y) := by
  intro t
  have hsum := ha.add hb
  have hdiff := ha.sub hb
  unfold Lib.doubled
  by_cases hzero : x + y = 0
  · rw [if_pos hzero, if_pos ((isZeroCt_mod1271 hsum).mpr hzero), two_mul]
    exact hdiff.add hdiff
  · rw [if_neg hzero, if_neg (fun h => hzero ((isZeroCt_mod1271 hsum).mp h)), two_mul]
    exact hsum.mod1271.1.add hsum.mod1271.1

theorem decodeRoot_rep {t0 t1 t2 : Felm} {n a b : Fp} (hn : FpRep t0 n) (ha : FpRep t1 a)
    (hb : FpRep t2 b) : Fp2Rep (decodeRoot t0 t1 t2) (Lib.rootHalves (2 ^ 125 - 1) n a b) := by
  have hpow : 2 ^ 125 - 1 + 1 = 2 ^ 125 := rfl
  have ht := ha.doubled ((ha.sqr.add hb.sqr).sqrTimes 125)
  have hr := hn.mul (ht.mul (hn.mul hn.sqr)).exp1251
  have hroot := ht.mul hr
  have hcheck := ht.sub (hn.mul hroot.sqr)
  unfold Lib.rootHalves
  rw [hpow]
  rw [← pow_succ'] at hr hroot hcheck
  extract_lets t r
  have hswap := (isZeroCt_mod1271 hcheck).trans sub_eq_zero
  unfold decodeRoot
  by_cases h : t = n * (t * r) ^ 2
  · rw [if_pos h, if_pos (hswap.mpr h)]
    exact ⟨hroot.div, hb.mul hr⟩
  · rw [if_neg h, if_neg (fun hzero => h (hswap.mp hzero))]
    exact ⟨hb.mul hr, hroot.div⟩

/-- `decodeX` computes the candidate. -/
theorem decodeX_rep {y : F2elm} {y' : Fp2} (hy : Fp2Rep y y') :
    Fp2Rep (decodeX y)
      (Lib.ratioRoot (2 ^ 125 - 1) (y' ^ 2 - 1) (1 + fourQCurve.d * y' ^ 2)) := by
  have hd : Fp2Rep parameterD fourQCurve.d := Fp2Rep.of_num (by decide +kernel)
  have hu := hy.sqr.sub Fp2Rep.one
  have hv := (hy.sqr.mul hd).add Fp2Rep.one
  rw [pow_two, add_comm, mul_comm fourQCurve.d]
  exact decodeRoot_rep (hv.re.sqr.add hv.im.sqr) ((hu.re.mul hv.re).add (hu.im.mul hv.im))
    ((hu.im.mul hv.re).sub (hu.re.mul hv.im))

/-- The norm of a denominator. -/
theorem sum_sq_ne_zero {z : Fp2} (hz : z ≠ 0) : z.re ^ 2 + z.im ^ 2 ≠ 0 := by
  intro h
  refine hz (QuadraticAlgebra.norm_eq_zero_iff_eq_zero.mp ?_)
  rw [QuadraticAlgebra.norm_def]
  linear_combination h

/-- `decodeX`, where there is a point: its first coordinate up to sign and conjugation. -/
theorem decodeX_point {y : F2elm} {Q : fourQCurve.Point} (hy : Fp2Rep y Q.y) :
    ∃ r w, Fp2Rep (decodeX y) r ∧ (r = w ∨ r = -w) ∧ (w = Q.x ∨ w = star Q.x) := by
  obtain ⟨w, hw, hroot⟩ := Lib.ratioRoot_spec card_fp two_ne_zero_fp (x := Q.x)
    (sum_sq_ne_zero (fourQCurve.one_add_d_mul_sq_ne_zero Q.y)) Q.x_sq_mul
  exact ⟨_, w, decodeX_rep hy, hroot, hw⟩

/-! ## The sign -/

theorem signDec_toNat (ha : a.val < 2 ^ 127) : (signDec a).toNat = a.val / 2 ^ 126 := by
  obtain ⟨cells, hsize⟩ := a
  match cells, hsize with
  | [c₀, c₁, c₂, c₃], _ =>
    have h₀ := c₀.isLt
    have h₁ := c₁.isLt
    have h₂ := c₂.isLt
    show (c₃ >>> 30).toNat = value [c₀, c₁, c₂, c₃] / 2 ^ 126
    rw [toNat_shiftRight]
    simp only [Lib.Limbs.value_cons, Lib.Limbs.value_nil]
    omega

theorem topBitOf_le (x : Fp) : topBitOf x ≤ 1 := by
  have hlt := Fp.val_lt x
  unfold topBitOf
  omega

theorem signBit_le (x : Fp2) : signBit x ≤ 1 := by
  unfold signBit
  split
  · exact topBitOf_le _
  · exact topBitOf_le _

/-- The sign of the bytes, unless the coordinate is zero. -/
theorem decodeSign_rep {x : F2elm} {x' : Fp2} (hx : Fp2Rep x x') {sign : UInt8}
    (hsign : sign.toNat ≤ 1) :
    ∃ x'', Fp2Rep (decodeSign sign x) x'' ∧ (x'' = x' ∨ x'' = -x') ∧
      (x'' ≠ 0 → signBit x'' = sign.toNat) := by
  obtain ⟨hre, hval⟩ := hx.re.mod1271
  have hrep : Fp2Rep { x with c0 := mod1271 x.c0 } x' := ⟨hre, hx.im⟩
  unfold decodeSign
  extract_lets x₀ sign_dec
  have hdec : x' ≠ 0 → sign_dec.toNat = signBit x' := by
    intro hne
    show (if isZeroCt (mod1271 x.c0).cells then signDec x.c1
      else signDec (mod1271 x.c0)).toNat = signBit x'
    unfold signBit topBitOf
    by_cases hzero : x'.re = 0
    · have him : x'.im ≠ 0 := fun h => hne (QuadraticAlgebra.ext hzero h)
      rw [if_pos ((isZeroCt_mod1271 hx.re).mpr hzero), if_pos hzero, signDec_toNat hx.im.lt,
        hx.im.val_eq him]
    · rw [if_neg (fun h => hzero ((isZeroCt_mod1271 hx.re).mp h)), if_neg hzero,
        signDec_toNat hre.lt, hval]
  by_cases hflip : sign.toNat ≠ sign_dec.toNat
  · rw [if_pos hflip]
    refine ⟨-x', hrep.neg, .inr rfl, fun hne => ?_⟩
    have hne' : x' ≠ 0 := neg_ne_zero.mp hne
    have hneg := signBit_neg hne'
    have hle := signBit_le x'
    rw [hdec hne'] at hflip
    omega
  · rw [if_neg hflip]
    exact ⟨x', hrep, .inl rfl, fun hne => (hdec hne).symm.trans (not_not.mp hflip).symm⟩

/-! ## Decoding -/

theorem re_star_fp2 (x : Fp2) : (star x).re = x.re := by
  rw [QuadraticAlgebra.re_star, zero_mul, add_zero]

/-- Negating the imaginary half conjugates. -/
theorem Fp2Rep.conj {x : F2elm} {x' : Fp2} (hx : Fp2Rep x x') :
    Fp2Rep { x with c1 := fpneg1271 x.c1 } (star x') := by
  refine ⟨?_, ?_⟩
  · rw [re_star_fp2]
    exact hx.re
  · rw [QuadraticAlgebra.im_star]
    exact hx.im.neg

/-- The two candidates of `decode`. -/
theorem decode_eq (Pencoded : FixedBuf UInt8 32) :
    decode Pencoded =
      let y := decodeY Pencoded
      let x := decodeSign (encodedSign Pencoded) (decodeX y)
      let x' := { x with c1 := fpneg1271 x.c1 }
      if eccPointValidate (pointSetup ⟨x, y⟩) then some ⟨x, y⟩
      else if eccPointValidate (pointSetup ⟨x', y⟩) then some ⟨x', y⟩
      else none := rfl

section Decode

variable {Pencoded : FixedBuf UInt8 32}

theorem encodedSign_le (Pencoded : FixedBuf UInt8 32) : (encodedSign Pencoded).toNat ≤ 1 := by
  have hlt := bytesLE_lt_32 Pencoded
  rw [encodedSign_toNat]
  omega

/-- What `decode` leaves: the digits in the bytes, and with them those of a point. -/
structure Decoded (Pencoded : FixedBuf UInt8 32) (P : PointAffine) (Q : fourQCurve.Point) :
    Prop where
  digits : P.y = decodeY Pencoded
  x : Fp2Rep P.x Q.x
  y : Fp2Rep P.y Q.y

/-- What is decoded is a point of the curve. -/
theorem decode_point (h128 : bit128 Pencoded = 0) {P : PointAffine}
    (h : decode Pencoded = some P) : ∃ Q : fourQCurve.Point, Decoded Pencoded P Q := by
  have hy := decodeY_rep h128
  obtain ⟨x, hx, -⟩ := decodeSign_rep (decodeX_rep hy) (encodedSign_le Pencoded)
  rw [decode_eq] at h
  dsimp only at h
  split at h
  · rename_i hvalid
    cases h
    exact ⟨⟨x, _, (eccPointValidate_pointSetup hx hy).1 hvalid⟩, rfl, hx, hy⟩
  · split at h
    · rename_i hvalid
      cases h
      exact ⟨⟨star x, _, (eccPointValidate_pointSetup hx.conj hy).1 hvalid⟩, rfl, hx.conj, hy⟩
    · cases h

/-- Every point is decoded, unless its second coordinate is oddly written. -/
theorem decode_of_point {Q : fourQCurve.Point} (hy : Fp2Rep (decodeY Pencoded) Q.y)
    (hplain : ¬ OddlyWritten (decodeY Pencoded)) :
    ∃ (P : PointAffine) (Q' : fourQCurve.Point), decode Pencoded = some P ∧ Decoded Pencoded P Q' ∧
      Q'.y = Q.y ∧ (Q'.x ≠ 0 → signBit Q'.x = (encodedSign Pencoded).toNat) := by
  obtain ⟨r, w, hr, hrw, hw⟩ := decodeX_point hy
  obtain ⟨x, hx, hxr, hsign⟩ := decodeSign_rep hr (encodedSign_le Pencoded)
  have hxw : x = w ∨ x = -w := by
    rcases hxr with rfl | rfl
    · exact hrw
    · exact hrw.symm.imp (fun h => by rw [h, neg_neg]) (congrArg Neg.neg)
  rw [decode_eq]
  dsimp only
  by_cases hfirst : OnCurve x Q.y
  · rw [if_pos ((eccPointValidate_pointSetup hx hy).2 hfirst hplain)]
    exact ⟨_, ⟨x, Q.y, hfirst⟩, rfl, ⟨rfl, hx, hy⟩, rfl, hsign⟩
  · -- the other candidate is the point
    have hconj : star x = Q.x ∨ star x = -Q.x := by
      rcases hw with rfl | rfl
      · refine absurd ?_ hfirst
        rcases hxw with rfl | rfl
        · exact Q.on_curve
        · exact OnCurve.neg Q.on_curve
      · rcases hxw with rfl | rfl
        · exact .inl (star_star _)
        · exact .inr (by rw [star_neg, star_star])
    have hsecond : OnCurve (star x) Q.y := by
      rcases hconj with h | h <;> rw [h]
      · exact Q.on_curve
      · exact OnCurve.neg Q.on_curve
    have hre : x.re ≠ 0 := by
      intro hre
      have hneg : star x = -x :=
        QuadraticAlgebra.ext (by rw [re_star_fp2, QuadraticAlgebra.re_neg, hre, neg_zero]) rfl
      rw [hneg] at hsecond
      exact hfirst (by rw [← neg_neg x]; exact hsecond.neg)
    rw [if_neg (fun h => hfirst ((eccPointValidate_pointSetup hx hy).1 h)),
      if_pos ((eccPointValidate_pointSetup hx.conj hy).2 hsecond hplain)]
    refine ⟨_, ⟨star x, Q.y, hsecond⟩, rfl, ⟨rfl, hx.conj, hy⟩, rfl, fun _ => ?_⟩
    rw [← hsign (fun h => hre (congrArg QuadraticAlgebra.re h)), signBit, signBit, re_star_fp2,
      if_neg hre, if_neg hre]

end Decode

/-! ## There and back -/

section RoundTrip

variable {Pencoded : FixedBuf UInt8 32} {P : PointAffine} {Q : fourQCurve.Point}

/-- The parts of a code. -/
theorem pointCode_parts (Q : fourQCurve.Point) :
    pointCode Q % 2 ^ 128 = Q.y.re.val ∧ pointCode Q / 2 ^ 128 % 2 ^ 127 = Q.y.im.val ∧
      pointCode Q / 2 ^ 255 = signBit Q.x := by
  have hre := Fp.val_lt Q.y.re
  have him := Fp.val_lt Q.y.im
  have hsign := signBit_le Q.x
  unfold pointCode
  refine ⟨?_, ?_, ?_⟩ <;> omega

/-- The bytes that `encode` makes of a point. -/
theorem encode_eq_iff (h : AffineRep P Q) :
    encode P = Pencoded ↔ Q.y.re.val = bytesLE Pencoded.cells % 2 ^ 128 ∧
      Q.y.im.val = bytesLE Pencoded.cells / 2 ^ 128 % 2 ^ 127 ∧
      signBit Q.x = bytesLE Pencoded.cells / 2 ^ 255 := by
  have hcode := bytesLE_encode h
  obtain ⟨hlow, hhigh, htop⟩ := pointCode_parts Q
  constructor
  · intro heq
    rw [← heq, hcode]
    exact ⟨hlow.symm, hhigh.symm, htop.symm⟩
  · rintro ⟨hlow', hhigh', htop'⟩
    refine FixedBuf.ext (Lib.bytesLE_inj ((encode P).size_eq.trans Pencoded.size_eq.symm) ?_)
    rw [hcode]
    rw [hlow'] at hlow
    rw [hhigh'] at hhigh
    rw [htop'] at htop
    omega

/-- The bytes of a point are decoded to it. -/
theorem decode_of_code (h : bytesLE Pencoded.cells = pointCode Q) :
    ∃ P, decode Pencoded = some P ∧ Decoded Pencoded P Q := by
  obtain ⟨hlow, hhigh, htop⟩ := pointCode_parts Q
  obtain ⟨hval0, hval1⟩ := decodeY_val Pencoded
  rw [h, hlow] at hval0
  rw [h, hhigh] at hval1
  have hy : Fp2Rep (decodeY Pencoded) Q.y :=
    ⟨⟨hval0 ▸ Fp.val_lt _, by rw [hval0, ZMod.natCast_zmod_val]⟩,
      ⟨hval1 ▸ Fp.val_lt _, by rw [hval1, ZMod.natCast_zmod_val]⟩⟩
  have hplain : ¬ OddlyWritten (decodeY Pencoded) := fun hodd =>
    (ZMod.val_lt Q.y.im).ne (hval1.symm.trans hodd.1)
  obtain ⟨P, Q', hdecode, hdecoded, hQy, hsign⟩ := decode_of_point hy hplain
  suffices hQ : Q' = Q from ⟨P, hdecode, hQ ▸ hdecoded⟩
  rcases EdwardsCurve.Point.x_eq_or_neg hQy with hQx | hQx
  · exact EdwardsCurve.Point.ext hQx hQy
  · by_cases hzero : Q.x = 0
    · rw [hzero, neg_zero] at hQx
      exact EdwardsCurve.Point.ext (hQx.trans hzero.symm) hQy
    · -- the top bit tells the point from its negative
      have hneg := signBit_neg hzero
      have hbit := hsign (by rw [hQx]; exact neg_ne_zero.mpr hzero)
      rw [encodedSign_toNat, h, htop, hQx] at hbit
      omega

/-- The digits below the prime of an element. -/
theorem Fp2Rep.mod_eq {a b : F2elm} {x : Fp2} (ha : Fp2Rep a x) (hre : b.c0.val = x.re.val)
    (him : b.c1.val = x.im.val) : fp2mod1271 a = b :=
  congrArg₂ F2elm.mk (Felm.ext_val (ha.mod.2.1.trans hre.symm))
    (Felm.ext_val (ha.mod.2.2.trans him.symm))

/-- `decode` undoes `encode`: the point comes back, its first coordinate up to the second
representation of zero. -/
theorem decode_encode (h : AffineRep P Q) :
    ∃ x, decode (encode P) = some ⟨x, P.y⟩ ∧ fp2mod1271 x = P.x := by
  have hcode := bytesLE_encode h
  obtain ⟨P', hdecode, hdigits, hx, -⟩ := decode_of_code hcode
  obtain ⟨hlow, hhigh, -⟩ := pointCode_parts Q
  obtain ⟨hval0, hval1⟩ := decodeY_val (encode P)
  rw [hcode, hlow, ← h.y_re] at hval0
  rw [hcode, hhigh, ← h.y_im] at hval1
  have hPy : P'.y = P.y :=
    hdigits.trans (congrArg₂ F2elm.mk (Felm.ext_val hval0) (Felm.ext_val hval1))
  exact ⟨P'.x, by rw [hdecode, ← hPy], hx.mod_eq h.x_re h.x_im⟩

/-- The generator comes back. -/
theorem decode_encode_generator :
    ∃ x, decode (encode eccset) = some ⟨x, eccset.y⟩ ∧ fp2mod1271 x = eccset.x :=
  decode_encode AffineRep.eccset

/-- What `encode` makes of a decoded point are the bytes that were decoded, if both halves of the
second coordinate are below the prime and the top bit is not that of a zero. -/
theorem encode_decode (h128 : bit128 Pencoded = 0) (h : decode Pencoded = some P) :
    encode ⟨fp2mod1271 P.x, fp2mod1271 P.y⟩ = Pencoded ↔
      (decodeY Pencoded).c0.val < p1271 ∧ (decodeY Pencoded).c1.val < p1271 ∧
        (fp2mod1271 P.x = fp2zero1271 → encodedSign Pencoded = 0) := by
  obtain ⟨Q, hdigits, hx, hy⟩ := decode_point h128 h
  have haffine : AffineRep ⟨fp2mod1271 P.x, fp2mod1271 P.y⟩ Q :=
    ⟨hx.mod.2.1, hx.mod.2.2, hy.mod.2.1, hy.mod.2.2⟩
  rw [hdigits] at hy
  have hzero : fp2mod1271 P.x = fp2zero1271 ↔ Q.x = 0 := by
    constructor
    · intro hmod
      have hrep := hx.mod.1
      rw [hmod] at hrep
      exact hrep.unique Fp2Rep.zero
    · intro hQx
      rw [hQx] at hx
      exact hx.mod_eq rfl rfl
  have hcode : encode ⟨fp2mod1271 P.x, fp2mod1271 P.y⟩ = Pencoded ↔
      Q.y.re.val = (decodeY Pencoded).c0.val ∧ Q.y.im.val = (decodeY Pencoded).c1.val ∧
        signBit Q.x = (encodedSign Pencoded).toNat := by
    rw [encode_eq_iff haffine, (decodeY_val Pencoded).1, (decodeY_val Pencoded).2,
      encodedSign_toNat]
  rw [hcode, hy.re.val_mod, hy.im.val_mod, Nat.mod_eq_iff_lt (by decide),
    Nat.mod_eq_iff_lt (by decide), hzero]
  refine and_congr_right fun _ => and_congr_right fun hreduced => ?_
  refine ⟨fun hsign hQx => ?_, fun h0 => ?_⟩
  · rw [hQx] at hsign
    exact UInt8.toNat_inj.mp hsign.symm
  · by_cases hQx : Q.x = 0
    · rw [hQx, h0 hQx]
      rfl
    · have hplain : ¬ OddlyWritten (decodeY Pencoded) := fun hodd => absurd hodd.1 hreduced.ne
      obtain ⟨P', Q', hdecode, hdecoded, -, hsign⟩ := decode_of_point hy hplain
      rw [h] at hdecode
      cases hdecode
      rw [hx.unique hdecoded.x] at hQx ⊢
      exact hsign hQx

/-- The generator: the same bytes come back. -/
theorem encode_decode_generator :
    ∃ P, decode (encode eccset) = some P ∧
      encode ⟨fp2mod1271 P.x, fp2mod1271 P.y⟩ = encode eccset := by
  obtain ⟨P, hdecode, -⟩ := decode_of_code (bytesLE_encode AffineRep.eccset)
  refine ⟨P, hdecode, (encode_decode (by decide +kernel) hdecode).mpr ⟨?_, ?_, fun _ => ?_⟩⟩
  · decide +kernel
  · decide +kernel
  · decide +kernel

end RoundTrip

end QubicLedger
