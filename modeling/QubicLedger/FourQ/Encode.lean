import QubicLedger.FourQ.Curve
import QubicLedger.Lib.Bytes

/-!
# Encoded points (`encode`, `crypto_util.c`)

A point is sent as 32 bytes: its second coordinate, little-endian, with one bit
of the first coordinate in the free top bit. The two points that share a second
coordinate differ in that bit, so the bytes determine the point.
-/

namespace QubicLedger

open Lib (FixedBuf EdwardsCurve bytesLE bytesOfLE)
open Lib.Limbs (value)

/-! ## Bytes and digits -/

/-- Bytes read through a `digit_t` pointer. -/
def readDigits : List UInt8 → List Digit
  | b₀ :: b₁ :: b₂ :: b₃ :: bs => BitVec.ofNat 32 (bytesLE [b₀, b₁, b₂, b₃]) :: readDigits bs
  | _ => []

/-- Digits stored through a `digit_t` pointer. -/
def writeDigits (xs : List Digit) : List UInt8 := xs.flatMap fun x => bytesOfLE 4 x.toNat

theorem bytesLE_append (bs cs : List UInt8) :
    bytesLE (bs ++ cs) = bytesLE bs + 256 ^ bs.length * bytesLE cs := by
  rw [bytesLE, List.map_append, Nat.ofDigits_append, List.length_map]
  rfl

@[simp] theorem length_writeDigits (xs : List Digit) :
    (writeDigits xs).length = 4 * xs.length := by
  induction xs with
  | nil => rfl
  | cons x xs ih =>
    rw [writeDigits, List.flatMap_cons, List.length_append, ← writeDigits, ih, List.length_cons,
      Lib.length_bytesOfLE]
    omega

theorem bytesLE_writeDigits (xs : List Digit) : bytesLE (writeDigits xs) = value xs := by
  induction xs with
  | nil => rfl
  | cons x xs ih =>
    have hx : x.toNat < 256 ^ 4 := x.isLt
    rw [writeDigits, List.flatMap_cons, bytesLE_append, ← writeDigits, ih, Lib.length_bytesOfLE,
      Lib.bytesLE_bytesOfLE, Nat.mod_eq_of_lt hx, Lib.Limbs.value_cons]
    rfl

theorem readDigits_spec {bs : List UInt8} {n : Nat} (h : bs.length = 4 * n) :
    (readDigits bs).length = n ∧ value (readDigits bs) = bytesLE bs := by
  induction n generalizing bs with
  | zero =>
    rw [List.length_eq_zero_iff.mp h]
    exact ⟨rfl, rfl⟩
  | succ n ih =>
    match bs, h with
    | b₀ :: b₁ :: b₂ :: b₃ :: bs, h =>
      obtain ⟨hlen, hval⟩ := ih (Nat.add_right_cancel (m := 4) h : bs.length = 4 * n)
      have hlt := Lib.bytesLE_lt [b₀, b₁, b₂, b₃]
      refine ⟨congrArg (· + 1) hlen, ?_⟩
      rw [show b₀ :: b₁ :: b₂ :: b₃ :: bs = [b₀, b₁, b₂, b₃] ++ bs from rfl, bytesLE_append]
      rw [List.cons_append, List.cons_append, List.cons_append, List.cons_append, List.nil_append,
        readDigits, Lib.Limbs.value_cons, hval, BitVec.toNat_ofNat]
      rw [show [b₀, b₁, b₂, b₃].length = 4 from rfl] at hlt ⊢
      rw [show 256 ^ 4 = 2 ^ 32 by norm_num] at hlt ⊢
      rw [Nat.mod_eq_of_lt hlt]

/-! ## The function -/

/-- `mask4000`. -/
def mask4000 : Digit := 1 <<< 30

/-- `is_zero_ct`. -/
def isZeroCt (a : List Digit) : Bool :=
  let x := a.tail.foldl (· ||| ·) (a.headD 0)
  (1 ^^^ ((x ||| (0 - x)) >>> 31) : Digit) == 1

/-- The bit of a half of the first coordinate, at its place in the encoding. -/
def signDigit (x : Felm) : Digit := (x.cells.getD (nwordsField - 1) 0 &&& mask4000) <<< 1

/-- `encode`. -/
def encode (P : PointAffine) : FixedBuf UInt8 32 :=
  let temp1 := signDigit P.x.c1
  let temp2 := signDigit P.x.c0
  let y := P.y.c0.cells ++ P.y.c1.cells
  let top := y.getD (2 * nwordsField - 1) 0
  let temp := if isZeroCt P.x.c0.cells then temp1 else temp2
  ⟨writeDigits (y.set (2 * nwordsField - 1) (top ||| temp)), by
    rw [length_writeDigits, List.length_set, List.length_append, P.y.c0.size_eq, P.y.c1.size_eq]
    rfl⟩

/-! ## What it computes -/

theorem foldl_or_eq_zero (acc : Digit) (a : List Digit) :
    a.foldl (· ||| ·) acc = 0 ↔ acc = 0 ∧ value a = 0 := by
  induction a generalizing acc with
  | nil => simp
  | cons x xs ih =>
    have hx : x = 0 ↔ x.toNat = 0 := (BitVec.toNat_inj (y := 0)).symm
    rw [List.foldl_cons, ih, show (0 : Digit) = 0#32 from rfl, BitVec.or_eq_zero_iff,
      Lib.Limbs.value_cons]
    change (acc = 0 ∧ x = 0) ∧ _ ↔ acc = 0 ∧ _
    rw [hx, and_assoc]
    refine and_congr_right fun _ => ?_
    omega

/-- `is_zero_ct` asks whether the number is zero. -/
theorem isZeroCt_iff {a : List Digit} (h : a ≠ []) : isZeroCt a = true ↔ value a = 0 := by
  match a, h with
  | x :: xs, _ =>
    have hx : x = 0 ↔ x.toNat = 0 := (BitVec.toNat_inj (y := 0)).symm
    have hct : isZeroCt (x :: xs) = (isDigitZeroCt (xs.foldl (· ||| ·) x) == 1) := rfl
    rw [hct, isDigitZeroCt_eq, Lib.Limbs.value_cons]
    have hfold := foldl_or_eq_zero x xs
    by_cases hzero : xs.foldl (· ||| ·) x = 0
    · rw [if_pos hzero]
      have := hfold.mp hzero
      rw [hx] at this
      simp only [beq_self_eq_true, true_iff]
      omega
    · rw [if_neg hzero]
      rw [hfold, hx] at hzero
      refine ⟨fun h => absurd h (by decide), fun h => absurd ?_ hzero⟩
      omega

/-- Bit 126, moved to the top of its digit. -/
theorem signDigit_toNat {x : Felm} (hx : x.val < 2 ^ 127) :
    (signDigit x).toNat = 2 ^ 31 * (x.val / 2 ^ 126) := by
  obtain ⟨cells, hsize⟩ := x
  match cells, hsize with
  | [c₀, c₁, c₂, c₃], _ =>
    change value [c₀, c₁, c₂, c₃] < 2 ^ 127 at hx
    show ((c₃ &&& mask4000) <<< 1).toNat = 2 ^ 31 * (value [c₀, c₁, c₂, c₃] / 2 ^ 126)
    simp only [Lib.Limbs.value_cons, Lib.Limbs.value_nil] at hx ⊢
    have h₀ := c₀.isLt
    have h₁ := c₁.isLt
    have h₂ := c₂.isLt
    have hmask : (c₃ &&& mask4000).toNat = c₃.toNat / 2 ^ 30 % 2 * 2 ^ 30 := by
      rw [BitVec.toNat_and, show mask4000.toNat = 2 ^ 30 from rfl, Nat.and_two_pow,
        Nat.testBit_eq_decide_div_mod_eq]
      rcases Nat.mod_two_eq_zero_or_one (c₃.toNat / 2 ^ 30) with h | h <;> rw [h] <;> rfl
    rw [BitVec.toNat_shiftLeft, Nat.shiftLeft_eq, hmask]
    omega

/-- A bit put on top of a field element. -/
theorem value_set_top {x : Felm} (hx : x.val < 2 ^ 127) {t : Digit} {b : Nat}
    (ht : t.toNat = 2 ^ 31 * b) :
    value (x.cells.set 3 (x.cells.getD 3 0 ||| t)) = x.val + 2 ^ 127 * b := by
  obtain ⟨cells, hsize⟩ := x
  match cells, hsize with
  | [c₀, c₁, c₂, c₃], _ =>
    change value [c₀, c₁, c₂, c₃] < 2 ^ 127 at hx
    show value [c₀, c₁, c₂, c₃ ||| t] = value [c₀, c₁, c₂, c₃] + 2 ^ 127 * b
    simp only [Lib.Limbs.value_cons, Lib.Limbs.value_nil] at hx ⊢
    have hor : (c₃ ||| t).toNat = c₃.toNat + 2 ^ 31 * b := by
      rw [BitVec.toNat_or, ht, Nat.or_comm, ← Nat.two_pow_add_eq_or_of_lt (by omega), Nat.add_comm]
    rw [hor]
    omega

/-- The same bit, seen in the 32 bytes. -/
theorem value_set_append (lo : Felm) {hi : Felm} (hhi : hi.val < 2 ^ 127) {t : Digit} {b : Nat}
    (ht : t.toNat = 2 ^ 31 * b) :
    value ((lo.cells ++ hi.cells).set 7 ((lo.cells ++ hi.cells).getD 7 0 ||| t))
      = lo.val + 2 ^ 128 * (hi.val + 2 ^ 127 * b) := by
  have hlo := lo.length_cells
  have hget : (lo.cells ++ hi.cells).getD 7 0 = hi.cells.getD 3 0 := by
    rw [List.getD_append_right _ _ _ _ (by omega), hlo]
  rw [hget, List.set_append_right _ _ (by omega), hlo, Lib.Limbs.value_append, hlo,
    value_set_top hhi ht]
  rfl

/-- The bit of a field element that tells it from its negative. -/
def topBitOf (x : Fp) : Nat := x.val / 2 ^ 126

/-- The sign bit of an element of GF(p²). -/
def signBit (x : Fp2) : Nat := if x.re = 0 then topBitOf x.im else topBitOf x.re

variable {P : PointAffine} {Q Q' : fourQCurve.Point}

theorem Fp.val_lt (x : Fp) : x.val < 2 ^ 127 :=
  (ZMod.val_lt x).trans (by rw [p1271_eq]; norm_num)

/-- The number that stands for a point: the second coordinate, and the sign bit
of the first on top. -/
def pointCode (Q : fourQCurve.Point) : Nat :=
  Q.y.re.val + 2 ^ 128 * (Q.y.im.val + 2 ^ 127 * signBit Q.x)

/-- `encode` writes the code of the point. -/
theorem bytesLE_encode (h : AffineRep P Q) : bytesLE (encode P).cells = pointCode Q := by
  have hx0 : P.x.c0.val < 2 ^ 127 := h.x_re ▸ Fp.val_lt _
  have hx1 : P.x.c1.val < 2 ^ 127 := h.x_im ▸ Fp.val_lt _
  have hy1 : P.y.c1.val < 2 ^ 127 := h.y_im ▸ Fp.val_lt _
  have hne : P.x.c0.cells ≠ [] := by
    intro hnil
    have hsize := P.x.c0.length_cells
    rw [hnil] at hsize
    exact absurd hsize (by decide)
  have hzero := isZeroCt_iff hne
  have hsign : (if isZeroCt P.x.c0.cells then signDigit P.x.c1 else signDigit P.x.c0).toNat
      = 2 ^ 31 * signBit Q.x := by
    unfold signBit topBitOf
    change _ ↔ P.x.c0.val = 0 at hzero
    rw [h.x_re, ZMod.val_eq_zero] at hzero
    by_cases hre : Q.x.re = 0
    · rw [if_pos (hzero.mpr hre), if_pos hre, signDigit_toNat hx1, h.x_im]
    · rw [if_neg (fun hct => hre (hzero.mp hct)), if_neg hre, signDigit_toNat hx0, h.x_re]
  have hset := value_set_append P.y.c0 hy1 hsign
  rw [h.y_re, h.y_im] at hset
  exact (bytesLE_writeDigits _).trans hset

/-- An element and its negative differ in bit 126. -/
theorem topBitOf_neg {x : Fp} (hx : x ≠ 0) : topBitOf (-x) + topBitOf x = 1 := by
  have hlt := ZMod.val_lt x
  have hpos : x.val ≠ 0 := fun h0 => hx ((ZMod.val_eq_zero x).mp h0)
  have hneg : (-x).val = p1271 - x.val := by
    rw [ZMod.neg_val, if_neg hx]
  unfold topBitOf
  rw [hneg]
  generalize ZMod.val x = v at *
  rw [p1271_eq] at *
  omega

theorem signBit_neg {x : Fp2} (hx : x ≠ 0) : signBit (-x) + signBit x = 1 := by
  unfold signBit
  rw [QuadraticAlgebra.re_neg, QuadraticAlgebra.im_neg]
  by_cases hre : x.re = 0
  · have him : x.im ≠ 0 := fun h => hx (QuadraticAlgebra.ext hre h)
    rw [if_pos (neg_eq_zero.mpr hre), if_pos hre, topBitOf_neg him]
  · rw [if_neg (fun h => hre (neg_eq_zero.mp h)), if_neg hre, topBitOf_neg hre]

/-- Points have different codes. -/
theorem pointCode_inj (h : pointCode Q = pointCode Q') : Q = Q' := by
  have hbounds (P : fourQCurve.Point) : P.y.re.val < 2 ^ 127 ∧ P.y.im.val < 2 ^ 127 :=
    ⟨Fp.val_lt _, Fp.val_lt _⟩
  have hQ := hbounds Q
  have hQ' := hbounds Q'
  unfold pointCode at h
  have hy : Q.y = Q'.y := by
    refine QuadraticAlgebra.ext (ZMod.val_injective _ (by omega)) (ZMod.val_injective _ ?_)
    omega
  have hsign : signBit Q.x = signBit Q'.x := by
    rw [hy] at h
    omega
  rcases EdwardsCurve.Point.x_eq_or_neg hy with hx | hx
  · exact EdwardsCurve.Point.ext hx hy
  · -- opposite first coordinates have opposite sign bits
    by_cases hzero : Q'.x = 0
    · rw [hzero, neg_zero] at hx
      exact EdwardsCurve.Point.ext (hx.trans hzero.symm) hy
    · have hopposite := signBit_neg hzero
      rw [hx] at hsign
      omega

/-- The encoding is injective on points of the curve. -/
theorem encode_inj {P' : PointAffine} (h : AffineRep P Q) (h' : AffineRep P' Q') :
    encode P = encode P' ↔ Q = Q' := by
  refine ⟨fun heq => pointCode_inj ?_, fun heq => ?_⟩
  · rw [← bytesLE_encode h, ← bytesLE_encode h', heq]
  · refine FixedBuf.ext (Lib.bytesLE_inj (by rw [(encode P).size_eq, (encode P').size_eq]) ?_)
    rw [bytesLE_encode h, bytesLE_encode h', heq]

/-- The generator with its first coordinate negated. -/
def eccsetNeg : PointAffine := ⟨fp2neg1271 generatorX, generatorY⟩

/-- Only the sign bit tells the generator from its negative. -/
theorem encode_inj_eccsetNeg : encode eccsetNeg ≠ encode eccset := by
  have hneg : AffineRep eccsetNeg (-generator) :=
    ⟨by decide +kernel, by decide +kernel, by decide +kernel, by decide +kernel⟩
  intro heq
  have hpoint : -generator = generator := (encode_inj hneg AffineRep.eccset).mp heq
  have hre : (-generator).x.re.val ≠ generator.x.re.val := by decide +kernel
  rw [hpoint] at hre
  exact hre rfl

end QubicLedger
