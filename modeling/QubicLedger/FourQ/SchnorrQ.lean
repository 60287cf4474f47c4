import QubicLedger.FourQ.FixedBase
import QubicLedger.FourQ.Decode
import QubicLedger.Keygen

/-!
# Signatures (`schnorrq.c`)

The curve functions behind `SchnorrQ_KeyGeneration` and `SchnorrQ_Sign`, and
what the two make together. A signature is an encoded point `R` and a number
`S`; it verifies under an encoded point `A` if `[S]G + [h]A = R`, where `h` is
the hash of the three. `schnorrQSign_verifies_iff` says that what `SchnorrQ_Sign`
makes of a key verifies under the public key of that key, and that is so
exactly up to the false carries of the two scalar recodings behind `A` and `R`.
-/

namespace QubicLedger

open Lib (FixedBuf bytesLE)
open Lib.Limbs (value)

/-! ## The functions -/

/-- The eight digits at the start of a hash. -/
def scalarDigits (bs : List UInt8) : List Digit := readDigits (bs.take 32)

/-- `ecc_mul_fixed((digit_t *) k, P); encode(P, ..)`. -/
def eccMulFixedEncode (k : List UInt8) : FixedBuf UInt8 32 := encode (eccMulFixed (scalarDigits k))

/-- The scalar half of `SchnorrQ_Sign`. -/
def schnorrQScalar (k r h : List UInt8) : List Digit :=
  let r := moduloOrder (scalarDigits r)
  let H := moduloOrder (scalarDigits h)
  let S := toMontgomery (scalarDigits k)
  let H := toMontgomery H
  let S := montgomeryMultiplyModOrder S H
  let S := fromMontgomery S
  subtractModOrder r S

/-- The library of `deps/FourQ_ARM`. -/
def fourQArm : FourQ where
  mulFixedEncode := eccMulFixedEncode
  scalarS k r h := (FixedBuf.fill 32 0).write 0 (writeDigits (schnorrQScalar k r h))

/-! ## Scalars -/

/-- The number that a hash selects. -/
def scalarOf (bs : List UInt8) : Nat := bytesLE (bs.take 32)

theorem scalarDigits_spec {bs : List UInt8} (h : 32 ≤ bs.length) :
    (scalarDigits bs).length = 8 ∧ value (scalarDigits bs) = scalarOf bs :=
  readDigits_spec (n := 8) (by rw [List.length_take]; omega)

/-- The scalar half: `r - k h` modulo the order. -/
theorem schnorrQScalar_spec {k r h : List UInt8} (hk : 32 ≤ k.length) (hr : 32 ≤ r.length)
    (hh : 32 ≤ h.length) :
    (schnorrQScalar k r h).length = 8 ∧ value (schnorrQScalar k r h) < order ∧
    (value (schnorrQScalar k r h) : ℤ) ≡ scalarOf r - scalarOf k * scalarOf h [ZMOD order] := by
  obtain ⟨hklen, hkval⟩ := scalarDigits_spec hk
  obtain ⟨hrlen, hrval⟩ := scalarDigits_spec hr
  obtain ⟨hhlen, hhval⟩ := scalarDigits_spec hh
  obtain ⟨hrlen', hrval'⟩ := moduloOrder_spec hrlen
  obtain ⟨hhlen', hhval'⟩ := moduloOrder_spec hhlen
  obtain ⟨hclen, hclt, hcmod⟩ := montgomeryProduct_spec hklen hhlen'
  have hrlt : value (moduloOrder (scalarDigits r)) < order := by
    rw [hrval']
    exact Nat.mod_lt _ order_pos
  obtain ⟨hlen, hval⟩ := subtractModOrder_spec hrlen' hclen hrlt hclt
  rw [hkval, hhval', hhval] at hcmod
  replace hcmod := hcmod.trans ((Nat.mod_modEq _ _).mul_left _)
  refine ⟨hlen, ?_, ?_⟩
  · exact hval ▸ Nat.mod_lt _ order_pos
  · have hr : (value (moduloOrder (scalarDigits r)) : ℤ) ≡ scalarOf r [ZMOD order] := by
      rw [hrval', hrval]
      exact Int.natCast_modEq_iff.mpr (Nat.mod_modEq _ _)
    have hdiff := hr.sub (Int.natCast_modEq_iff.mpr hcmod)
    rw [Nat.cast_mul] at hdiff
    refine Int.ModEq.trans ?_ hdiff
    change (value (subtractModOrder _ _) : ℤ) ≡ _ [ZMOD order]
    rw [hval, Int.natCast_mod, Nat.cast_add, Nat.cast_sub hclt.le]
    refine (Int.mod_modEq _ _).trans ?_
    rw [add_sub_left_comm]
    exact Int.add_modEq_left

/-- The bytes that are stored. -/
theorem bytesLE_scalarS {k r h : List UInt8} (hlen : (schnorrQScalar k r h).length = 8) :
    bytesLE (fourQArm.scalarS k r h).cells = value (schnorrQScalar k r h) := by
  show bytesLE ((FixedBuf.fill 32 (0 : UInt8)).write 0 (writeDigits _)).cells = _
  rw [FixedBuf.cells_write_full (by rw [length_writeDigits, hlen]), bytesLE_writeDigits]

/-- The scalar half of a signature is exact: `r - k h` modulo the order, fully
reduced, from any bytes. -/
theorem scalarS_exact {k r h : List UInt8} (hk : 32 ≤ k.length) (hr : 32 ≤ r.length)
    (hh : 32 ≤ h.length) :
    (bytesLE (fourQArm.scalarS k r h).cells : ℤ) = (scalarOf r - scalarOf k * scalarOf h) % order := by
  obtain ⟨hlen, hlt, hmod⟩ := schnorrQScalar_spec hk hr hh
  have hreduced : (value (schnorrQScalar k r h) : ℤ) % order = value (schnorrQScalar k r h) :=
    Int.emod_eq_of_lt (Int.natCast_nonneg _) (Int.ofNat_lt.mpr hlt)
  rw [bytesLE_scalarS hlen, ← hreduced]
  exact hmod

/-- All bits set: the numbers are larger than the order. -/
theorem scalarS_exact_ones :
    (bytesLE (fourQArm.scalarS (List.replicate 64 0xFF) (List.replicate 64 0xFF)
        (List.replicate 64 0xFF)).cells : ℤ)
      = ((2 ^ 256 - 1 : ℤ) - (2 ^ 256 - 1) * (2 ^ 256 - 1)) % order := by
  have hall : scalarOf (List.replicate 64 0xFF) = 2 ^ 256 - 1 := by decide +kernel
  have h := scalarS_exact (k := List.replicate 64 0xFF) (r := List.replicate 64 0xFF)
    (h := List.replicate 64 0xFF) (by decide) (by decide) (by decide)
  rw [hall] at h
  exact h

/-! ## Keys -/

/-- The 64 bytes that both functions hash the secret key to. -/
def signingKey (secretKey : List UInt8) : List UInt8 := kangarooTwelve secretKey 64

theorem length_signingKey (secretKey : List UInt8) : (signingKey secretKey).length = 64 :=
  length_kangarooTwelve _ (by decide)

/-- A shorter output is the start of a longer one. -/
theorem kangarooTwelve_take (input : List UInt8) {m n : Nat} (h : m ≤ n) :
    (kangarooTwelve input n).take m = kangarooTwelve input m := by
  unfold kangarooTwelve
  rw [List.take_take, Nat.min_eq_left h]

/-- The generated key is the multiple that the first half of the hash selects. -/
theorem schnorrQKeyGeneration_eq (secretKey : List UInt8) :
    schnorrQKeyGeneration fourQArm secretKey = eccMulFixedEncode (signingKey secretKey) := by
  show eccMulFixedEncode (kangarooTwelve secretKey 32) = _
  unfold eccMulFixedEncode scalarDigits signingKey
  rw [kangarooTwelve_take secretKey (by decide : 32 ≤ 64),
    List.take_of_length_le (Nat.le_of_eq (length_kangarooTwelve _ (by decide)))]

/-- The point behind an encoded multiple. -/
def multipleOf (k : List UInt8) : fourQCurve.Point :=
  (scalarOf k + scalarDrift (scalarDigits k)) • generator

theorem bytesLE_eccMulFixedEncode {k : List UInt8} (hk : 32 ≤ k.length) :
    bytesLE (eccMulFixedEncode k).cells = pointCode (multipleOf k) := by
  obtain ⟨hlen, hval⟩ := scalarDigits_spec hk
  have hmul := eccMulFixed_value hlen
  rw [hval] at hmul
  exact bytesLE_encode hmul

/-- No multiple of the generator has the second coordinate zero: its order would
divide four, and the group has odd prime order. -/
theorem zsmul_generator_y_ne_zero (n : ℤ) : (n • generator).y ≠ 0 := by
  intro h
  have hfour : (4 * n) • generator = 0 := by
    rw [show 4 * n = n + n + (n + n) by ring, add_zsmul, add_zsmul]
    exact Lib.EdwardsCurve.Point.double_double_of_y_eq_zero h
  have hcoprime : IsCoprime (order : ℤ) 4 := by
    rw [show (4 : ℤ) = ((2 ^ 2 : Nat) : ℤ) from rfl]
    exact Nat.isCoprime_iff_coprime.mpr (coprime_order 2)
  have hzero : n • generator = 0 :=
    zsmul_generator_eq_zero_iff.mpr (hcoprime.dvd_of_dvd_mul_left
      (zsmul_generator_eq_zero_iff.mp hfour))
  rw [hzero] at h
  exact one_ne_zero h

/-- So no encoded multiple is all zeros, which the parser refuses as a key. -/
theorem eccMulFixedEncode_ne_zero {k : List UInt8} (hk : 32 ≤ k.length) :
    eccMulFixedEncode k ≠ .fill _ 0 := by
  intro h
  have hcode := bytesLE_eccMulFixedEncode hk
  rw [h, show bytesLE (FixedBuf.fill 32 (0 : UInt8)).cells = 0 by decide] at hcode
  have hy : (multipleOf k).y = 0 := by
    unfold pointCode at hcode
    refine QuadraticAlgebra.ext ((ZMod.val_eq_zero _).mp ?_) ((ZMod.val_eq_zero _).mp ?_)
    · omega
    · omega
  exact zsmul_generator_y_ne_zero _ hy

/-- A generated key is never all zeros. -/
theorem schnorrQKeyGeneration_ne_zero (secretKey : List UInt8) :
    schnorrQKeyGeneration fourQArm secretKey ≠ .fill _ 0 := by
  rw [schnorrQKeyGeneration_eq]
  apply eccMulFixedEncode_ne_zero
  rw [length_signingKey]
  decide

/-- A generated key is decoded to the multiple it encodes. -/
theorem decode_schnorrQKeyGeneration (secretKey : List UInt8) :
    ∃ P, decode (schnorrQKeyGeneration fourQArm secretKey) = some P ∧
      Decoded (schnorrQKeyGeneration fourQArm secretKey) P (multipleOf (signingKey secretKey)) := by
  apply decode_of_code
  rw [schnorrQKeyGeneration_eq]
  exact bytesLE_eccMulFixedEncode (by rw [length_signingKey]; decide)

/-! ## Signatures -/

/-- `r` in `SchnorrQ_Sign`, for a 32-byte message. -/
def nonceOf (secretKey message : List UInt8) : List UInt8 :=
  kangarooTwelve ((signingKey secretKey).drop 32 ++ message) 64

/-- `h`. -/
def challengeOf (encodedR publicKey message : List UInt8) : List UInt8 :=
  kangarooTwelve (encodedR ++ publicKey ++ message) 64

/-- `temp` before the nonce is hashed, and before the challenge is. -/
theorem temp_cells {a b message : List UInt8} (ha : a.length = 32) (hm : message.length = 32)
    {R : FixedBuf UInt8 32} (hb : b.length = 32) :
    let temp := ((FixedBuf.fill 96 (0 : UInt8)).write 32 a).write 64 message
    temp.cells.drop 32 = a ++ message ∧
    ((temp.write 0 R.cells).write 32 b).cells = R.cells ++ b ++ message := by
  intro temp
  have hR := R.size_eq
  have htemp : temp.cells = List.replicate 32 0 ++ a ++ message := by
    rw [FixedBuf.cells_write (by rw [hm]), FixedBuf.cells_write (by rw [ha]; decide),
      FixedBuf.cells_fill, ha, hm]
    simp [ha]
  refine ⟨?_, ?_⟩
  · rw [htemp, List.append_assoc]
    exact List.drop_left' (List.length_replicate)
  · have hwrite : (temp.write 0 R.cells).cells = R.cells ++ (a ++ message) := by
      rw [FixedBuf.cells_write (by rw [hR]; decide), htemp, hR, List.take_zero, List.nil_append,
        List.append_assoc, Nat.zero_add, List.drop_left' List.length_replicate]
    rw [FixedBuf.cells_write (by rw [hb]; decide), hwrite, hb, List.take_left' hR,
      ← List.append_assoc, List.drop_left' (by rw [List.length_append, hR, ha])]

/-- The bytes of a signature of a 32-byte message. -/
theorem schnorrQSign_cells (fourQ : FourQ) (secretKey : List UInt8)
    {publicKey message : List UInt8}
    (hpk : publicKey.length = 32) (hm : message.length = 32) :
    let encodedR := fourQ.mulFixedEncode (nonceOf secretKey message)
    ∃ signature, schnorrQSign fourQ secretKey publicKey message = some signature ∧
      signature.cells = encodedR.cells ++ (fourQ.scalarS (signingKey secretKey)
        (nonceOf secretKey message) (challengeOf encodedR.cells publicKey message)).cells := by
  intro encodedR
  have hR := encodedR.size_eq
  have hhalf : (((kangarooTwelve secretKey 64).drop 32).take 32).length = 32 := by
    rw [List.length_take, List.length_drop, length_kangarooTwelve _ (by decide)]
    rfl
  have hwhole : ((kangarooTwelve secretKey 64).drop 32).take 32 = (signingKey secretKey).drop 32 :=
    List.take_of_length_le (by rw [List.length_drop, length_kangarooTwelve _ (by decide)])
  obtain ⟨hnonce, -⟩ := temp_cells hhalf hm (R := encodedR) hpk
  obtain ⟨-, hchallenge⟩ := temp_cells hhalf hm (R := encodedR) hpk
  unfold schnorrQSign
  rw [if_neg (by omega)]
  refine ⟨_, rfl, ?_⟩
  rw [hnonce, hwhole]
  rw [hwhole] at hchallenge
  change (((FixedBuf.fill maxDerSigLen (0 : UInt8)).write 0 encodedR.cells).write 32
    (fourQ.scalarS (signingKey secretKey) (nonceOf secretKey message)
      (kangarooTwelve ((((((FixedBuf.fill 96 (0 : UInt8)).write 32 _).write 64 message).write 0
        encodedR.cells).write 32 publicKey).cells) 64)).cells).cells = _
  rw [hchallenge]
  unfold challengeOf
  generalize fourQ.scalarS _ _ _ = S
  have hS := S.size_eq
  rw [FixedBuf.cells_write (by rw [hS]), FixedBuf.cells_write (by rw [hR]; decide), hR, hS,
    FixedBuf.cells_fill, show maxDerSigLen = 64 from rfl]
  simp [hR]

/-- The signature verifies under the public key. -/
def Verifies (publicKey message signature : List UInt8) : Prop :=
  ∃ A R : fourQCurve.Point,
    bytesLE publicKey = pointCode A ∧ bytesLE (signature.take 32) = pointCode R ∧
    bytesLE (signature.drop 32) • generator
      + scalarOf (challengeOf (signature.take 32) publicKey message) • A = R

/-- The group equation behind a signature with scalar half `S`. -/
theorem signature_equation {S k r h : Nat} {δ ε : ℤ} (hS : (S : ℤ) ≡ r - k * h [ZMOD order]) :
    S • generator + h • ((k + δ) • generator) = (r + ε) • generator ↔
      (order : ℤ) ∣ h * δ - ε := by
  have hsum : S • generator + h • ((k + δ) • generator)
      = (r + ε) • generator + (h * δ - ε) • generator := by
    rw [← natCast_zsmul, ← natCast_zsmul, smul_smul, ← add_zsmul, ← add_zsmul]
    refine zsmul_generator_congr ?_
    have hmod := hS.add_right (h * (k + δ))
    rwa [show (r : ℤ) - k * h + h * (k + δ) = r + ε + (h * δ - ε) by ring] at hmod
  rw [hsum, add_eq_left, zsmul_generator_eq_zero_iff]

/-- Signing with a generated key, in full: the signature verifies exactly if the
drifts of the two recodings cancel modulo the order. -/
theorem schnorrQSign_verifies_iff (secretKey : List UInt8) {message : List UInt8}
    (hm : message.length = 32) :
    let publicKey := (schnorrQKeyGeneration fourQArm secretKey).cells
    ∃ signature, schnorrQSign fourQArm secretKey publicKey message = some signature ∧
      bytesLE (signature.cells.drop 32) < order ∧
      (Verifies publicKey message signature.cells ↔
        (order : ℤ) ∣ scalarOf (challengeOf (signature.cells.take 32) publicKey message)
            * scalarDrift (scalarDigits (signingKey secretKey))
          - scalarDrift (scalarDigits (nonceOf secretKey message))) := by
  intro publicKey
  have hpk : publicKey.length = 32 := FixedBuf.size_eq _
  obtain ⟨signature, hsign, hcells⟩ := schnorrQSign_cells fourQArm secretKey hpk hm
  refine ⟨signature, hsign, ?_⟩
  have hklen := length_signingKey secretKey
  have hrlen : (nonceOf secretKey message).length = 64 := length_kangarooTwelve _ (by decide)
  have hR := (eccMulFixedEncode (nonceOf secretKey message)).size_eq
  change signature.cells = (eccMulFixedEncode (nonceOf secretKey message)).cells
    ++ (fourQArm.scalarS (signingKey secretKey) (nonceOf secretKey message)
      (challengeOf (eccMulFixedEncode (nonceOf secretKey message)).cells publicKey message)).cells
    at hcells
  have htake : signature.cells.take 32 = (eccMulFixedEncode (nonceOf secretKey message)).cells := by
    rw [hcells]
    exact List.take_left' hR
  have hdrop := congrArg (List.drop 32) hcells
  rw [List.drop_left' hR] at hdrop
  rw [htake]
  generalize hchallenge : challengeOf (eccMulFixedEncode (nonceOf secretKey message)).cells publicKey
    message = h at *
  have hhlen : h.length = 64 := by
    rw [← hchallenge]
    exact length_kangarooTwelve _ (by decide)
  obtain ⟨hSlen, hSlt, hSmod⟩ := schnorrQScalar_spec (k := signingKey secretKey)
    (r := nonceOf secretKey message) (h := h) (by omega) (by omega) (by omega)
  have hS : bytesLE (signature.cells.drop 32)
      = value (schnorrQScalar (signingKey secretKey) (nonceOf secretKey message) h) := by
    rw [hdrop, bytesLE_scalarS hSlen]
  have hA : bytesLE publicKey = pointCode (multipleOf (signingKey secretKey)) := by
    show bytesLE (schnorrQKeyGeneration fourQArm secretKey).cells = _
    rw [schnorrQKeyGeneration_eq, bytesLE_eccMulFixedEncode (by omega)]
  have hRcode := bytesLE_eccMulFixedEncode (k := nonceOf secretKey message) (by omega)
  refine ⟨hS ▸ hSlt, ?_⟩
  rw [← signature_equation hSmod]
  unfold Verifies
  rw [htake, hchallenge, hS]
  refine ⟨?_, fun heq => ⟨_, _, hA, hRcode, heq⟩⟩
  rintro ⟨A, R, hA', hR', heq⟩
  rw [← pointCode_inj (hA.symm.trans hA'), ← pointCode_inj (hRcode.symm.trans hR')] at heq
  exact heq

/-! ## The form of a signature -/

/-- What `SchnorrQ_Verify` refuses before it decodes anything: bit 128 of the key or
of the signature, or a scalar of more than 246 bits. -/
def schnorrQVerifyRefuses (publicKey signature : List UInt8) : Bool :=
  publicKey.getD 15 0 &&& 0x80 != 0 || signature.getD 15 0 &&& 0x80 != 0
    || signature.getD 63 0 != 0 || signature.getD 62 0 &&& 0xC0 != 0

/-- An encoded point leaves the bit free. -/
theorem bit128_of_pointCode {bs : List UInt8} {Q : fourQCurve.Point}
    (h : bytesLE bs = pointCode Q) : bs.getD 15 0 &&& 0x80 = 0 := by
  have hlow : ∀ n < 128, n &&& 0x80 = 0 := by decide +kernel
  have hre := Fp.val_lt Q.y.re
  apply UInt8.toNat_inj.mp
  rw [UInt8.toNat_and]
  apply hlow
  rw [Lib.bytesLE_getD, h]
  unfold pointCode
  omega

/-- What `SchnorrQ_Sign` makes with a generated key has the form that
`SchnorrQ_Verify` asks for. -/
theorem schnorrQSign_not_refused (secretKey : List UInt8) {message : List UInt8}
    (hm : message.length = 32) :
    ∃ signature, schnorrQSign fourQArm secretKey
        (schnorrQKeyGeneration fourQArm secretKey).cells message = some signature ∧
      schnorrQVerifyRefuses (schnorrQKeyGeneration fourQArm secretKey).cells signature.cells
        = false := by
  generalize hpublic : schnorrQKeyGeneration fourQArm secretKey = publicKey
  have hsmall : ∀ n < 64, n &&& 0xC0 = 0 := by decide +kernel
  obtain ⟨signature, hsign, hreduced, -⟩ := schnorrQSign_verifies_iff secretKey hm
  rw [hpublic] at hsign
  obtain ⟨signature', hsign', hcells⟩ :=
    schnorrQSign_cells fourQArm secretKey publicKey.size_eq hm
  obtain rfl : signature = signature' := Option.some.inj (hsign.symm.trans hsign')
  have hkey : bytesLE publicKey.cells = pointCode (multipleOf (signingKey secretKey)) := by
    rw [← hpublic, schnorrQKeyGeneration_eq,
      bytesLE_eccMulFixedEncode (by rw [length_signingKey]; decide)]
  -- the first half is an encoded point too
  have hR := (eccMulFixedEncode (nonceOf secretKey message)).size_eq
  change signature.cells = (eccMulFixedEncode (nonceOf secretKey message)).cells ++ _ at hcells
  have hfirst : signature.cells.getD 15 0 &&& 0x80 = 0 := by
    rw [hcells, List.getD_append _ _ _ _ (by rw [hR]; decide)]
    exact bit128_of_pointCode (bytesLE_eccMulFixedEncode
      (by rw [nonceOf, length_kangarooTwelve _ (by decide)]; decide))
  -- the second half is below the order
  have hscalar : ∀ i, signature.cells.getD (32 + i) 0 = (signature.cells.drop 32).getD i 0 := by
    intro i
    rw [List.getD_eq_getElem?_getD, List.getD_eq_getElem?_getD, List.getElem?_drop]
  have horder : order < 2 ^ 246 := by decide
  have htop : signature.cells.getD (32 + 31) 0 = 0 := by
    apply UInt8.toNat_inj.mp
    rw [hscalar, Lib.bytesLE_getD, Nat.div_eq_of_lt (by omega)]
    rfl
  have hnext : signature.cells.getD (32 + 30) 0 &&& 0xC0 = 0 := by
    apply UInt8.toNat_inj.mp
    rw [UInt8.toNat_and]
    apply hsmall
    rw [hscalar, Lib.bytesLE_getD]
    omega
  refine ⟨signature, hsign, ?_⟩
  unfold schnorrQVerifyRefuses
  rw [bit128_of_pointCode hkey, hfirst, htop, hnext]
  rfl

/-- The message of 32 zeros, with the secret key of 32 zeros. -/
theorem schnorrQSign_not_refused_zeros :
    ∃ signature, schnorrQSign fourQArm (List.replicate 32 0)
        (schnorrQKeyGeneration fourQArm (List.replicate 32 0)).cells (List.replicate 32 0)
          = some signature ∧
      schnorrQVerifyRefuses (schnorrQKeyGeneration fourQArm (List.replicate 32 0)).cells
        signature.cells = false :=
  schnorrQSign_not_refused _ rfl

end QubicLedger
