import QubicLedger.K12
import QubicLedger.Sdk
import QubicLedger.Seed.KeyToSeed

/-!
# Keys and signatures

`get_subseed_from_seed` (`deps/crypto/key_utils.c`), `derive_qubic_keypair`
(`helper/qubic_keygen.c`) and the two functions of `deps/FourQ_ARM/schnorrq.c`
the app calls.

The hashing around the curve is modelled as it is written. What remains of the
curve itself are two functions (`FourQ`): the encoded multiple of the generator
that a 64-byte buffer selects, and the scalar half of a signature, which the
Montgomery arithmetic modulo the group order computes from three hash outputs.
Nothing is assumed of either.
-/

namespace QubicLedger

open Lib (FixedBuf OutMem bytesBE)

/-- The curve operations of `deps/FourQ_ARM`. -/
structure FourQ where
  /-- `ecc_mul_fixed(k, P); encode(P, ..)`. -/
  mulFixedEncode : List UInt8 → FixedBuf UInt8 32
  /-- `modulo_order` to `subtract_mod_order` in `SchnorrQ_Sign`: `S` from `k`, `r`, `h`. -/
  scalarS : List UInt8 → List UInt8 → List UInt8 → FixedBuf UInt8 32

/-- `qubic_keypair_t`. -/
structure QubicKeypair where
  publicKey : FixedBuf UInt8 addressLen
  subseed : FixedBuf UInt8 subseedLength
deriving DecidableEq

/-- `get_subseed_from_seed`: false, and nothing stored, on a byte outside `a..z`. -/
def getSubseedFromSeed (seed : List UInt8) (subseed : FixedBuf UInt8 subseedLength) :
    Bool × FixedBuf UInt8 subseedLength :=
  if seed.any (fun c => c < 97 || c > 122) then (false, subseed)
  else (true, subseed.write 0 (kangarooTwelve (seed.map (· - 97)) subseedLength))

/-- `SchnorrQ_KeyGeneration`. -/
def schnorrQKeyGeneration (fourQ : FourQ) (secretKey : List UInt8) : FixedBuf UInt8 addressLen :=
  fourQ.mulFixedEncode (kangarooTwelve secretKey 32)

/-- `SchnorrQ_Sign`: `none` is `ECCRYPTO_ERROR_INVALID_PARAMETER`. -/
def schnorrQSign (fourQ : FourQ) (secretKey publicKey message : List UInt8) :
    Option (FixedBuf UInt8 maxDerSigLen) :=
  if message.length > 32 then none
  else
    let k := kangarooTwelve secretKey 64
    let temp := (FixedBuf.fill 96 (0 : UInt8)).write 32 ((k.drop 32).take 32)
    let temp := temp.write 64 message
    let r := kangarooTwelve (temp.cells.drop 32) 64
    let encodedR := fourQ.mulFixedEncode r
    let temp := temp.write 0 encodedR.cells
    let temp := temp.write 32 publicKey
    let h := kangarooTwelve temp.cells 64
    let signature := (FixedBuf.fill maxDerSigLen (0 : UInt8)).write 0 encodedR.cells
    some (signature.write 32 (fourQ.scalarS k r h).cells)

/-- `derive_qubic_keypair` on the path array and length of the context; an
error is the code that is thrown. The results of `internal_key_to_seed` and
`get_subseed_from_seed` are not looked at, as in the source. -/
def deriveQubicKeypair (sdk : Sdk) (fourQ : FourQ) (path : FixedBuf UInt32 maxBip32Path)
    (pathLen : UInt8) : Except UInt32 QubicKeypair :=
  match sdk.bip32Derive path pathLen with
  | .error err => .error err
  | .ok rawPrivateKey =>
    let seed := (internalKeyToSeed rawPrivateKey.cells (OutMem.zeroed seedLength)).2.buf
    let subseed := (getSubseedFromSeed seed.cells (.fill _ 0)).2
    .ok { publicKey := schnorrQKeyGeneration fourQ subseed.cells, subseed := subseed }

/-- It fails exactly when the SDK's derivation does. -/
theorem deriveQubicKeypair_threw {sdk : Sdk} (fourQ : FourQ) {path : FixedBuf UInt32 maxBip32Path}
    {pathLen : UInt8} {err : UInt32} (h : sdk.bip32Derive path pathLen = .error err) :
    deriveQubicKeypair sdk fourQ path pathLen = .error err := by
  rw [deriveQubicKeypair, h]

theorem deriveQubicKeypair_ok {sdk : Sdk} (fourQ : FourQ) {path : FixedBuf UInt32 maxBip32Path}
    {pathLen : UInt8} {key : FixedBuf UInt8 32} (h : sdk.bip32Derive path pathLen = .ok key) :
    ∃ keypair, deriveQubicKeypair sdk fourQ path pathLen = .ok keypair := by
  unfold deriveQubicKeypair
  rw [h]
  exact ⟨_, rfl⟩

/-- The key pair that `derive_qubic_keypair` returns belongs together. -/
theorem deriveQubicKeypair_publicKey {sdk : Sdk} {fourQ : FourQ}
    {path : FixedBuf UInt32 maxBip32Path} {pathLen : UInt8} {keypair : QubicKeypair}
    (h : deriveQubicKeypair sdk fourQ path pathLen = .ok keypair) :
    keypair.publicKey = schnorrQKeyGeneration fourQ keypair.subseed.cells := by
  unfold deriveQubicKeypair at h
  cases hkey : sdk.bip32Derive path pathLen with
  | error err =>
    rw [hkey] at h
    cases h
  | ok key =>
    rw [hkey] at h
    cases h
    rfl

/-! ## The pipeline cannot fail -/

theorem letter_toNat {d : Nat} (h : d < 26) : (letter d).toNat = 97 + d := by
  unfold letter
  rw [UInt8.toNat_ofNat', Nat.mod_eq_of_lt (by omega)]

/-- A letter passes the range check of `get_subseed_from_seed`. -/
theorem letter_inRange {d : Nat} (h : d < 26) : ¬(letter d < 97 ∨ letter d > 122) := by
  have hn := letter_toNat h
  rintro (hlow | hhigh)
  · have hlt := UInt8.lt_iff_toNat_lt.mp hlow
    rw [hn, show (97 : UInt8).toNat = 97 from rfl] at hlt
    omega
  · have hlt := UInt8.lt_iff_toNat_lt.mp hhigh
    rw [hn, show (122 : UInt8).toNat = 122 from rfl] at hlt
    omega

theorem letters_inRange {digits : List Nat} (h : ∀ d ∈ digits, d < 26) :
    (digits.map letter).any (fun c => c < 97 || c > 122) = false := by
  refine Bool.eq_false_iff.mpr fun hany => ?_
  obtain ⟨c, hc, hout⟩ := List.any_eq_true.mp hany
  obtain ⟨d, hd, rfl⟩ := List.mem_map.mp hc
  rw [Bool.or_eq_true, decide_eq_true_iff, decide_eq_true_iff] at hout
  exact letter_inRange (h d hd) hout

/-- Letters only: the subseed is K12 of the letters minus `a`. -/
theorem getSubseedFromSeed_letters {digits : List Nat} (h : ∀ d ∈ digits, d < 26)
    (subseed : FixedBuf UInt8 subseedLength) :
    (getSubseedFromSeed (digits.map letter) subseed).1 = true ∧
    (getSubseedFromSeed (digits.map letter) subseed).2.cells
      = kangarooTwelve ((digits.map letter).map (· - 97)) subseedLength := by
  unfold getSubseedFromSeed
  rw [letters_inRange h, if_neg Bool.false_ne_true]
  exact ⟨rfl, FixedBuf.cells_write_full (length_kangarooTwelve _ (by decide))⟩

/-- For every private key both steps succeed, and `derive_qubic_keypair` goes on
with the intended subseed. -/
theorem deriveQubicKeypair_subseed (key : FixedBuf UInt8 32) :
    let letters := numeralLetters (bytesBE key.cells)
    let seed := List.replicate (55 - letters.length) paddingChar ++ letters
    let subseed := kangarooTwelve (seed.map (· - 97)) subseedLength
    (internalKeyToSeed key.cells (OutMem.zeroed seedLength)).1 = 0 ∧
    (internalKeyToSeed key.cells (OutMem.zeroed seedLength)).2.buf.cells = seed ∧
    (∀ held, (getSubseedFromSeed seed held).1 = true ∧
      (getSubseedFromSeed seed held).2.cells = subseed) ∧
    ∀ sdk fourQ path pathLen, sdk.bip32Derive path pathLen = .ok key →
      ∃ keypair, deriveQubicKeypair sdk fourQ path pathLen = .ok keypair ∧
        keypair.subseed.cells = subseed := by
  intro letters seed subseed
  have hsize : key.cells.length = 32 := key.size_eq
  have hspec := internalKeyToSeed_spec (Nat.lt_of_lt_of_eq (by decide : 0 < 32) hsize.symm)
    (Nat.le_of_eq hsize)
  have hseed : seedOf key = seed := by
    rw [seedOf_eq, ← length_numeralLetters]
  have hdigits : seed = (seedDigits key).map letter := by
    rw [← hseed, seedOf_eq_map_letter]
  have hsubseed : ∀ held, (getSubseedFromSeed seed held).1 = true ∧
      (getSubseedFromSeed seed held).2.cells = subseed := by
    intro held
    have h := getSubseedFromSeed_letters (seedDigits_lt key) held
    rw [← hdigits] at h
    exact h
  refine ⟨hspec.1, hseed, hsubseed, ?_⟩
  intro sdk fourQ path pathLen hkey
  refine ⟨_, by rw [deriveQubicKeypair, hkey], ?_⟩
  show (getSubseedFromSeed (seedOf key) (.fill _ 0)).2.cells = subseed
  rw [hseed]
  exact (hsubseed _).2

/-! ## Signing -/

/-- The app signs 32-byte digests only, which `SchnorrQ_Sign` never refuses. -/
theorem schnorrQSign_isSome (fourQ : FourQ) (secretKey publicKey : List UInt8)
    (digest : FixedBuf UInt8 transactionDigestLen) :
    (schnorrQSign fourQ secretKey publicKey digest.cells).isSome = true := by
  have hlen : ¬digest.cells.length > 32 := by
    rw [digest.size_eq]
    exact Nat.lt_irrefl 32
  unfold schnorrQSign
  rw [if_neg hlen]
  rfl

end QubicLedger
