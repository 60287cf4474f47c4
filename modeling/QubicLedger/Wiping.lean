import QubicLedger.Lib.Scratch
import QubicLedger.Seed.Encoder
import QubicLedger.Session.Prologue

/-!
# What key material is left behind

The functions between the private key and the signature once more, with the
local arrays the secret passes through: the raw key, the division buffer and
the letters of `encode_base26`, the seed, its digits and the subseed. Each
function is the one of the model with what it leaves in these arrays when it
returns (`…_erase`). Memory is followed up to the return of the function that
owns it; that a later call may reuse the same stack is not.

`derive_qubic_keypair` wipes its own two arrays and long division leaves zeros,
but `encode_base26` returns with the letters in `result` and
`get_subseed_from_seed` with the digits in `seedBytes`, neither of which can be
all zero for any key (`deriveQubicKeypairOn_left`). So a return that has derived
a key leaves key material behind, whichever return it is
(`returnsWiped_iff`).
-/

namespace QubicLedger

open Lib (FixedBuf OutMem Local numeral bytesBE)

/-! ## The local arrays -/

/-- The arrays of `encode_base26`. -/
structure EncodeLocals where
  temporaryWorkingBuffer : Local workingBufferSize
  result : Local maxResultLength

/-- The arrays of `derive_qubic_keypair` and of what it calls. -/
structure KeygenLocals where
  rawPrivateKey : Local 32
  seed : Local seedLength
  encode : EncodeLocals
  seedBytes : Local seedLength

/-- `qubic_keypair_t qubic_keypair`, a local of both callers; the public key is no secret. -/
structure KeypairLocal where
  publicKey : FixedBuf UInt8 addressLen
  subseed : Local subseedLength

/-- All arrays of a call that can come to hold key material. -/
structure Locals where
  keypair : KeypairLocal
  keygen : KeygenLocals

/-- Every array meets `P`. -/
structure Locals.All (P : ∀ n, Local n → Prop) (l : Locals) : Prop where
  subseed : P _ l.keypair.subseed
  rawPrivateKey : P _ l.keygen.rawPrivateKey
  seed : P _ l.keygen.seed
  temporaryWorkingBuffer : P _ l.keygen.encode.temporaryWorkingBuffer
  result : P _ l.keygen.encode.result
  seedBytes : P _ l.keygen.seedBytes

/-- No array has held a secret yet; their contents may be anything. -/
def Locals.Fresh (l : Locals) : Prop := l.All fun _ b => b.held = false

/-- Every array that has held a secret is all zero. -/
def Locals.Wiped (l : Locals) : Prop := l.All fun _ b => b.Clean

theorem Locals.Fresh.wiped {l : Locals} (h : l.Fresh) : l.Wiped :=
  ⟨Local.clean_of_not_held h.subseed, Local.clean_of_not_held h.rawPrivateKey,
    Local.clean_of_not_held h.seed, Local.clean_of_not_held h.temporaryWorkingBuffer,
    Local.clean_of_not_held h.result, Local.clean_of_not_held h.seedBytes⟩

/-! ## The functions with their arrays -/

/-- `encode_base26`: the loop runs on the two arrays. -/
def encodeBase26On {n : Nat} (l : EncodeLocals) (hexInput : List UInt8) (output : OutMem n)
    (outputSize : Nat) : (UInt8 × OutMem n) × EncodeLocals :=
  if outputSize > maxResultLength then ((1, output), l)
  else if hexInput.length > workingBufferSize then ((1, output), l)
  else if hexInput.length < 1 then ((1, output), l)
  else
    let result := l.result.bzero
    let temporaryWorkingBuffer := l.temporaryWorkingBuffer.store 0 hexInput
    let w := convert hexInput
    let l : EncodeLocals :=
      { temporaryWorkingBuffer := temporaryWorkingBuffer.store 0 w.buffer
        result := result.store 0 w.result.cells }
    let first := addSizeT w.resultIndex 1
    let convertedLength := subSizeT maxResultLength first
    if convertedLength > outputSize then ((7, output), l)
    else
      ((0, output.write 0 (strncpyBytes (l.result.buf.cells.drop first) convertedLength)), l)

/-- `internal_key_to_seed`; `pad_result_with_z` has no arrays. -/
def internalKeyToSeedOn {n : Nat} (l : EncodeLocals) (internalPrivateKey : List UInt8)
    (out : OutMem n) : (UInt8 × OutMem n) × EncodeLocals :=
  let r := encodeBase26On l internalPrivateKey out seedLength
  if r.1.1 ≠ 0 then r else ((0, padResultWithZ r.1.2 seedLength), r.2)

/-- The loop of `get_subseed_from_seed`. -/
def fillSeedBytes : Nat → List UInt8 → Local seedLength → Bool × Local seedLength
  | _, [], seedBytes => (true, seedBytes)
  | i, c :: rest, seedBytes =>
    if c < 97 || c > 122 then (false, seedBytes)
    else fillSeedBytes (i + 1) rest (seedBytes.store i [c - 97])

/-- `get_subseed_from_seed`: the result, `seedBytes` and `subseed`. -/
def getSubseedFromSeedOn (seedBytes : Local seedLength) (seed : List UInt8)
    (subseed : Local subseedLength) : Bool × Local seedLength × Local subseedLength :=
  let r := fillSeedBytes 0 seed seedBytes
  if r.1 then (true, r.2, subseed.store 0 (kangarooTwelve r.2.buf.cells subseedLength))
  else (false, r.2, subseed)

/-- `derive_qubic_keypair`: the key pair in the caller's array and what is left in the others. -/
def deriveQubicKeypairOn (sdk : Sdk) (fourQ : FourQ) (path : FixedBuf UInt32 maxBip32Path)
    (pathLen : UInt8) (l : Locals) : Except UInt32 Locals :=
  let rawPrivateKey := l.keygen.rawPrivateKey.bzero
  let seed := l.keygen.seed.bzero
  match sdk.bip32Derive path pathLen with
  | .error err => .error err
  | .ok key =>
    let rawPrivateKey := rawPrivateKey.store 0 key.cells
    let letters := internalKeyToSeedOn l.keygen.encode rawPrivateKey.buf.cells
      { buf := seed.buf, touched := [] }
    let seed := seed.store 0 letters.1.2.buf.cells
    let subseed := getSubseedFromSeedOn l.keygen.seedBytes seed.buf.cells l.keypair.subseed
    let seed := seed.bzero
    let publicKey := schnorrQKeyGeneration fourQ subseed.2.2.buf.cells
    .ok
      { keypair := { publicKey := publicKey, subseed := subseed.2.2 }
        keygen :=
          { rawPrivateKey := rawPrivateKey.bzero
            seed := seed.bzero
            encode := letters.2
            seedBytes := subseed.2.1 } }

/-- `qubic_keypair_t qubic_keypair = {0}`, and the two calls of `explicit_bzero` on it. -/
def Locals.bzeroKeypair (l : Locals) : Locals :=
  { l with keypair := { publicKey := .fill _ 0, subseed := l.keypair.subseed.bzero } }

/-- `crypto_sign_message`. -/
def cryptoSignMessageOn (dev : Device) (settings : AppSettings) (ctx : GlobalCtx) (l : Locals) :
    (SignResult × GlobalCtx × List Action) × Locals :=
  let l := l.bzeroKeypair
  let derived := Action.derive ctx.bip32Path ctx.bip32PathLen
  match deriveQubicKeypairOn dev.sdk dev.fourQ ctx.bip32Path ctx.bip32PathLen l with
  | .error err => ((.threw err, ctx, [derived, .throw err]), l)
  | .ok l =>
    let publicKey := l.keypair.publicKey
    let subseed := l.keypair.subseed.buf
    if settings.allowBlindSign ≠ blindSignEnabled ∧
        publicKey ≠ ctx.txInfo.transactionQubic.sourcePublicKey then
      ((.failed, ctx, [derived]), l)
    else
      let sign := Action.sign subseed.cells publicKey.cells ctx.txInfo.mHash.cells
      match schnorrQSign dev.fourQ subseed.cells publicKey.cells ctx.txInfo.mHash.cells with
      | none => ((.failed, ctx, [derived, sign]), l)
      | some signature =>
        ((.signed, { ctx with txInfo := { ctx.txInfo with
          signature := signature
          signatureLen := UInt8.ofNat maxDerSigLen } }, [derived, sign]), l.bzeroKeypair)

/-- `handler_get_public_key`. -/
def handlerGetPublicKeyOn (dev : Device) (app : App) (cdata : Buffer) (display : Bool)
    (l : Locals) : (App × List Action) × Locals :=
  let path := readPath dev.sdk (.reset .confirmAddress) cdata
  let ctx := path.2.1
  if ¬path.1 then (({ app with ctx := ctx }, [ioSendSw .wrongDataLength]), l)
  else
    let l := l.bzeroKeypair
    let derived := Action.derive ctx.bip32Path ctx.bip32PathLen
    match deriveQubicKeypairOn dev.sdk dev.fourQ ctx.bip32Path ctx.bip32PathLen l with
    | .error err => (({ app with ctx := ctx, exited := true }, [derived, .throw err]), l)
    | .ok l =>
      let app := { app with ctx := ctx.setRawPublicKey l.keypair.publicKey }
      let l := l.bzeroKeypair
      let answer := if display then uiDisplayAddress app else helperSendResponsePubkey app
      ((answer.1, derived :: answer.2), l)

/-! ## Nothing else has changed -/

section Erase

theorem encodeBase26On_erase {n : Nat} (l : EncodeLocals) (hexInput : List UInt8)
    (output : OutMem n) (outputSize : Nat) :
    (encodeBase26On l hexInput output outputSize).1 = encodeBase26 hexInput output outputSize := by
  have hresult : (l.result.bzero.store 0 (convert hexInput).result.cells).buf.cells
      = (convert hexInput).result.cells := FixedBuf.cells_write_full (FixedBuf.size_eq _)
  unfold encodeBase26On encodeBase26
  dsimp only
  rw [hresult]
  split_ifs <;> rfl

theorem internalKeyToSeedOn_erase {n : Nat} (l : EncodeLocals) (key : List UInt8)
    (out : OutMem n) : (internalKeyToSeedOn l key out).1 = internalKeyToSeed key out := by
  unfold internalKeyToSeedOn internalKeyToSeed
  dsimp only
  rw [← encodeBase26On_erase l key out seedLength]
  split_ifs <;> rfl

/-- The loop stores a run of letters as one string of digits. -/
theorem fillSeedBytes_eq : ∀ (rest : List UInt8) {i : Nat} {src : List UInt8}
    (b : Local seedLength), i = src.length → i + rest.length ≤ seedLength →
    rest.any (fun c => c < 97 || c > 122) = false →
    fillSeedBytes i rest (b.store 0 src) = (true, b.store 0 (src ++ rest.map (· - 97))) := by
  intro rest
  induction rest with
  | nil =>
    intro i src b _ _ _
    rw [fillSeedBytes, List.map_nil, List.append_nil]
  | cons c rest ih =>
    intro i src b hi hfit hany
    rw [List.length_cons] at hfit
    rw [List.any_cons, Bool.or_eq_false_iff] at hany
    have hstore : (b.store 0 src).store i [c - 97] = b.store 0 (src ++ [c - 97]) := by
      have hroom : 0 + src.length + [c - 97].length ≤ seedLength := by
        rw [List.length_singleton]
        omega
      have h := Local.store_append (b := b) hroom
      rwa [Nat.zero_add, ← hi] at h
    rw [fillSeedBytes, hany.1, if_neg Bool.false_ne_true, hstore,
      ih b (by rw [List.length_append, List.length_singleton, hi]) (by omega) hany.2,
      List.map_cons, List.append_assoc]
    rfl

theorem fillSeedBytes_bad : ∀ (seed : List UInt8) {i : Nat} (b : Local seedLength),
    seed.any (fun c => c < 97 || c > 122) = true → (fillSeedBytes i seed b).1 = false := by
  intro seed
  induction seed with
  | nil => intro i b h; exact absurd h (by simp)
  | cons c rest ih =>
    intro i b h
    rw [List.any_cons, Bool.or_eq_true] at h
    rw [fillSeedBytes]
    split
    · rfl
    next hc => exact ih _ (h.resolve_left hc)

/-- A seed of letters is turned into digits and hashed. -/
theorem getSubseedFromSeedOn_letters (seedBytes : Local seedLength) {seed : List UInt8}
    (subseed : Local subseedLength) (hlen : seed.length = seedLength)
    (hany : seed.any (fun c => c < 97 || c > 122) = false) :
    getSubseedFromSeedOn seedBytes seed subseed
      = (true, seedBytes.store 0 (seed.map (· - 97)),
          subseed.store 0 (kangarooTwelve (seed.map (· - 97)) subseedLength)) := by
  have hdigits : (seed.map (· - 97)).length = seedLength := by
    rw [List.length_map, hlen]
  have hfill : fillSeedBytes 0 seed seedBytes = (true, seedBytes.store 0 (seed.map (· - 97))) := by
    cases seed with
    | nil => exact absurd hlen (by simp)
    | cons c rest =>
      rw [List.any_cons, Bool.or_eq_false_iff] at hany
      rw [fillSeedBytes, hany.1, if_neg Bool.false_ne_true]
      exact fillSeedBytes_eq rest seedBytes rfl (Nat.le_of_eq (by rw [← hlen, List.length_cons,
        Nat.zero_add, Nat.add_comm])) hany.2
  unfold getSubseedFromSeedOn
  dsimp only
  rw [hfill, if_pos rfl, Local.buf_store, FixedBuf.cells_write_full hdigits]

theorem getSubseedFromSeedOn_erase (seedBytes : Local seedLength) {seed : List UInt8}
    (subseed : Local subseedLength) (hlen : seed.length = seedLength) :
    (getSubseedFromSeedOn seedBytes seed subseed).1 = (getSubseedFromSeed seed subseed.buf).1 ∧
    (getSubseedFromSeedOn seedBytes seed subseed).2.2.buf
      = (getSubseedFromSeed seed subseed.buf).2 := by
  unfold getSubseedFromSeed
  cases hany : seed.any (fun c => c < 97 || c > 122) with
  | true =>
    have hbad := fillSeedBytes_bad seed (i := 0) seedBytes hany
    unfold getSubseedFromSeedOn
    dsimp only
    rw [hbad, if_neg Bool.false_ne_true, if_pos rfl]
    exact ⟨rfl, rfl⟩
  | false =>
    rw [getSubseedFromSeedOn_letters seedBytes subseed hlen hany, if_neg Bool.false_ne_true]
    exact ⟨rfl, rfl⟩

/-- The key pair that comes back in the caller's array. -/
def KeypairLocal.value (k : KeypairLocal) : QubicKeypair :=
  { publicKey := k.publicKey, subseed := k.subseed.buf }

theorem deriveQubicKeypairOn_erase (sdk : Sdk) (fourQ : FourQ) (path : FixedBuf UInt32 maxBip32Path)
    (pathLen : UInt8) (l : Locals) :
    (deriveQubicKeypairOn sdk fourQ path pathLen l.bzeroKeypair).map (fun l => l.keypair.value)
      = deriveQubicKeypair sdk fourQ path pathLen := by
  unfold deriveQubicKeypairOn deriveQubicKeypair
  dsimp only
  cases sdk.bip32Derive path pathLen with
  | error err => rfl
  | ok key =>
    have hraw : (l.bzeroKeypair.keygen.rawPrivateKey.bzero.store 0 key.cells).buf.cells
        = key.cells := FixedBuf.cells_write_full key.size_eq
    dsimp only
    rw [hraw]
    rw [internalKeyToSeedOn_erase]
    generalize hseed : internalKeyToSeed key.cells _ = letters
    have hzeroed : internalKeyToSeed key.cells (OutMem.zeroed seedLength) = letters := hseed
    have hcopied : (l.bzeroKeypair.keygen.seed.bzero.store 0 letters.2.buf.cells).buf.cells
        = letters.2.buf.cells := FixedBuf.cells_write_full letters.2.buf.size_eq
    have hsubseed := (getSubseedFromSeedOn_erase l.bzeroKeypair.keygen.seedBytes
      l.bzeroKeypair.keypair.subseed letters.2.buf.size_eq).2
    rw [hcopied, hzeroed]
    refine congrArg Except.ok ?_
    unfold KeypairLocal.value
    dsimp only
    rw [hsubseed]
    rfl

theorem cryptoSignMessageOn_erase (dev : Device) (settings : AppSettings) (ctx : GlobalCtx)
    (l : Locals) :
    (cryptoSignMessageOn dev settings ctx l).1 = cryptoSignMessage dev settings ctx := by
  have hderive := deriveQubicKeypairOn_erase dev.sdk dev.fourQ ctx.bip32Path ctx.bip32PathLen l
  unfold cryptoSignMessageOn cryptoSignMessage
  dsimp only
  rw [← hderive]
  cases deriveQubicKeypairOn dev.sdk dev.fourQ ctx.bip32Path ctx.bip32PathLen l.bzeroKeypair with
  | error err => rfl
  | ok l =>
    dsimp only [Except.map, KeypairLocal.value]
    by_cases hstop : settings.allowBlindSign ≠ blindSignEnabled ∧
        l.keypair.publicKey ≠ ctx.txInfo.transactionQubic.sourcePublicKey
    · rw [if_pos hstop, if_pos hstop]
    · rw [if_neg hstop, if_neg hstop]
      cases schnorrQSign dev.fourQ l.keypair.subseed.buf.cells l.keypair.publicKey.cells
          ctx.txInfo.mHash.cells with
      | none => rfl
      | some signature => rfl

theorem handlerGetPublicKeyOn_erase (dev : Device) (app : App) (cdata : Buffer) (display : Bool)
    (l : Locals) :
    (handlerGetPublicKeyOn dev app cdata display l).1
      = handlerGetPublicKey dev app cdata display := by
  unfold handlerGetPublicKeyOn handlerGetPublicKey
  dsimp only
  split
  · rfl
  · rw [← deriveQubicKeypairOn_erase dev.sdk dev.fourQ _ _ l]
    cases deriveQubicKeypairOn dev.sdk dev.fourQ _ _ l.bzeroKeypair with
    | error err => rfl
    | ok l => rfl

end Erase

/-! ## What is left -/

/-- What `derive_qubic_keypair` and the functions it calls leave behind. -/
structure LeftBy (key : FixedBuf UInt8 32) (l : KeygenLocals) : Prop where
  rawPrivateKey : l.rawPrivateKey.buf = .fill _ 0
  seed : l.seed.buf = .fill _ 0
  temporaryWorkingBuffer : l.encode.temporaryWorkingBuffer.buf = .fill _ 0
  result : l.encode.result.held = true ∧
    l.encode.result.buf.cells
      = List.replicate (55 - (keyNumeral key).length) 0 ++ numeralLetters (bytesBE key.cells)
  seedBytes : l.seedBytes.held = true ∧
    l.seedBytes.buf.cells = (seedDigits key).map UInt8.ofNat

section Left

variable {key : FixedBuf UInt8 32}

/-- A seed has a digit that is not zero: padding, or the first digit of a full numeral. -/
theorem seedDigits_ne_zero (key : FixedBuf UInt8 32) : ∃ d ∈ seedDigits key, d ≠ 0 := by
  by_contra hzero
  have hall : ∀ d ∈ seedDigits key, d = 0 := fun d hd => not_not.mp fun h => hzero ⟨d, hd, h⟩
  have hpad : 55 ≤ (keyNumeral key).length := by
    by_contra hshort
    refine absurd (hall 25 ?_) (by omega)
    exact List.mem_append_left _ (List.mem_replicate.mpr ⟨by omega, rfl⟩)
  have hvalue : bytesBE key.cells = 0 := by
    rw [← Lib.valueBE_numeral 26 (bytesBE key.cells), Lib.valueBE_eq_zero_iff (by omega)]
    exact fun d hd => hall d (List.mem_append_right _ hd)
  rw [keyNumeral, hvalue] at hpad
  exact absurd hpad (by decide)

/-- The letters of the seed minus `a` are its digits. -/
theorem seedOf_sub (key : FixedBuf UInt8 32) :
    (seedOf key).map (· - 97) = (seedDigits key).map UInt8.ofNat := by
  rw [seedOf_eq_map_letter, List.map_map]
  refine List.map_congr_left fun d hd => UInt8.toNat_inj.mp ?_
  have hlt := seedDigits_lt key d hd
  have hle : (97 : UInt8) ≤ letter d := by
    rw [UInt8.le_iff_toNat_le, letter_toNat hlt]
    exact Nat.le_add_right 97 d
  show (letter d - 97).toNat = (UInt8.ofNat d).toNat
  rw [UInt8.toNat_sub_of_le _ _ hle, letter_toNat hlt, UInt8.toNat_ofNat',
    Nat.mod_eq_of_lt (by omega)]
  exact Nat.add_sub_cancel_left 97 d

theorem length_seedOf (key : FixedBuf UInt8 32) : (seedOf key).length = seedLength :=
  FixedBuf.size_eq _

/-- `encode_base26` leaves zeros in the division buffer and its letters in `result`. -/
theorem encodeBase26On_locals (l : EncodeLocals) {n : Nat} (output : OutMem n) :
    (encodeBase26On l key.cells output seedLength).2
      = { temporaryWorkingBuffer := { buf := .fill _ 0, held := true }
          result := { buf := (convert key.cells).result, held := true } } := by
  have hsize : key.cells.length = 32 := key.size_eq
  have hbuffer : (convert key.cells).buffer = List.replicate workingBufferSize 0 := by
    rw [convert_buffer, hsize]
  unfold encodeBase26On
  rw [if_neg (Nat.lt_irrefl 55), if_neg (by rw [hsize]; exact Nat.lt_irrefl 32),
    if_neg (by rw [hsize]; decide)]
  dsimp only
  rw [hbuffer, Local.store_zeros, Local.store_full]
  -- whether or not the letters fit
  split <;> rfl

theorem internalKeyToSeedOn_locals (l : EncodeLocals) {n : Nat} (out : OutMem n) :
    (internalKeyToSeedOn l key.cells out).2
      = (encodeBase26On l key.cells out seedLength).2 := by
  unfold internalKeyToSeedOn
  dsimp only
  split <;> rfl

/-- Every array after a key was derived, with the subseed in the caller's. -/
theorem deriveQubicKeypairOn_left {sdk : Sdk} (fourQ : FourQ) {path : FixedBuf UInt32 maxBip32Path}
    {pathLen : UInt8} (l : Locals) (hkey : sdk.bip32Derive path pathLen = .ok key) :
    ∃ l', deriveQubicKeypairOn sdk fourQ path pathLen l = .ok l' ∧ LeftBy key l'.keygen ∧
      l'.keypair.subseed.held = true := by
  have hany : (seedOf key).any (fun c => c < 97 || c > 122) = false := by
    rw [seedOf_eq_map_letter]
    exact letters_inRange (seedDigits_lt key)
  have hsubseed := getSubseedFromSeedOn_letters l.keygen.seedBytes l.keypair.subseed
    (length_seedOf key) hany
  have hletters : (internalKeyToSeedOn l.keygen.encode key.cells
      { buf := l.keygen.seed.bzero.buf, touched := [] }).1.2.buf.cells = seedOf key := by
    rw [internalKeyToSeedOn_erase]
    rfl
  unfold deriveQubicKeypairOn
  rw [hkey]
  dsimp only
  rw [Local.store_full l.keygen.rawPrivateKey.bzero, Local.store_full l.keygen.seed.bzero]
  dsimp only
  rw [hletters, hsubseed, internalKeyToSeedOn_locals, encodeBase26On_locals]
  refine ⟨_, rfl, ⟨rfl, rfl, rfl, ⟨rfl, ?_⟩, rfl, ?_⟩, rfl⟩
  · exact (convert_spec (Nat.le_of_eq key.size_eq)).1
  · rw [← seedOf_sub]
    exact FixedBuf.cells_write_full (by rw [List.length_map, length_seedOf])

/-- The letters in `result` are not zero. -/
theorem LeftBy.result_dirty {l : KeygenLocals} (h : LeftBy key l) : ¬l.encode.result.Clean := by
  have hletters : numeralLetters (bytesBE key.cells) ≠ [] := by
    refine List.ne_nil_of_length_pos ?_
    rw [length_numeralLetters]
    exact Lib.numeral_length_pos 26 _
  obtain ⟨c, hc⟩ := List.exists_mem_of_ne_nil _ hletters
  apply Local.not_clean_of_mem h.result.1 _ (numeralLetters_ne_zero _ c hc)
  rw [h.result.2]
  exact List.mem_append_right _ hc

/-- The digits in `seedBytes` are not all zero. -/
theorem LeftBy.seedBytes_dirty {l : KeygenLocals} (h : LeftBy key l) : ¬l.seedBytes.Clean := by
  obtain ⟨d, hd, hne⟩ := seedDigits_ne_zero key
  have hlt := seedDigits_lt key d hd
  have hbyte : UInt8.ofNat d ≠ 0 := by
    intro h0
    have hnat := congrArg UInt8.toNat h0
    rw [UInt8.toNat_ofNat', Nat.mod_eq_of_lt (by omega)] at hnat
    exact hne hnat
  apply Local.not_clean_of_mem h.seedBytes.1 _ hbyte
  rw [h.seedBytes.2]
  exact List.mem_map_of_mem hd

end Left

/-! ## The two callers -/

section Callers

variable (dev : Device) {key : FixedBuf UInt8 32} (l : Locals)

/-- `crypto_sign_message` adds nothing to what its callee left. -/
theorem cryptoSignMessageOn_left (settings : AppSettings) {ctx : GlobalCtx}
    (hkey : dev.sdk.bip32Derive ctx.bip32Path ctx.bip32PathLen = .ok key) :
    LeftBy key (cryptoSignMessageOn dev settings ctx l).2.keygen := by
  obtain ⟨l', hderived, hleft, -⟩ := deriveQubicKeypairOn_left dev.fourQ l.bzeroKeypair hkey
  unfold cryptoSignMessageOn
  dsimp only
  rw [hderived]
  dsimp only
  split
  · exact hleft
  · split
    · exact hleft
    · exact hleft

/-- It wipes the subseed when it has signed, and only then. -/
theorem cryptoSignMessageOn_subseed (settings : AppSettings) {ctx : GlobalCtx}
    {keypair : QubicKeypair}
    (hkeypair : deriveQubicKeypair dev.sdk dev.fourQ ctx.bip32Path ctx.bip32PathLen
      = .ok keypair) :
    ((cryptoSignMessage dev settings ctx).1 = .signed →
      (cryptoSignMessageOn dev settings ctx l).2.keypair.subseed.buf = .fill _ 0) ∧
    ((cryptoSignMessage dev settings ctx).1 ≠ .signed →
      (cryptoSignMessageOn dev settings ctx l).2.keypair.subseed.buf = keypair.subseed) := by
  have hderived : ∃ l', deriveQubicKeypairOn dev.sdk dev.fourQ ctx.bip32Path ctx.bip32PathLen
      l.bzeroKeypair = .ok l' ∧ l'.keypair.subseed.buf = keypair.subseed := by
    have herase := deriveQubicKeypairOn_erase dev.sdk dev.fourQ ctx.bip32Path ctx.bip32PathLen l
    rw [hkeypair] at herase
    cases h : deriveQubicKeypairOn dev.sdk dev.fourQ ctx.bip32Path ctx.bip32PathLen
        l.bzeroKeypair with
    | error err =>
      rw [h] at herase
      exact absurd herase (by simp [Except.map])
    | ok l' =>
      rw [h] at herase
      exact ⟨l', rfl, congrArg QubicKeypair.subseed (Except.ok.inj herase)⟩
  obtain ⟨l', hderived, hsubseed⟩ := hderived
  rw [← cryptoSignMessageOn_erase dev settings ctx l]
  unfold cryptoSignMessageOn
  dsimp only
  rw [hderived]
  dsimp only
  split
  · exact ⟨by simp, fun _ => hsubseed⟩
  · split
    · exact ⟨by simp, fun _ => hsubseed⟩
    · exact ⟨fun _ => rfl, by simp⟩

/-- A normal return of `crypto_sign_message`. -/
theorem cryptoSignMessage_returns (settings : AppSettings) {ctx : GlobalCtx}
    (hkey : dev.sdk.bip32Derive ctx.bip32Path ctx.bip32PathLen = .ok key) (err : UInt32) :
    (cryptoSignMessage dev settings ctx).1 ≠ .threw err := by
  obtain ⟨keypair, hkeypair⟩ := deriveQubicKeypair_ok dev.fourQ hkey
  unfold cryptoSignMessage
  dsimp only
  rw [hkeypair]
  dsimp only
  split
  · simp
  · split <;> simp

variable (app : App) {data : List UInt8} (display : Bool)

/-- A refused path is refused before anything secret is touched. -/
theorem handlerGetPublicKeyOn_refused (h : pathOf data = none) :
    (handlerGetPublicKeyOn dev app (.ofData data) display l).2 = l := by
  have hflag : (readPath dev.sdk (.reset .confirmAddress) (.ofData data)).1 = false := by
    by_cases hne : data = []
    · rw [hne]
      exact readPath_nil dev.sdk _
    · obtain ⟨p, hfail, -⟩ := readPath_refuse dev.sdk .confirmAddress hne h
      exact hfail
  unfold handlerGetPublicKeyOn
  dsimp only
  rw [if_pos (by rw [hflag]; exact Bool.false_ne_true)]

/-- After a derivation only the subseed has been wiped in addition. -/
theorem handlerGetPublicKeyOn_left {path : List UInt32} (hpath : pathOf data = some path)
    (hkey : dev.sdk.bip32Derive (storedPath path) (UInt8.ofNat path.length) = .ok key) :
    LeftBy key (handlerGetPublicKeyOn dev app (.ofData data) display l).2.keygen ∧
    (handlerGetPublicKeyOn dev app (.ofData data) display l).2.keypair.subseed.Clean := by
  obtain ⟨l', hderived, hleft, -⟩ := deriveQubicKeypairOn_left dev.fourQ l.bzeroKeypair hkey
  have hpathCtx : (GlobalCtx.openedAt .confirmAddress path).bip32Path = storedPath path := rfl
  have hlenCtx : (GlobalCtx.openedAt .confirmAddress path).bip32PathLen
      = UInt8.ofNat path.length := rfl
  unfold handlerGetPublicKeyOn
  rw [readPath_accept dev.sdk .confirmAddress hpath]
  dsimp only
  rw [if_neg (by simp), hpathCtx, hlenCtx, hderived]
  exact ⟨hleft, Local.clean_bzero _⟩

end Callers

/-! ## When everything is wiped -/

/-- If `crypto_sign_message` returns normally, no key material is left. -/
def SignReturnsWiped (dev : Device) (settings : AppSettings) (ctx : GlobalCtx) (l : Locals) :
    Prop :=
  (∀ err, (cryptoSignMessage dev settings ctx).1 ≠ .threw err) →
    (cryptoSignMessageOn dev settings ctx l).2.Wiped

/-- If `handler_get_public_key` returns normally, no key material is left. -/
def PubkeyReturnsWiped (dev : Device) (app : App) (data : List UInt8) (display : Bool)
    (l : Locals) : Prop :=
  (∀ err, Action.throw err ∉ (handlerGetPublicKey dev app (.ofData data) display).2) →
    (handlerGetPublicKeyOn dev app (.ofData data) display l).2.Wiped

section ReturnsWiped

variable (dev : Device) {l : Locals}

/-- Every normal return of `crypto_sign_message` has derived a key. -/
theorem signReturnsWiped_iff (settings : AppSettings) (ctx : GlobalCtx) :
    SignReturnsWiped dev settings ctx l ↔
      ∃ err, dev.sdk.bip32Derive ctx.bip32Path ctx.bip32PathLen = .error err := by
  cases hkey : dev.sdk.bip32Derive ctx.bip32Path ctx.bip32PathLen with
  | error err =>
    refine iff_of_true (fun hreturns => absurd ?_ (hreturns err)) ⟨err, rfl⟩
    unfold cryptoSignMessage
    dsimp only
    rw [deriveQubicKeypair_threw dev.fourQ hkey]
  | ok key =>
    refine iff_of_false (fun hwiped => ?_) (by simp)
    have hall := hwiped (cryptoSignMessage_returns dev settings hkey)
    exact (cryptoSignMessageOn_left dev l settings hkey).result_dirty hall.result

/-- `handler_get_public_key` answers a carried path after a derivation. -/
theorem handlerGetPublicKey_returns (app : App) {data : List UInt8} (display : Bool)
    {path : List UInt32} (hpath : pathOf data = some path) {key : FixedBuf UInt8 32}
    (hkey : dev.sdk.bip32Derive (storedPath path) (UInt8.ofNat path.length) = .ok key)
    (err : UInt32) :
    Action.throw err ∉ (handlerGetPublicKey dev app (.ofData data) display).2 := by
  obtain ⟨keypair, hkeypair⟩ := deriveQubicKeypair_ok dev.fourQ hkey
  rw [handlerGetPublicKey_derived dev app display hpath hkeypair]
  cases display with
  | true => simp
  | false => simp

/-- A path that is carried in full is derived, any other refused before. -/
theorem pubkeyReturnsWiped_iff (hfresh : l.Fresh) (app : App) (data : List UInt8)
    (display : Bool) :
    PubkeyReturnsWiped dev app data display l ↔
      ∀ path, pathOf data = some path →
        ∃ err, dev.sdk.bip32Derive (storedPath path) (UInt8.ofNat path.length) = .error err := by
  cases hpath : pathOf data with
  | none =>
    refine iff_of_true (fun _ => ?_) (by simp)
    rw [handlerGetPublicKeyOn_refused dev l app display hpath]
    exact hfresh.wiped
  | some path =>
    cases hkey : dev.sdk.bip32Derive (storedPath path) (UInt8.ofNat path.length) with
    | error err =>
      refine iff_of_true (fun hreturns => absurd ?_ (hreturns err)) ?_
      · rw [handlerGetPublicKey_threw dev app display hpath (deriveQubicKeypair_threw _ hkey)]
        simp
      · intro path' hsame
        obtain rfl := Option.some.inj hsame
        exact ⟨err, hkey⟩
    | ok key =>
      refine iff_of_false (fun hwiped => ?_) (fun hthrows => ?_)
      · have hall := hwiped (handlerGetPublicKey_returns dev app display hpath hkey)
        exact (handlerGetPublicKeyOn_left dev l app display hpath hkey).1.result_dirty hall.result
      · obtain ⟨err, herr⟩ := hthrows path rfl
        rw [hkey] at herr
        exact absurd herr (by simp)

/-- No return that has derived a key leaves everything wiped; the others do. -/
theorem returnsWiped_iff (hfresh : l.Fresh) :
    (∀ settings ctx, SignReturnsWiped dev settings ctx l ↔
      ∃ err, dev.sdk.bip32Derive ctx.bip32Path ctx.bip32PathLen = .error err) ∧
    ∀ app data display, PubkeyReturnsWiped dev app data display l ↔
      ∀ path, pathOf data = some path →
        ∃ err, dev.sdk.bip32Derive (storedPath path) (UInt8.ofNat path.length) = .error err :=
  ⟨signReturnsWiped_iff dev, pubkeyReturnsWiped_iff dev hfresh⟩

end ReturnsWiped

/-- A call on a zeroed stack. -/
def zeroedLocals : Locals :=
  { keypair := { publicKey := .fill _ 0, subseed := ⟨.fill _ 0, false⟩ }
    keygen :=
      { rawPrivateKey := ⟨.fill _ 0, false⟩
        seed := ⟨.fill _ 0, false⟩
        encode :=
          { temporaryWorkingBuffer := ⟨.fill _ 0, false⟩
            result := ⟨.fill _ 0, false⟩ }
        seedBytes := ⟨.fill _ 0, false⟩ } }

theorem zeroedLocals_fresh : zeroedLocals.Fresh := ⟨rfl, rfl, rfl, rfl, rfl, rfl⟩

theorem returnsWiped_iff_sample :
    ¬SignReturnsWiped (sampleDevice .nbgl) InternalStorage.default.settings .zero zeroedLocals ∧
    PubkeyReturnsWiped (sampleDevice .nbgl) (appMain .default) [1] false zeroedLocals := by
  obtain ⟨hsign, hpubkey⟩ := returnsWiped_iff (sampleDevice .nbgl) zeroedLocals_fresh
  constructor
  · intro hwiped
    obtain ⟨err, herr⟩ := (hsign _ _).mp hwiped
    exact absurd (show Except.ok samplePrivateKey = .error err from herr) (by simp)
  · refine (hpubkey _ _ _).mpr fun path hpath => ?_
    exact absurd (show none = some path from hpath) (by simp)

/-- Signing with the sample key leaves its letters in `result`. -/
theorem not_signReturnsWiped :
    ¬∀ (dev : Device) (settings : AppSettings) (ctx : GlobalCtx) (l : Locals), l.Fresh →
      SignReturnsWiped dev settings ctx l := by
  intro h
  have hkey : (sampleDevice .nbgl).sdk.bip32Derive GlobalCtx.zero.bip32Path
      GlobalCtx.zero.bip32PathLen = .ok samplePrivateKey := rfl
  have hwiped := h (sampleDevice .nbgl) InternalStorage.default.settings .zero zeroedLocals
    zeroedLocals_fresh (cryptoSignMessage_returns _ _ hkey)
  exact (cryptoSignMessageOn_left _ _ _ hkey).result_dirty hwiped.result

end QubicLedger
