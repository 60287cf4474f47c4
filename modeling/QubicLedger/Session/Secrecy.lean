import QubicLedger.Session.Split
import QubicLedger.Lib.Refinement

/-!
# What the app gives away of its keys

The derived private keys, seeds and subseeds of a device reach the outside only
through the public keys and the signatures made of them. `SameOutside` says of
two devices that they agree in these and in everything that has nothing to do
with keys; `secrets_unseen` that no sequence of commands, decisions and settings
then tells them apart: the host gets the same answers, the screen shows the same,
and what is left in the app's memory is the same.
-/

namespace QubicLedger

open Lib (FixedBuf)

/-- What host and user see of an action. -/
def Action.seen : Action → Option Action
  | .respond rdata sw => some (.respond rdata sw)
  | .review r => some (.review r)
  | .status page => some (.status page)
  | .throw err => some (.throw err)
  | .append _ _ _ => none
  | .derive _ _ => none
  | .sign _ _ _ => none

/-- What is public about the key behind a path: the error that is thrown, or the
public key and the signatures. -/
def publicSide (dev : Device) (path : FixedBuf UInt32 maxBip32Path) (pathLen : UInt8) :
    Except UInt32 (FixedBuf UInt8 addressLen ×
      (FixedBuf UInt8 transactionDigestLen → FixedBuf UInt8 maxDerSigLen)) :=
  (deriveQubicKeypair dev.sdk dev.fourQ path pathLen).map fun keypair =>
    (keypair.publicKey, signatureOf dev.fourQ keypair)

/-- Two devices that differ at most in their secrets. -/
structure SameOutside (dev dev' : Device) : Prop where
  build : dev.build = dev'.build
  readU8 : dev.sdk.bufferReadU8 = dev'.sdk.bufferReadU8
  readPath : dev.sdk.bufferReadBip32Path = dev'.sdk.bufferReadBip32Path
  move : dev.sdk.bufferMove = dev'.sdk.bufferMove
  keys : ∀ path pathLen, publicSide dev path pathLen = publicSide dev' path pathLen

section Step

variable {dev dev' : Device} (h : SameOutside dev dev') (app : App)

include h

/-- The keys behind a path, side by side. -/
theorem SameOutside.derive_cases (path : FixedBuf UInt32 maxBip32Path) (pathLen : UInt8) :
    (∃ err, deriveQubicKeypair dev.sdk dev.fourQ path pathLen = .error err ∧
      deriveQubicKeypair dev'.sdk dev'.fourQ path pathLen = .error err) ∨
    ∃ keypair keypair', deriveQubicKeypair dev.sdk dev.fourQ path pathLen = .ok keypair ∧
      deriveQubicKeypair dev'.sdk dev'.fourQ path pathLen = .ok keypair' ∧
      keypair.publicKey = keypair'.publicKey ∧
      signatureOf dev.fourQ keypair = signatureOf dev'.fourQ keypair' := by
  have hkeys := h.keys path pathLen
  unfold publicSide at hkeys
  cases hkey : deriveQubicKeypair dev.sdk dev.fourQ path pathLen with
  | error err =>
    cases hkey' : deriveQubicKeypair dev'.sdk dev'.fourQ path pathLen with
    | error err' =>
      rw [hkey, hkey'] at hkeys
      injection hkeys with herr
      exact Or.inl ⟨err, rfl, congrArg _ herr.symm⟩
    | ok keypair' =>
      rw [hkey, hkey'] at hkeys
      cases hkeys
  | ok keypair =>
    cases hkey' : deriveQubicKeypair dev'.sdk dev'.fourQ path pathLen with
    | error err' =>
      rw [hkey, hkey'] at hkeys
      cases hkeys
    | ok keypair' =>
      rw [hkey, hkey'] at hkeys
      injection hkeys with hpair
      injection hpair with hpublic hsign
      exact Or.inr ⟨keypair, keypair', rfl, rfl, hpublic, hsign⟩

theorem SameOutside.readPath_eq (ctx : GlobalCtx) (cdata : Buffer) :
    QubicLedger.readPath dev.sdk ctx cdata = QubicLedger.readPath dev'.sdk ctx cdata := by
  unfold QubicLedger.readPath
  rw [h.readU8, h.readPath]

/-- GET_PUBLIC_KEY is the same on both. -/
theorem SameOutside.handlerGetPublicKey (cdata : Buffer) (display : Bool) :
    QubicLedger.handlerGetPublicKey dev app cdata display
      = QubicLedger.handlerGetPublicKey dev' app cdata display := by
  unfold QubicLedger.handlerGetPublicKey
  rw [h.readPath_eq]
  dsimp only
  rcases h.derive_cases (QubicLedger.readPath dev'.sdk (.reset .confirmAddress) cdata).2.1.bip32Path
      (QubicLedger.readPath dev'.sdk (.reset .confirmAddress) cdata).2.1.bip32PathLen with
    ⟨err, hkey, hkey'⟩ | ⟨keypair, keypair', hkey, hkey', hpublic, -⟩
  · rw [hkey, hkey']
  · rw [hkey, hkey']
    dsimp only
    rw [hpublic]

/-- So is SIGN_TX, which derives nothing. -/
theorem SameOutside.handlerSignTx (cdata : Buffer) (chunk : UInt8) (more : Bool) :
    QubicLedger.handlerSignTx dev app cdata chunk more
      = QubicLedger.handlerSignTx dev' app cdata chunk more := by
  have hfinish : ∀ app, signTxFinish dev app = signTxFinish dev' app := by
    intro app
    unfold signTxFinish
    simp only [uiDisplayTransaction_eq, uiDisplayBlindSignedTransaction_eq, h.build]
  have happend : ∀ app cdata more, signTxAppend dev app cdata more
      = signTxAppend dev' app cdata more := by
    intro app cdata more
    unfold signTxAppend
    simp only [h.move, hfinish]
  unfold QubicLedger.handlerSignTx
  rw [h.readPath_eq]
  simp only [happend]

theorem SameOutside.apduDispatcher (cmd : Command) :
    QubicLedger.apduDispatcher dev app cmd = QubicLedger.apduDispatcher dev' app cmd := by
  unfold QubicLedger.apduDispatcher
  simp only [h.handlerGetPublicKey, h.handlerSignTx]

/-- An approval leaves the same and looks the same; the calls of `SchnorrQ_Sign`
differ in the subseed. -/
theorem SameOutside.validateTransaction (confirm : Bool) :
    (QubicLedger.validateTransaction dev app confirm).1
      = (QubicLedger.validateTransaction dev' app confirm).1 ∧
    (QubicLedger.validateTransaction dev app confirm).2.filterMap Action.seen
      = (QubicLedger.validateTransaction dev' app confirm).2.filterMap Action.seen := by
  cases confirm with
  | false => exact ⟨rfl, rfl⟩
  | true =>
    rcases h.derive_cases app.ctx.bip32Path app.ctx.bip32PathLen with
      ⟨err, hkey, hkey'⟩ | ⟨keypair, keypair', hkey, hkey', hpublic, hsign⟩
    · rw [validateTransaction_threw dev app hkey, validateTransaction_threw dev' app hkey']
      exact ⟨rfl, rfl⟩
    · by_cases hpass : app.storage.settings.allowBlindSign = blindSignEnabled ∨
          keypair.publicKey = app.ctx.txInfo.transactionQubic.sourcePublicKey
      · rw [validateTransaction_signed dev app hkey hpass,
          validateTransaction_signed dev' app hkey' (hpublic ▸ hpass), hsign]
        exact ⟨rfl, rfl⟩
      · have hpass' := hpass
        rw [hpublic] at hpass'
        rw [validateTransaction_mismatch dev app hkey (fun hon => hpass (Or.inl hon))
            (fun heq => hpass (Or.inr heq)),
          validateTransaction_mismatch dev' app hkey' (fun hon => hpass' (Or.inl hon))
            (fun heq => hpass' (Or.inr heq))]
        exact ⟨rfl, rfl⟩

theorem SameOutside.reviewChoice (kind : ReviewKind) (confirm : Bool) :
    (QubicLedger.reviewChoice dev app kind confirm).1
      = (QubicLedger.reviewChoice dev' app kind confirm).1 ∧
    (QubicLedger.reviewChoice dev app kind confirm).2.filterMap Action.seen
      = (QubicLedger.reviewChoice dev' app kind confirm).2.filterMap Action.seen := by
  obtain ⟨hstate, hacts⟩ := h.validateTransaction app confirm
  unfold QubicLedger.reviewChoice
  cases kind with
  | address =>
    rw [h.build]
    exact ⟨rfl, rfl⟩
  | clear | blind =>
    dsimp only
    rw [hstate]
    split
    · exact ⟨hstate, hacts⟩
    · rw [List.filterMap_append, List.filterMap_append, hacts, h.build]
      exact ⟨rfl, rfl⟩

end Step

/-- Two such devices, in the same state, do the same as far as one can see. -/
theorem SameOutside.indistinguishable {dev dev' : Device} (h : SameOutside dev dev') :
    Lib.Machine.Indistinguishable (machine dev) (machine dev') Eq (fun _ => True) Action.seen
      Action.seen := by
  rintro s s' e - rfl
  rw [machine_step, machine_step]
  unfold step
  split
  · exact ⟨rfl, rfl⟩
  cases e with
  | apdu cmd =>
    dsimp only
    rw [h.apduDispatcher]
    exact ⟨rfl, rfl⟩
  | badApdu => exact ⟨rfl, rfl⟩
  | decide confirm =>
    dsimp only
    split
    · exact ⟨rfl, rfl⟩
    · exact h.reviewChoice _ _ confirm
  | setting x on =>
    dsimp only
    rw [h.build]
    split
    · exact ⟨rfl, rfl⟩
    · exact ⟨rfl, rfl⟩

/-- Whatever happens to two such devices, from the same storage: what is seen of
them and what is left in them is the same. -/
theorem secrets_unseen {dev dev' : Device} (h : SameOutside dev dev') (persisted : InternalStorage)
    (events : List Event) :
    let out := (machine dev).exec (appMain persisted) [] events
    let out' := (machine dev').exec (appMain persisted) [] events
    out.1 = out'.1 ∧
      Lib.Machine.observed Action.seen out.2 = Lib.Machine.observed Action.seen out'.2 :=
  h.indistinguishable.exec (fun _ _ => trivial) rfl rfl

/-- The sample device with another private key; its curve does not tell keys apart. -/
def otherDevice (key : FixedBuf UInt8 32) : Device :=
  { sampleDevice .nbgl with sdk := .reference fun _ _ => .ok key }

theorem sameOutside_otherDevice (key : FixedBuf UInt8 32) :
    SameOutside (sampleDevice .nbgl) (otherDevice key) := by
  refine ⟨rfl, rfl, rfl, rfl, fun path pathLen => ?_⟩
  have hlen : ∀ bs n, n ≤ 200 → (kangarooTwelve bs n).length = n :=
    fun _ _ => length_kangarooTwelve _
  -- the points of the sample curve depend on the length of the scalar alone
  have hpublic : ∀ subseed, schnorrQKeyGeneration (sampleDevice .nbgl).fourQ subseed
      = samplePublicKey := fun subseed => if_pos (hlen _ _ (by decide))
  have hsign : ∀ keypair keypair' : QubicKeypair,
      signatureOf (sampleDevice .nbgl).fourQ keypair
        = signatureOf (sampleDevice .nbgl).fourQ keypair' := by
    intro keypair keypair'
    funext mHash
    simp only [signatureOf, schnorrQSign, sampleDevice, hlen _ 64 (by decide)]
  obtain ⟨keypair, hkey⟩ := deriveQubicKeypair_ok (sampleDevice .nbgl).fourQ
    (show (sampleDevice .nbgl).sdk.bip32Derive path pathLen = .ok samplePrivateKey from rfl)
  obtain ⟨keypair', hkey'⟩ := deriveQubicKeypair_ok (sampleDevice .nbgl).fourQ
    (show (otherDevice key).sdk.bip32Derive path pathLen = .ok key from rfl)
  have hsame : keypair.publicKey = keypair'.publicKey := by
    rw [deriveQubicKeypair_publicKey hkey, deriveQubicKeypair_publicKey hkey', hpublic, hpublic]
  show publicSide (sampleDevice .nbgl) path pathLen = (deriveQubicKeypair _ _ path pathLen).map _
  unfold publicSide
  rw [hkey, show deriveQubicKeypair (otherDevice key).sdk (otherDevice key).fourQ path pathLen
    = .ok keypair' from hkey']
  exact congrArg Except.ok (Prod.ext hsame (hsign keypair keypair'))

/-- A transfer is put up and approved on a device with the sample key and on one
with a key of zeros. -/
theorem secrets_unseen_other :
    let events := [Event.apdu (signTxCommand 0 p2Last (transferChunk 1)), .decide true]
    Lib.Machine.observed Action.seen
        ((machine (sampleDevice .nbgl)).exec (appMain .default) [] events).2
      = Lib.Machine.observed Action.seen
        ((machine (otherDevice (.fill 32 0))).exec (appMain .default) [] events).2 :=
  (secrets_unseen (sameOutside_otherDevice (.fill 32 0)) .default _).2

end QubicLedger
