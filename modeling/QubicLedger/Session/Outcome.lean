import QubicLedger.Session.Approval
import QubicLedger.Session.Split
import QubicLedger.Display.Shown

/-!
# What the user and the host are told

A decision on a transaction review is reported twice: `validate_transaction`
answers the host with the outcome of `crypto_sign_message`, and `review_choice`
puts up a closing page that depends on the user's choice alone. The two agree
whenever the user refuses (`step_reject`) and whenever the approval ends in a
signature; when the source check of `crypto_sign_message` fails, the host gets
SW_SIGNATURE_FAIL under a page that says "signed".

The derivation is assumed not to throw in this module, so the app never ends
(`run_live`).
-/

namespace QubicLedger

open Lib (FixedBuf)

/-! ## The two reports -/

/-- The responses among some actions. -/
def responses (acts : List Action) : List (List UInt8 × StatusWord) :=
  acts.filterMap fun a => match a with
    | .respond rdata sw => some (rdata, sw)
    | _ => none

/-- The closing page says that the transaction was signed. -/
def SaysSigned (acts : List Action) : Prop := Action.status .transactionSigned ∈ acts

instance (acts : List Action) : Decidable (SaysSigned acts) :=
  inferInstanceAs (Decidable (_ ∈ acts))

/-- A response that is the signature of the digest in the context, with SW_OK. -/
def IsSignature (dev : Device) (ctx : GlobalCtx) (answer : List UInt8 × StatusWord) : Prop :=
  ∃ keypair, derivedKeypair dev ctx = .ok keypair ∧
    answer = (0x40 :: (signatureOf dev.fourQ keypair ctx.txInfo.mHash).cells, .ok)

/-- `crypto_sign_message`, as `validate_transaction` calls it, returns an error. -/
def SigningFails (dev : Device) (s : App) : Prop :=
  (cryptoSignMessage dev s.storage.settings { s.ctx with state := .approved }).1 = .failed

/-- One answer, and a page that says the same. -/
structure Told (dev : Device) (t : Turn) (confirm : Bool) : Prop where
  answer : ∃ answer, responses t.actions = [answer] ∧
    (SaysSigned t.actions ↔ IsSignature dev t.pre.ctx answer)
  unsigned : confirm = false ∨ SigningFails dev t.pre →
    (∃ sw, responses t.actions = [([], sw)]) ∧ t.post.ctx.state = .none ∧ ¬SaysSigned t.actions

/-- Every decision on a transaction review is told to both alike. -/
def TellsSame (dev : Device) (t : Turn) (_ : Log) : Prop :=
  ∀ confirm r, t.event = .decide confirm → t.pre.screen = some r → r.kind ≠ .address →
    Told dev t confirm

/-- Whenever a transaction is approved, the source check passes. -/
def ApprovalsPass (dev : Device) (t : Turn) (_ : Log) : Prop :=
  Approves t.pre t.event → ∀ keypair, derivedKeypair dev t.pre.ctx = .ok keypair →
    PassesSourceCheck t.pre keypair

/-! ## A derivation that never throws -/

/-- The SDK derives a key from every path. -/
def NeverThrows (sdk : Sdk) : Prop := ∀ path n, ∃ key, sdk.bip32Derive path n = .ok key

section Derives

variable {dev : Device}

theorem NeverThrows.keypair (hderive : NeverThrows dev.sdk)
    (path : FixedBuf UInt32 maxBip32Path) (n : UInt8) :
    ∃ keypair, deriveQubicKeypair dev.sdk dev.fourQ path n = .ok keypair := by
  obtain ⟨key, hkey⟩ := hderive path n
  exact deriveQubicKeypair_ok dev.fourQ hkey

/-- A decision does not end the app. -/
theorem reviewChoice_live (hderive : NeverThrows dev.sdk) {app : App} (hlive : app.exited = false)
    (kind : ReviewKind) (confirm : Bool) :
    (reviewChoice dev app kind confirm).1.exited = false := by
  rw [reviewChoice_fst]
  split
  · exact hlive
  · cases confirm with
    | false => exact hlive
    | true =>
      obtain ⟨keypair, hkey⟩ := hderive.keypair app.ctx.bip32Path app.ctx.bip32PathLen
      by_cases hpass : app.storage.settings.allowBlindSign = blindSignEnabled ∨
          keypair.publicKey = app.ctx.txInfo.transactionQubic.sourcePublicKey
      · rw [validateTransaction_signed dev app hkey hpass]
        exact hlive
      · rw [validateTransaction_mismatch dev app hkey (fun h => hpass (Or.inl h))
          (fun h => hpass (Or.inr h))]
        exact hlive

/-- In every reachable state the app is running. -/
theorem run_live (hderive : NeverThrows dev.sdk) {s : App} {log : Log}
    (hrun : (machine dev).Run s log) : s.exited = false := by
  refine run_induction (P := fun s _ => s.exited = false) (fun _ => rfl) ?_ hrun
  intro s log e t s' acts hturn hlive
  cases hturn.effect with
  | idle => exact hlive
  | decided r confirm =>
    have hcleared : ({ s with screen := none } : App).exited = false := hlive
    exact reviewChoice_live hderive hcleared r.kind confirm
  | pubkeyRefused => exact hlive
  | pubkeyThrew display data path err hreq hpath hkey =>
    obtain ⟨keypair, hok⟩ := hderive.keypair (storedPath path) (UInt8.ofNat path.length)
    rw [hok] at hkey
    exact absurd hkey (by simp)
  | pubkeySent => exact hlive
  | pubkeyShown => exact hlive
  | firstRefused => exact hlive
  | firstEmpty => exact hlive
  | nextRefused => exact hlive
  | kept => exact hlive
  | shownClear => exact hlive
  | shownBlind => exact hlive
  | rejected => exact hlive

end Derives

/-! ## How a decision is reported -/

section Decision

variable {dev : Device} {s : App}

/-- The outcome of `crypto_sign_message` is that of its source check. -/
theorem signingFails_iff {keypair : QubicKeypair} (hkey : derivedKeypair dev s.ctx = .ok keypair) :
    SigningFails dev s ↔ ¬PassesSourceCheck s keypair := by
  have hsome : ∃ signature, schnorrQSign dev.fourQ keypair.subseed.cells keypair.publicKey.cells
      s.ctx.txInfo.mHash.cells = some signature :=
    Option.isSome_iff_exists.mp (schnorrQSign_isSome _ _ _ s.ctx.txInfo.mHash)
  obtain ⟨signature, hsigned⟩ := hsome
  unfold derivedKeypair at hkey
  unfold SigningFails cryptoSignMessage PassesSourceCheck
  dsimp only
  rw [hkey]
  dsimp only
  by_cases hpass : s.storage.settings.allowBlindSign ≠ blindSignEnabled ∧
      keypair.publicKey ≠ s.ctx.txInfo.transactionQubic.sourcePublicKey
  · rw [if_pos hpass]
    exact iff_of_true rfl (fun h => h.elim hpass.1 hpass.2)
  · rw [if_neg hpass, hsigned]
    refine iff_of_false (by simp) (fun h => hpass ?_)
    exact not_or.mp h

/-- A refused transaction. -/
theorem step_reject (hbuild : dev.build = .nbgl) (hlive : s.exited = false) {r : Review}
    (hscreen : s.screen = some r) (hkind : r.kind ≠ .address) :
    step dev s (.decide false)
      = ({ s with screen := none, ctx := { s.ctx with state := .none } },
          [ioSendSw .deny, .status .transactionRejected]) := by
  have hbranch : (validateTransaction dev { s with screen := none } false).1.exited = false := hlive
  rw [step_decide dev false hlive hscreen]
  unfold reviewChoice
  cases hk : r.kind with
  | address => exact absurd hk hkind
  | clear | blind =>
    dsimp only
    rw [if_neg (by rw [hbranch]; exact Bool.false_ne_true), hbuild]
    rfl

theorem told_reject (hbuild : dev.build = .nbgl) (hlive : s.exited = false) {r : Review}
    (hscreen : s.screen = some r) (hkind : r.kind ≠ .address) :
    Told dev ((machine dev).turn s (.decide false)) false := by
  have hstep : (machine dev).step s (.decide false) = _ :=
    step_reject hbuild hlive hscreen hkind
  have hpage : ¬SaysSigned [ioSendSw .deny, .status .transactionRejected] := by decide
  refine ⟨⟨([], .deny), ?_, ?_⟩, fun _ => ⟨⟨.deny, ?_⟩, ?_, ?_⟩⟩
  · rw [Lib.Machine.turn_actions, hstep]
    rfl
  · rw [Lib.Machine.turn_actions, hstep]
    refine iff_of_false hpage ?_
    rintro ⟨keypair, -, hanswer⟩
    exact absurd (congrArg Prod.fst hanswer) (by simp)
  · rw [Lib.Machine.turn_actions, hstep]
    rfl
  · rw [Lib.Machine.turn_post, hstep]
  · rw [Lib.Machine.turn_actions, hstep]
    exact hpage

/-- An approval that ends in a signature. -/
theorem told_signed (hbuild : dev.build = .nbgl) {e : Event} (happrove : Approves s e)
    {keypair : QubicKeypair} (hkey : derivedKeypair dev s.ctx = .ok keypair)
    (hpass : PassesSourceCheck s keypair) : Told dev ((machine dev).turn s e) true := by
  have hacts := step_approve_signed dev happrove hkey hpass
  rw [hbuild] at hacts
  refine ⟨⟨(0x40 :: (signatureOf dev.fourQ keypair s.ctx.txInfo.mHash).cells, .ok), ?_, ?_⟩, ?_⟩
  · rw [Lib.Machine.turn_actions, machine_step, hacts]
    rfl
  · refine iff_of_true ?_ ⟨keypair, hkey, rfl⟩
    rw [Lib.Machine.turn_actions, machine_step, hacts]
    simp [SaysSigned, closingPage]
  · intro h
    have hfails : SigningFails dev s := h.resolve_left (by simp)
    exact absurd hpass ((signingFails_iff hkey).mp hfails)

/-- An approval that fails: the host is told so, the user is not. -/
theorem not_told_mismatch (hbuild : dev.build = .nbgl) {e : Event} (happrove : Approves s e)
    {keypair : QubicKeypair} (hkey : derivedKeypair dev s.ctx = .ok keypair)
    (hfail : ¬PassesSourceCheck s keypair) : ¬Told dev ((machine dev).turn s e) true := by
  intro h
  have hacts := step_approve_mismatch dev happrove hkey hfail
  rw [hbuild] at hacts
  have hpage := (h.unsigned (Or.inr ((signingFails_iff hkey).mpr hfail))).2.2
  rw [Lib.Machine.turn_actions, machine_step, hacts] at hpage
  exact hpage (by simp [SaysSigned, closingPage])

end Decision

/-! ## When the reports agree -/

/-- One turn of a run. -/
theorem turn_tellsSame_iff {dev : Device} (hbuild : dev.build = .nbgl)
    (hderive : NeverThrows dev.sdk) {s : App} {log : Log}
    (e : Event) (hrun : (machine dev).Run s log) :
    TellsSame dev ((machine dev).turn s e) log ↔
      ApprovalsPass dev ((machine dev).turn s e) log := by
  have hlive := run_live hderive hrun
  constructor
  · intro htold happrove keypair hkey
    obtain ⟨r, hscreen, hkind⟩ := happrove.review
    by_contra hfail
    exact not_told_mismatch hbuild happrove hkey hfail
      (htold true r happrove.confirm hscreen hkind)
  · intro hpass confirm r he hscreen hkind
    rw [Lib.Machine.turn_event] at he
    subst he
    cases confirm with
    | false => exact told_reject hbuild hlive hscreen hkind
    | true =>
      have happrove : Approves s (.decide true) := ⟨hlive, rfl, r, hscreen, hkind⟩
      obtain ⟨keypair, hkey⟩ := hderive.keypair s.ctx.bip32Path s.ctx.bip32PathLen
      exact told_signed hbuild happrove hkey (hpass happrove keypair hkey)

/-- Along every run on NBGL whose derivations do not throw: user and host are
told the same of every decision, if and only if every approval passes the
source check. -/
theorem tellsSame_iff {dev : Device} (hbuild : dev.build = .nbgl)
    (hderive : NeverThrows dev.sdk) {s : App} {log : Log}
    (hrun : (machine dev).Run s log) :
    Lib.Machine.Throughout (TellsSame dev) log ↔ Lib.Machine.Throughout (ApprovalsPass dev) log :=
  Lib.Machine.Run.throughout_congr
    (fun _ _ e hrun => turn_tellsSame_iff hbuild hderive e hrun) hrun

/-- With blind signing off, a transfer from another key than the device's is
put up and approved. -/
def strangerEvents : List Event :=
  [.apdu (signTxCommand 0 p2Last
      (firstChunk samplePath (transferWithInput 0) (Nat.le_of_ble_eq_true rfl))),
   .decide true]

theorem neverThrows_sampleDevice : NeverThrows (sampleDevice .nbgl).sdk :=
  fun _ _ => ⟨samplePrivateKey, rfl⟩

theorem tellsSame_iff_sample :
    let dev := sampleDevice .nbgl
    let log := ((machine dev).exec (appMain .default) [] strangerEvents).2
    Lib.Machine.Throughout (TellsSame dev) log ↔ Lib.Machine.Throughout (ApprovalsPass dev) log :=
  tellsSame_iff rfl neverThrows_sampleDevice (sample_run .nbgl strangerEvents)

/-- The review of that transfer is up when the user approves. -/
theorem stranger_screen :
    ∃ r, ((machine (sampleDevice .nbgl)).exec (appMain .default) []
      strangerEvents.dropLast).1.screen = some r ∧ r.kind = .clear :=
  Option.map_eq_some_iff.mp (by decide +kernel)

/-- The host gets SW_SIGNATURE_FAIL and the user a page that says "signed". -/
theorem not_tellsSame :
    ¬∀ (dev : Device) (s : App) (log : Log), dev.build = .nbgl →
      NeverThrows dev.sdk → (machine dev).Run s log →
      Lib.Machine.Throughout (TellsSame dev) log := by
  intro h
  obtain ⟨hlast, -⟩ := h _ _ _ rfl neverThrows_sampleDevice (sample_run .nbgl strangerEvents)
  obtain ⟨r, hscreen, hkind⟩ := stranger_screen
  have htold := hlast true r rfl hscreen (by rw [hkind]; decide)
  have hfails : SigningFails (sampleDevice .nbgl) ((machine (sampleDevice .nbgl)).exec
      (appMain .default) [] strangerEvents.dropLast).1 := by
    unfold SigningFails
    decide +kernel
  exact (htold.unsigned (Or.inr hfails)).2.2 (by decide +kernel)

end QubicLedger
