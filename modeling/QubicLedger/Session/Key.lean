import QubicLedger.Session.PathUse
import QubicLedger.Session.Signature

/-!
# What a returned key is worth

A key is returned in two ways: by GET_PUBLIC_KEY at once, or when an address
review is approved, from the context. When every review is decided before the
next command, both return the same: `run_showsKey` is the invariant while a
review is on screen, and `answersKey` says of every turn of every run that the
bytes are the key of the path that was carried last, that they are what the
screen showed, and that `decode` makes a point of them, the multiple of the
generator by the derived private key.
-/

namespace QubicLedger

open Lib (FixedBuf)

/-- The key pair of the path that was carried last. -/
def KeyOfLastPath (dev : Device) (log : Log) (keypair : QubicKeypair) : Prop :=
  ∃ path, lastPath log = some path ∧
    deriveQubicKeypair dev.sdk dev.fourQ (storedPath path) (UInt8.ofNat path.length) = .ok keypair

/-- The turns that return keys. -/
def AsksKey (t : Turn) : Prop :=
  (∃ display data, request t = .getPublicKey display data) ∨
    ∃ r, t.pre.screen = some r ∧ r.kind = .address ∧ t.event = .decide true

/-- Whatever data such a turn is answered with is the key of the path that was carried last, and
an encoded multiple of the generator. -/
def AnswersKey (dev : Device) (t : Turn) (log : Log) : Prop :=
  AsksKey t → ∀ rdata, Action.respond rdata .ok ∈ t.actions →
    ∃ keypair, KeyOfLastPath dev (t :: log) keypair ∧ rdata = keypair.publicKey.cells ∧
      (∀ r, t.pre.screen = some r → r = addressReview rdata) ∧
      ∃ P, decode keypair.publicKey = some P ∧
        Decoded keypair.publicKey P (multipleOf (signingKey keypair.subseed.cells))

variable {dev : Device} {s : App} {log : Log}

/-! ## While a review is on screen -/

/-- The review shows the key in the context. -/
structure ShowsKey (dev : Device) (s : App) (log : Log) (r : Review) (keypair : QubicKeypair) :
    Prop where
  derived : KeyOfLastPath dev log keypair
  shown : r = addressReview keypair.publicKey.cells
  held : s.ctx.rawPublicKey = keypair.publicKey.cells

theorem KeyOfLastPath.of_other {t : Turn} {keypair : QubicKeypair} (hreq : request t = .other)
    (h : KeyOfLastPath dev log keypair) : KeyOfLastPath dev (t :: log) keypair := by
  unfold KeyOfLastPath
  rw [lastPath_other hreq]
  exact h

theorem KeyOfLastPath.of_getPublicKey {t : Turn} {display : Bool} {data : List UInt8}
    {path : List UInt32} {keypair : QubicKeypair} (hreq : request t = .getPublicKey display data)
    (hpath : pathOf data = some path)
    (hkey : deriveQubicKeypair dev.sdk dev.fourQ (storedPath path) (UInt8.ofNat path.length)
      = .ok keypair) : KeyOfLastPath dev (t :: log) keypair :=
  ⟨path, (lastPath_getPublicKey hreq).trans hpath, hkey⟩

/-- In every run in which reviews are decided before the next command, the key that an address
review shows stays in the context. -/
theorem run_showsKey (hrun : (machine dev).Run s log)
    (hprompt : Lib.Machine.Throughout Prompt log) :
    ∀ r, s.screen = some r → r.kind = .address → ∃ keypair, ShowsKey dev s log r keypair := by
  refine run_induction_of (P := fun s log => ∀ r, s.screen = some r → r.kind = .address →
    ∃ keypair, ShowsKey dev s log r keypair) ?_ ?_ hrun hprompt
  · intro persisted r h
    exact absurd h (by simp [appMain])
  · intro s log e t s' acts hturn hprompt ih
    obtain ⟨-, -, hpre, hevent, hreqTurn, -, heffect⟩ := hturn
    have hnone := screen_of_request hprompt hpre hevent
    -- a command that puts up no review leaves the screen empty
    have hempty : s.request e ≠ .other → s'.screen = s.screen →
        ∀ r, s'.screen = some r → r.kind = .address →
          ∃ keypair, ShowsKey dev s' (t :: log) r keypair := by
      intro hreq hsame r hscreen
      rw [hsame, hnone hreq] at hscreen
      exact absurd hscreen (by simp)
    cases heffect with
    | idle storage acts hreq =>
      intro r hscreen hkind
      obtain ⟨keypair, hderived, hshown, hheld⟩ := ih r hscreen hkind
      exact ⟨keypair, hderived.of_other (hreqTurn.trans hreq), hshown, hheld⟩
    | decided r confirm hreq =>
      intro r' hscreen
      rw [(reviewChoice_keeps dev _ r.kind confirm).2.1] at hscreen
      exact absurd hscreen (by simp)
    | pubkeyRefused display data p hreq => exact hempty (by rw [hreq]; simp) rfl
    | pubkeyThrew display data path err hreq => exact hempty (by rw [hreq]; simp) rfl
    | pubkeySent data path keypair hreq => exact hempty (by rw [hreq]; simp) rfl
    | pubkeyShown data path keypair hreq hpath hkey =>
      intro r hscreen hkind
      injection hscreen with hscreen
      exact ⟨keypair, .of_getPublicKey (hreqTurn.trans hreq) hpath hkey, hscreen.symm,
        GlobalCtx.rawPublicKey_setRawPublicKey _ _⟩
    | firstRefused more data p hreq => exact hempty (by rw [hreq]; simp) rfl
    | firstEmpty more data hreq => exact hempty (by rw [hreq]; simp) rfl
    | nextRefused chunk more data hreq => exact hempty (by rw [hreq]; simp) rfl
    | kept chunk data base body hreq => exact hempty (by rw [hreq]; simp) rfl
    | shownClear chunk data base body hreq =>
      intro r hscreen hkind
      injection hscreen with hscreen
      subst hscreen
      rw [clearReview_kind] at hkind
      cases hkind
    | shownBlind chunk data base body hreq =>
      intro r hscreen hkind
      injection hscreen with hscreen
      subst hscreen
      rw [blindReview_kind] at hkind
      cases hkind
    | rejected chunk data base body hreq => exact hempty (by rw [hreq]; simp) rfl

/-! ## Without a review -/

/-- The data that GET_PUBLIC_KEY is answered with at once. -/
theorem respond_ok_mem_getPublicKey {e : Event} {display : Bool} {data rdata : List UInt8}
    (hreq : s.request e = .getPublicKey display data)
    (hmem : Action.respond rdata .ok ∈ (step dev s e).2) :
    ∃ path keypair, pathOf data = some path ∧
      deriveQubicKeypair dev.sdk dev.fourQ (storedPath path) (UInt8.ofNat path.length)
        = .ok keypair ∧ rdata = keypair.publicKey.cells := by
  rw [step_getPublicKey dev hreq] at hmem
  cases hpath : pathOf data with
  | none =>
    obtain ⟨p, hout⟩ := handlerGetPublicKey_refused dev s display (App.getPublicKey_data hreq).1
      hpath
    rw [hout] at hmem
    exact absurd hmem (by simp [ioSendSw])
  | some path =>
    cases hkey : deriveQubicKeypair dev.sdk dev.fourQ (storedPath path)
        (UInt8.ofNat path.length) with
    | error err =>
      rw [handlerGetPublicKey_threw dev s display hpath hkey] at hmem
      exact absurd hmem (by simp)
    | ok keypair =>
      rw [handlerGetPublicKey_derived dev s display hpath hkey] at hmem
      refine ⟨path, keypair, rfl, hkey, ?_⟩
      cases display with
      | true => exact absurd hmem (by simp)
      | false => simpa using hmem

/-! ## Every turn -/

/-- A derived key is an encoded multiple of the generator. -/
theorem KeyOfLastPath.decoded {keypair : QubicKeypair} (hdev : dev.fourQ = fourQArm)
    (h : KeyOfLastPath dev log keypair) :
    ∃ P, decode keypair.publicKey = some P ∧
      Decoded keypair.publicKey P (multipleOf (signingKey keypair.subseed.cells)) := by
  obtain ⟨path, -, hkey⟩ := h
  have hpair := deriveQubicKeypair_publicKey hkey
  rw [hdev] at hpair
  rw [hpair]
  exact decode_schnorrQKeyGeneration _

theorem turn_answersKey (hdev : dev.fourQ = fourQArm) (e : Event) (hrun : (machine dev).Run s log)
    (hprompt : Lib.Machine.Throughout Prompt log) (hturn : Prompt ((machine dev).turn s e) log) :
    AnswersKey dev ((machine dev).turn s e) log := by
  rintro (⟨display, data, hreq⟩ | ⟨r, hscreen, hkind, hevent⟩) rdata hmem
  · change s.request e = _ at hreq
    have hother : s.request e ≠ .other := by
      rw [hreq]
      simp
    have hnone : s.screen = none := screen_of_request hturn rfl rfl hother
    obtain ⟨path, keypair, hpath, hkey, rfl⟩ := respond_ok_mem_getPublicKey hreq hmem
    have hderived : KeyOfLastPath dev ((machine dev).turn s e :: log) keypair :=
      .of_getPublicKey hreq hpath hkey
    refine ⟨keypair, hderived, rfl, fun r hscreen => ?_, hderived.decoded hdev⟩
    exact absurd (hscreen.symm.trans hnone) (by simp)
  · obtain rfl : e = .decide true := hevent
    have hother : request ((machine dev).turn s (.decide true)) = .other := by
      show s.request (.decide true) = .other
      unfold App.request
      split <;> rfl
    obtain ⟨keypair, hderived, hshown, hheld⟩ := run_showsKey hrun hprompt r hscreen hkind
    obtain ⟨-, hrdata⟩ := (respond_mem_approve_address dev hscreen hkind).mp hmem
    have hderived' := hderived.of_other hother
    rw [Lib.Machine.turn_pre, hheld] at hrdata
    refine ⟨keypair, hderived', hrdata, fun r' hscreen' => ?_, hderived'.decoded hdev⟩
    obtain rfl : r = r' := Option.some.inj (hscreen.symm.trans hscreen')
    rw [hrdata]
    exact hshown

/-- In every run in which reviews are decided before the next command, whatever key is returned
is the key of the path, the shown one, and a point of the curve. -/
theorem answersKey (hdev : dev.fourQ = fourQArm) (hrun : (machine dev).Run s log)
    (hprompt : Lib.Machine.Throughout Prompt log) :
    Lib.Machine.Throughout (AnswersKey dev) log := by
  apply Lib.Machine.Run.throughout_of _ hrun hprompt
  intro s log e hrun hprompt hturn
  exact turn_answersKey hdev e hrun hprompt hturn

/-! ## The client -/

/-- What `get_public_key` sends, and with `display`, `get_public_key_with_confirmation`. -/
def getPublicKeyCommand (display : Bool) (path : List UInt32) (hmax : path.length ≤ maxBip32Path) :
    Command :=
  { cla := cla, ins := insGetPublicKey, p1 := if display then 1 else 0, p2 := 0
    data := pathPrefix path
    lc_le := by
      have hten : path.length ≤ 10 := hmax
      rw [length_pathPrefix]
      omega }

theorem request_getPublicKeyCommand (display : Bool) {path : List UInt32}
    (hmax : path.length ≤ maxBip32Path) :
    (getPublicKeyCommand display path hmax).request = .getPublicKey display (pathPrefix path) := by
  have hne : pathPrefix path ≠ [] := List.cons_ne_nil _ _
  unfold Command.request getPublicKeyCommand
  dsimp only
  rw [if_neg (by simp), if_pos rfl]
  cases display with
  | true => exact if_neg (by simpa using hne)
  | false => exact if_neg (by simpa using hne)

/-- The key of the sample path, confirmed on screen. -/
theorem answersKey_confirmed :
    ∃ (s : App) (rdata : List UInt8) (keypair : QubicKeypair) (P : PointAffine),
      Action.respond rdata .ok ∈ (step (curveDevice .nbgl) s (.decide true)).2 ∧
      s.screen = some (addressReview rdata) ∧ rdata = keypair.publicKey.cells ∧
      decode keypair.publicKey = some P := by
  obtain ⟨keypair, hkey⟩ := deriveQubicKeypair_ok fourQArm
    (show (curveDevice .nbgl).sdk.bip32Derive (storedPath samplePath)
      (UInt8.ofNat samplePath.length) = .ok samplePrivateKey from rfl)
  have hstart : (machine (curveDevice .nbgl)).Run (appMain .default) [] := .start ⟨.default, rfl⟩
  generalize he : Event.apdu (getPublicKeyCommand true samplePath (by decide)) = e
  have hreq : (appMain .default).request e = .getPublicKey true (pathPrefix samplePath) := by
    rw [← he]
    exact request_getPublicKeyCommand true _
  have hpath : pathOf (pathPrefix samplePath) = some samplePath := by
    rw [← List.append_nil (pathPrefix samplePath)]
    exact pathOf_pathPrefix (by decide) []
  have hstep := (step_getPublicKey (curveDevice .nbgl) hreq).trans
    (handlerGetPublicKey_derived _ _ true hpath hkey)
  have hscreen : (step (curveDevice .nbgl) (appMain .default) e).1.screen
      = some (addressReview keypair.publicKey.cells) := by
    rw [hstep]
    rfl
  have hlive : (step (curveDevice .nbgl) (appMain .default) e).1.exited = false := by
    rw [hstep]
    rfl
  have hmem := (respond_mem_approve_address (curveDevice .nbgl) hscreen rfl).mpr ⟨hlive, rfl⟩
  have hturns := answersKey (rfl : (curveDevice .nbgl).fourQ = fourQArm)
    ((hstart.step e).step (.decide true))
    ⟨prompt_of_no_command (by simp), prompt_of_no_screen rfl, trivial⟩
  obtain ⟨keypair', -, hrdata, hshown, P, hdecode, -⟩ :=
    hturns.1 (.inr ⟨_, hscreen, rfl, rfl⟩) _ hmem
  exact ⟨_, _, keypair', P, hmem, hscreen.trans (congrArg some (hshown _ hscreen)), hrdata,
    hdecode⟩

end QubicLedger
