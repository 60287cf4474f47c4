import QubicLedger.Session.Pending

/-!
# Who signs a transaction shown in the clear

When every review is decided before the next command, a clear review is
decided in the very context it was made from (`run_madeFrom`), so its approval
can be described in terms of the body it shows: `approve_clear_review`.

The comparison of the derived key with the source of the transaction is behind
`allow_blind_sign != BlindSignEnabled` in `crypto_sign_message`. The setting
is meant for bodies that do not parse, but the gate asks for nothing else: with
blind signing on, the key that signs a clear transaction need not be its source.
-/

namespace QubicLedger

open Lib (FixedBuf)

/-- No command comes while a review is on screen. -/
def Prompt (t : Turn) (_ : Log) : Prop :=
  t.pre.screen ≠ none → ∀ cmd, t.event ≠ .apdu cmd

theorem prompt_of_no_screen {t : Turn} {log : Log} (h : t.pre.screen = none) : Prompt t log :=
  fun hscreen => absurd h hscreen

theorem prompt_of_no_command {t : Turn} {log : Log} (h : ∀ cmd, t.event ≠ .apdu cmd) :
    Prompt t log := fun _ => h

/-- The context is the one the clear review on screen was made from. -/
structure MadeFrom (s : App) (log : Log) : Prop where
  live : s.exited = false
  shown : shownBytes log = accepted log
  source : s.ctx.txInfo.transactionQubic = decodeTransaction (accepted log)
  digest : s.ctx.txInfo.mHash = digestOf (accepted log)

/-- A request to a prompt host's app finds no review on screen. -/
theorem screen_of_request {s : App} {e : Event} {t : Turn} {log : Log} (hprompt : Prompt t log)
    (hpre : t.pre = s) (hevent : t.event = e) (hreq : s.request e ≠ .other) : s.screen = none := by
  obtain ⟨-, cmd, he, -⟩ := App.request_ne_other hreq
  by_contra hscreen
  exact hprompt (hpre ▸ hscreen) cmd (hevent.trans he)

/-- In every run without such commands the context is that of the review on screen. -/
theorem run_madeFrom {dev : Device} {s : App} {log : Log} (hrun : (machine dev).Run s log)
    (hprompt : Lib.Machine.Throughout Prompt log) :
    ∀ r, s.screen = some r → r.kind = .clear → MadeFrom s log := by
  refine run_induction_of (P := fun s log => ∀ r, s.screen = some r →
    r.kind = .clear → MadeFrom s log) ?_ ?_ hrun hprompt
  · intro persisted r h
    exact absurd h (by simp [appMain])
  · intro s log e t s' acts hturn hprompt ih
    obtain ⟨-, hafter, hpre, hevent, hreqTurn, hacts, heffect⟩ := hturn
    have hnone := screen_of_request hprompt hpre hevent
    have hreceived := received_eq_accepted hafter
    -- a command that puts up no review leaves the screen empty
    have hempty : s.request e ≠ .other → s'.screen = s.screen →
        ∀ r, s'.screen = some r → r.kind = .clear → MadeFrom s' (t :: log) := by
      intro hreq hsame r hscreen
      rw [hsame, hnone hreq] at hscreen
      exact absurd hscreen (by simp)
    cases heffect with
    | idle storage acts hreq hstorage hanswer =>
      intro r hscreen hkind
      have hsilent : showsReview t.actions = false := by
        rw [hacts]
        rcases hanswer with rfl | ⟨rdata, sw, rfl⟩
        · rfl
        · rfl
      obtain ⟨hlive, hshown, hsource, hdigest⟩ := ih r hscreen hkind
      have hsame : accepted (t :: log) = accepted log := accepted_other (hreqTurn.trans hreq)
      refine ⟨hlive, ?_, ?_, ?_⟩
      · rw [shownBytes_silent hsilent, hsame]
        exact hshown
      · rw [hsame]
        exact hsource
      · rw [hsame]
        exact hdigest
    | decided r confirm hreq =>
      intro r' hscreen
      rw [(reviewChoice_keeps dev _ r.kind confirm).2.1] at hscreen
      exact absurd hscreen (by simp)
    | pubkeyRefused display data p hreq => exact hempty (by rw [hreq]; simp) rfl
    | pubkeyThrew display data path err hreq => exact hempty (by rw [hreq]; simp) rfl
    | pubkeySent data path keypair hreq => exact hempty (by rw [hreq]; simp) rfl
    | pubkeyShown data path keypair hreq =>
      intro r hscreen hkind
      injection hscreen with hscreen
      subst hscreen
      exact absurd hkind (by simp [addressReview])
    | firstRefused more data p hreq => exact hempty (by rw [hreq]; simp) rfl
    | firstEmpty more data hreq => exact hempty (by rw [hreq]; simp) rfl
    | nextRefused chunk more data hreq => exact hempty (by rw [hreq]; simp) rfl
    | kept chunk data base body hreq => exact hempty (by rw [hreq]; simp) rfl
    | shownClear chunk data base body hreq hentry haccept =>
      intro r _ _
      have hlive : s.exited = false := (App.request_ne_other (e := e) (by rw [hreq]; simp)).1
      have hbody : accepted (t :: log) = (base.appended body).received := hreceived.symm
      refine ⟨hlive, shownBytes_shows (by rw [hacts]; rfl), ?_, ?_⟩
      · rw [hbody]
        exact congrArg Prod.snd (haccept.deserialize _)
      · rw [hbody]
        rfl
    | shownBlind chunk data base body hreq =>
      intro r hscreen hkind
      injection hscreen with hscreen
      subst hscreen
      rw [blindReview_kind] at hkind
      cases hkind
    | rejected chunk data base body hreq => exact hempty (by rw [hreq]; simp) rfl

/-- What the approval of a clear review does, when every review is decided
before the next command. With blind signing off it signs if the derived key is
the displayed source and answers SW_SIGNATURE_FAIL if not; with blind signing on
it signs in any case. -/
theorem approve_clear_review {dev : Device} {s : App} {log : Log} (hrun : (machine dev).Run s log)
    (hprompt : Lib.Machine.Throughout Prompt log) {r : Review} (hscreen : s.screen = some r)
    (hkind : r.kind = .clear) :
    let tx := decodeTransaction (accepted log)
    let derive := Action.derive s.ctx.bip32Path s.ctx.bip32PathLen
    let closing := closingPage dev.build .transactionSigned
    Parses (accepted log) ∧ r = clearReview dev.build s.storage.settings tx ∧
    (∀ err, derivedKeypair dev s.ctx = .error err →
      (step dev s (.decide true)).2 = [derive, .throw err]) ∧
    (∀ keypair, derivedKeypair dev s.ctx = .ok keypair →
      s.storage.settings.allowBlindSign ≠ blindSignEnabled →
      keypair.publicKey ≠ tx.sourcePublicKey →
      (step dev s (.decide true)).2 = derive :: ioSendSw .signatureFail :: closing) ∧
    (∀ keypair, derivedKeypair dev s.ctx = .ok keypair →
      s.storage.settings.allowBlindSign = blindSignEnabled ∨
        keypair.publicKey = tx.sourcePublicKey →
      (step dev s (.decide true)).2
        = derive
          :: .sign keypair.subseed.cells keypair.publicKey.cells (digestOf (accepted log)).cells
          :: .respond (64 :: (signatureOf dev.fourQ keypair (digestOf (accepted log))).cells) .ok
          :: closing) := by
  obtain ⟨hlive, hshown, hsource, hdigest⟩ := run_madeFrom hrun hprompt r hscreen hkind
  have hon := run_onScreen hrun r hscreen
  have happrove : Approves s (.decide true) :=
    ⟨hlive, rfl, r, hscreen, by rw [hkind]; decide⟩
  -- the source in the context is the one on screen
  have hcheck : ∀ keypair, PassesSourceCheck s keypair ↔
      s.storage.settings.allowBlindSign = blindSignEnabled ∨
        keypair.publicKey = (decodeTransaction (accepted log)).sourcePublicKey := by
    intro keypair
    rw [← hsource]
    rfl
  refine ⟨hshown ▸ hon.parses hkind, hshown ▸ hon.clear hkind, ?_, ?_, ?_⟩
  · intro err hkey
    exact step_approve_threw dev happrove hkey
  · intro keypair hkey hblind hsource
    apply step_approve_mismatch dev happrove hkey
    rw [hcheck]
    exact not_or.mpr ⟨hblind, hsource⟩
  · intro keypair hkey hpass
    rw [step_approve_signed dev happrove hkey ((hcheck keypair).mpr hpass), hdigest]

/-- With blind signing on, a transfer from another key than the device's is shown. -/
def foreignSourceEvents : List Event :=
  [.setting .blindSign true,
   .apdu (signTxCommand 0 p2Last (firstChunk samplePath (transferWithInput 0) (by decide)))]

theorem foreignSource_run :
    let out := (machine (sampleDevice .nbgl)).exec (appMain .default) [] foreignSourceEvents
    (machine (sampleDevice .nbgl)).Run out.1 out.2 ∧ Lib.Machine.Throughout Prompt out.2 := by
  intro out
  refine ⟨sample_run .nbgl foreignSourceEvents, ?_, ?_, trivial⟩
  · exact prompt_of_no_screen rfl
  · exact prompt_of_no_screen rfl

/-- The clear review is up. -/
theorem foreignSource_screen :
    ∃ r, ((machine (sampleDevice .nbgl)).exec (appMain .default) [] foreignSourceEvents).1.screen
      = some r ∧ r.kind = .clear :=
  Option.map_eq_some_iff.mp (by decide +kernel)

theorem approve_clear_review_sample :
    let out := (machine (sampleDevice .nbgl)).exec (appMain .default) [] foreignSourceEvents
    ∃ keypair, (step (sampleDevice .nbgl) out.1 (.decide true)).2
      = .derive out.1.ctx.bip32Path out.1.ctx.bip32PathLen
        :: .sign keypair.subseed.cells keypair.publicKey.cells (digestOf (accepted out.2)).cells
        :: .respond (64 :: (signatureOf (sampleDevice .nbgl).fourQ keypair
            (digestOf (accepted out.2))).cells) .ok
        :: closingPage .nbgl .transactionSigned := by
  intro out
  obtain ⟨r, hscreen, hkind⟩ := foreignSource_screen
  obtain ⟨keypair, hkey, -⟩ := derivedKeypair_sampleDevice .nbgl out.1.ctx
  obtain ⟨hrun, hprompt⟩ := foreignSource_run
  obtain ⟨-, -, -, -, hsigned⟩ := approve_clear_review hrun hprompt hscreen hkind
  exact ⟨keypair, hsigned keypair hkey (Or.inl (by decide +kernel))⟩

/-- A signature is returned although the derived key is not the source. -/
theorem not_signer_is_source :
    ¬∀ (dev : Device) (s : App) (log : Log) (r : Review) (keypair : QubicKeypair),
      (machine dev).Run s log → Lib.Machine.Throughout Prompt log → s.screen = some r →
      r.kind = .clear → derivedKeypair dev s.ctx = .ok keypair →
      (∃ signature, Action.respond (64 :: signature) .ok ∈ (step dev s (.decide true)).2) →
      keypair.publicKey = s.ctx.txInfo.transactionQubic.sourcePublicKey := by
  intro h
  obtain ⟨hrun, hprompt⟩ := foreignSource_run
  obtain ⟨r, hscreen, hkind⟩ := foreignSource_screen
  generalize hout : (machine (sampleDevice .nbgl)).exec (appMain .default) [] foreignSourceEvents
    = out at hrun hprompt hscreen
  obtain ⟨keypair, hkey, hpublic⟩ := derivedKeypair_sampleDevice .nbgl out.1.ctx
  have happrove : Approves out.1 (.decide true) :=
    ⟨by rw [← hout]; decide +kernel, rfl, r, hscreen, by rw [hkind]; decide⟩
  have hblind : out.1.storage.settings.allowBlindSign = blindSignEnabled := by
    rw [← hout]
    decide +kernel
  have hsigned := step_approve_signed (sampleDevice .nbgl) happrove hkey (Or.inl hblind)
  have hsource := h _ _ _ r keypair hrun hprompt hscreen hkind hkey
    ⟨_, by
      rw [hsigned]
      exact List.mem_cons_of_mem _ (List.mem_cons_of_mem _ (List.mem_cons_self ..))⟩
  rw [hpublic, ← hout] at hsource
  exact absurd hsource (by decide +kernel)

end QubicLedger
