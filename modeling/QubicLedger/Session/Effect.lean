import QubicLedger.Session.Steps

/-!
# The outcomes of one event

`Effect` lists them and `step_effect` proves the list complete for every state
whose `raw_tx_len` is within `raw_tx`, which is every reachable one
(`rawTxLen_le`). Invariants of runs are proved by cases on it.

A decision never touches what a command left for later ones: `SameData` is
what `reviewChoice` keeps.
-/

namespace QubicLedger

open Lib (FixedBuf)

/-! ## Requests -/

theorem App.request_data (app : App) (e : Event) :
    (app.request e).data.length ≤ 255 ∧ (app.request e ≠ .other → (app.request e).data ≠ []) := by
  unfold App.request
  split
  · exact ⟨Nat.zero_le _, fun h => absurd rfl h⟩
  split
  next cmd =>
    refine ⟨data_length_of_request cmd, fun h => ?_⟩
    rcases data_of_request cmd with hother | ⟨hdata, hne⟩
    · exact absurd hother h
    · rw [hdata]
      exact hne
  next => exact ⟨Nat.zero_le _, fun h => absurd rfl h⟩

theorem App.getPublicKey_data {app : App} {e : Event} {display : Bool} {data : List UInt8}
    (h : app.request e = .getPublicKey display data) : data ≠ [] ∧ data.length ≤ 255 := by
  obtain ⟨hlen, hne⟩ := app.request_data e
  rw [h] at hlen hne
  exact ⟨hne (by simp), hlen⟩

theorem App.signTx_data {app : App} {e : Event} {chunk : UInt8} {more : Bool} {data : List UInt8}
    (h : app.request e = .signTx chunk more data) : data ≠ [] ∧ data.length ≤ 255 := by
  obtain ⟨hlen, hne⟩ := app.request_data e
  rw [h] at hlen hne
  exact ⟨hne (by simp), hlen⟩

/-- Only a live app gets requests, and only by APDU. -/
theorem App.request_ne_other {app : App} {e : Event} (h : app.request e ≠ .other) :
    app.exited = false ∧ ∃ cmd, e = .apdu cmd ∧ app.request e = cmd.request := by
  unfold App.request at h ⊢
  cases hexited : app.exited with
  | true =>
    rw [hexited, if_pos rfl] at h
    exact absurd rfl h
  | false =>
    rw [hexited, if_neg Bool.false_ne_true] at h
    rw [if_neg Bool.false_ne_true]
    cases e with
    | apdu cmd => exact ⟨rfl, cmd, rfl, rfl⟩
    | badApdu => exact absurd rfl h
    | decide confirm => exact absurd rfl h
    | setting setting on => exact absurd rfl h

/-! ## Decisions -/

/-- The parts of the context that only commands write. -/
structure SameData (c c' : GlobalCtx) : Prop where
  rawTx : c'.txInfo.rawTx = c.txInfo.rawTx
  rawTxLen : c'.txInfo.rawTxLen = c.txInfo.rawTxLen
  transactionQubic : c'.txInfo.transactionQubic = c.txInfo.transactionQubic
  mHash : c'.txInfo.mHash = c.txInfo.mHash
  bip32Path : c'.bip32Path = c.bip32Path
  bip32PathLen : c'.bip32PathLen = c.bip32PathLen

theorem SameData.received {c c' : GlobalCtx} (h : SameData c c') : c'.received = c.received := by
  unfold GlobalCtx.received
  rw [h.rawTx, h.rawTxLen]

/-- The signature `SchnorrQ_Sign` makes of the digest in the context. -/
def signatureOf (fourQ : FourQ) (keypair : QubicKeypair)
    (mHash : FixedBuf UInt8 transactionDigestLen) : FixedBuf UInt8 maxDerSigLen :=
  (schnorrQSign fourQ keypair.subseed.cells keypair.publicKey.cells mHash.cells).get
    (schnorrQSign_isSome _ _ _ mHash)

section Decide

variable (dev : Device) (app : App)

/-- Derivation fails while approving: the app ends. -/
theorem validateTransaction_threw {err : UInt32}
    (hkey : deriveQubicKeypair dev.sdk dev.fourQ app.ctx.bip32Path app.ctx.bip32PathLen
      = .error err) :
    validateTransaction dev app true
      = ({ app with ctx := { app.ctx with state := .approved }, exited := true },
          [.derive app.ctx.bip32Path app.ctx.bip32PathLen, .throw err]) := by
  unfold validateTransaction cryptoSignMessage
  dsimp only
  rw [if_pos rfl, hkey]

/-- The derived key is not the source and blind signing is off: no signature. -/
theorem validateTransaction_mismatch {keypair : QubicKeypair}
    (hkey : deriveQubicKeypair dev.sdk dev.fourQ app.ctx.bip32Path app.ctx.bip32PathLen
      = .ok keypair)
    (hblind : app.storage.settings.allowBlindSign ≠ blindSignEnabled)
    (hsource : keypair.publicKey ≠ app.ctx.txInfo.transactionQubic.sourcePublicKey) :
    validateTransaction dev app true
      = ({ app with ctx := { app.ctx with state := .none } },
          [.derive app.ctx.bip32Path app.ctx.bip32PathLen, ioSendSw .signatureFail]) := by
  unfold validateTransaction cryptoSignMessage
  dsimp only
  rw [if_pos rfl, hkey]
  dsimp only
  rw [if_pos ⟨hblind, hsource⟩]
  rfl

/-- Otherwise the digest in the context is signed and the signature returned. -/
theorem validateTransaction_signed {keypair : QubicKeypair}
    (hkey : deriveQubicKeypair dev.sdk dev.fourQ app.ctx.bip32Path app.ctx.bip32PathLen
      = .ok keypair)
    (hpass : app.storage.settings.allowBlindSign = blindSignEnabled ∨
      keypair.publicKey = app.ctx.txInfo.transactionQubic.sourcePublicKey) :
    validateTransaction dev app true
      = ({ app with ctx := { app.ctx with
            state := .approved
            txInfo := { app.ctx.txInfo with
              signature := signatureOf dev.fourQ keypair app.ctx.txInfo.mHash
              signatureLen := 64 } } },
          [.derive app.ctx.bip32Path app.ctx.bip32PathLen,
            .sign keypair.subseed.cells keypair.publicKey.cells app.ctx.txInfo.mHash.cells,
            .respond (64 :: (signatureOf dev.fourQ keypair app.ctx.txInfo.mHash).cells) .ok]) := by
  have hguard : ¬(app.storage.settings.allowBlindSign ≠ blindSignEnabled ∧
      keypair.publicKey ≠ app.ctx.txInfo.transactionQubic.sourcePublicKey) := by
    rintro ⟨hblind, hsource⟩
    rcases hpass with h | h
    · exact hblind h
    · exact hsource h
  have hsome : schnorrQSign dev.fourQ keypair.subseed.cells keypair.publicKey.cells
      app.ctx.txInfo.mHash.cells = some (signatureOf dev.fourQ keypair app.ctx.txInfo.mHash) :=
    (Option.some_get _).symm
  have hwhole : (signatureOf dev.fourQ keypair app.ctx.txInfo.mHash).cells.take 64
      = (signatureOf dev.fourQ keypair app.ctx.txInfo.mHash).cells :=
    List.take_of_length_le (Nat.le_of_eq (FixedBuf.size_eq _))
  unfold validateTransaction cryptoSignMessage helperSendResponseSig
  dsimp only
  rw [if_pos rfl, hkey]
  dsimp only
  rw [if_neg hguard, hsome]
  dsimp only
  rw [show (UInt8.ofNat maxDerSigLen).toNat = 64 from rfl, hwhole]
  rfl

/-- Refusing a transaction only clears the state. -/
theorem validateTransaction_refused :
    validateTransaction dev app false
      = ({ app with ctx := { app.ctx with state := .none } }, [ioSendSw .deny]) := rfl

/-- The ways a transaction decision can go. -/
theorem validateTransaction_keeps (confirm : Bool) :
    SameData app.ctx (validateTransaction dev app confirm).1.ctx ∧
    (validateTransaction dev app confirm).1.screen = app.screen ∧
    (validateTransaction dev app confirm).1.storage = app.storage := by
  cases confirm with
  | false => exact ⟨⟨rfl, rfl, rfl, rfl, rfl, rfl⟩, rfl, rfl⟩
  | true =>
    cases hkey : deriveQubicKeypair dev.sdk dev.fourQ app.ctx.bip32Path app.ctx.bip32PathLen with
    | error err =>
      rw [validateTransaction_threw dev app hkey]
      exact ⟨⟨rfl, rfl, rfl, rfl, rfl, rfl⟩, rfl, rfl⟩
    | ok keypair =>
      by_cases hpass : app.storage.settings.allowBlindSign = blindSignEnabled ∨
          keypair.publicKey = app.ctx.txInfo.transactionQubic.sourcePublicKey
      · rw [validateTransaction_signed dev app hkey hpass]
        exact ⟨⟨rfl, rfl, rfl, rfl, rfl, rfl⟩, rfl, rfl⟩
      · rw [validateTransaction_mismatch dev app hkey (fun h => hpass (Or.inl h))
          (fun h => hpass (Or.inr h))]
        exact ⟨⟨rfl, rfl, rfl, rfl, rfl, rfl⟩, rfl, rfl⟩

theorem validatePubkey_fst (confirm : Bool) : (validatePubkey app confirm).1 = app := by
  cases confirm <;> rfl

/-- The state after the callback of a review. -/
theorem reviewChoice_fst (kind : ReviewKind) (confirm : Bool) :
    (reviewChoice dev app kind confirm).1
      = if kind = .address then app else (validateTransaction dev app confirm).1 := by
  unfold reviewChoice
  cases kind with
  | address => exact validatePubkey_fst app confirm
  | clear => dsimp only; split <;> rfl
  | blind => dsimp only; split <;> rfl

theorem reviewChoice_keeps (kind : ReviewKind) (confirm : Bool) :
    SameData app.ctx (reviewChoice dev app kind confirm).1.ctx ∧
    (reviewChoice dev app kind confirm).1.screen = app.screen ∧
    (reviewChoice dev app kind confirm).1.storage = app.storage := by
  rw [reviewChoice_fst]
  split
  · exact ⟨⟨rfl, rfl, rfl, rfl, rfl, rfl⟩, rfl, rfl⟩
  · exact validateTransaction_keeps dev app confirm

/-- The actions a decision can take: it derives with the path of the context
and signs its digest, and neither appends nor shows a review. -/
def DecisionAction (ctx : GlobalCtx) : Action → Prop
  | .respond _ _ => True
  | .append _ _ _ => False
  | .derive path len => path = ctx.bip32Path ∧ len = ctx.bip32PathLen
  | .sign _ _ digest => digest = ctx.txInfo.mHash.cells
  | .review _ => False
  | .status _ => True
  | .throw _ => True

theorem validateTransaction_actions (confirm : Bool) :
    ∀ a ∈ (validateTransaction dev app confirm).2, DecisionAction app.ctx a := by
  intro a ha
  cases confirm with
  | false =>
    rw [validateTransaction_refused] at ha
    rw [List.mem_singleton.mp ha]
    trivial
  | true =>
    cases hkey : deriveQubicKeypair dev.sdk dev.fourQ app.ctx.bip32Path app.ctx.bip32PathLen with
    | error err =>
      rw [validateTransaction_threw dev app hkey] at ha
      rcases List.mem_pair.mp ha with rfl | rfl
      · exact ⟨rfl, rfl⟩
      · trivial
    | ok keypair =>
      by_cases hpass : app.storage.settings.allowBlindSign = blindSignEnabled ∨
          keypair.publicKey = app.ctx.txInfo.transactionQubic.sourcePublicKey
      · rw [validateTransaction_signed dev app hkey hpass] at ha
        rcases List.mem_cons.mp ha with rfl | ha
        · exact ⟨rfl, rfl⟩
        · rcases List.mem_pair.mp ha with rfl | rfl
          · rfl
          · trivial
      · rw [validateTransaction_mismatch dev app hkey (fun h => hpass (Or.inl h))
          (fun h => hpass (Or.inr h))] at ha
        rcases List.mem_pair.mp ha with rfl | rfl
        · exact ⟨rfl, rfl⟩
        · trivial

/-- The closing page is only shown. -/
theorem closingPage_status {build : Build} {page : StatusPage} {a : Action}
    (ha : a ∈ closingPage build page) : a = .status page := by
  unfold closingPage at ha
  split at ha
  · exact List.mem_singleton.mp ha
  · exact absurd ha List.not_mem_nil

theorem closingPage_actions (ctx : GlobalCtx) (page : StatusPage) :
    ∀ a ∈ closingPage dev.build page, DecisionAction ctx a := by
  intro a ha
  rw [closingPage_status ha]
  trivial

theorem reviewChoice_actions (kind : ReviewKind) (confirm : Bool) :
    ∀ a ∈ (reviewChoice dev app kind confirm).2, DecisionAction app.ctx a := by
  intro a ha
  have htx : ∀ page, a ∈ (validateTransaction dev app confirm).2 ∨ a ∈ closingPage dev.build page →
      DecisionAction app.ctx a := by
    rintro page (h | h)
    · exact validateTransaction_actions dev app confirm a h
    · exact closingPage_actions dev app.ctx page a h
  unfold reviewChoice at ha
  cases kind with
  | address =>
    rcases List.mem_append.mp ha with h | h
    · unfold validatePubkey at h
      cases confirm with
      | true => rw [List.mem_singleton.mp h]; trivial
      | false => rw [List.mem_singleton.mp h]; trivial
    · exact closingPage_actions dev app.ctx _ a h
  | clear =>
    dsimp only at ha
    split at ha
    · exact htx .transactionSigned (Or.inl ha)
    · exact htx _ (List.mem_append.mp ha)
  | blind =>
    dsimp only at ha
    split at ha
    · exact htx .transactionSigned (Or.inl ha)
    · exact htx _ (List.mem_append.mp ha)

end Decide

/-! ## All outcomes -/

/-- The outcomes of event `e` in state `s`. -/
inductive Effect (dev : Device) (s : App) (e : Event) : App → List Action → Prop
  /-- Neither context handler nor a review's callback runs. -/
  | idle (storage : InternalStorage) (acts : List Action) (hreq : s.request e = .other)
      (hstorage : s.screen ≠ none → storage = s.storage)
      (hacts : acts = [] ∨ ∃ rdata sw, acts = [.respond rdata sw]) :
      Effect dev s e { s with storage := storage } acts
  | decided (r : Review) (confirm : Bool) (hreq : s.request e = .other) (hlive : s.exited = false)
      (he : e = .decide confirm) (hscreen : s.screen = some r) :
      Effect dev s e (reviewChoice dev { s with screen := none } r.kind confirm).1
        (reviewChoice dev { s with screen := none } r.kind confirm).2
  | pubkeyRefused (display : Bool) (data : List UInt8) (p : FixedBuf UInt32 maxBip32Path)
      (hreq : s.request e = .getPublicKey display data) (hpath : pathOf data = none) :
      Effect dev s e { s with ctx := .opened .confirmAddress (pathLenOf data) p }
        [ioSendSw .wrongDataLength]
  | pubkeyThrew (display : Bool) (data : List UInt8) (path : List UInt32) (err : UInt32)
      (hreq : s.request e = .getPublicKey display data) (hpath : pathOf data = some path)
      (hkey : deriveQubicKeypair dev.sdk dev.fourQ (storedPath path) (UInt8.ofNat path.length)
        = .error err) :
      Effect dev s e { s with ctx := .openedAt .confirmAddress path, exited := true }
        [.derive (storedPath path) (UInt8.ofNat path.length), .throw err]
  | pubkeySent (data : List UInt8) (path : List UInt32) (keypair : QubicKeypair)
      (hreq : s.request e = .getPublicKey false data) (hpath : pathOf data = some path)
      (hkey : deriveQubicKeypair dev.sdk dev.fourQ (storedPath path) (UInt8.ofNat path.length)
        = .ok keypair) :
      Effect dev s e { s with ctx := pubkeyCtx path keypair }
        [.derive (storedPath path) (UInt8.ofNat path.length),
          .respond keypair.publicKey.cells .ok]
  | pubkeyShown (data : List UInt8) (path : List UInt32) (keypair : QubicKeypair)
      (hreq : s.request e = .getPublicKey true data) (hpath : pathOf data = some path)
      (hkey : deriveQubicKeypair dev.sdk dev.fourQ (storedPath path) (UInt8.ofNat path.length)
        = .ok keypair) :
      Effect dev s e
        { s with
          ctx := pubkeyCtx path keypair
          screen := some (addressReview keypair.publicKey.cells) }
        [.derive (storedPath path) (UInt8.ofNat path.length),
          .review (addressReview keypair.publicKey.cells)]
  | firstRefused (more : Bool) (data : List UInt8) (p : FixedBuf UInt32 maxBip32Path)
      (hreq : s.request e = .signTx 0 more data) (hpath : pathOf data = none) :
      Effect dev s e { s with ctx := .opened .confirmTransaction (pathLenOf data) p }
        [ioSendSw .wrongDataLength]
  | firstEmpty (more : Bool) (data : List UInt8)
      (hreq : s.request e = .signTx 0 more data) (hpath : pathOf data = some []) :
      Effect dev s e { s with ctx := .openedAt .confirmTransaction [] }
        [ioSendSw .wrongBip32PathLength]
  | nextRefused (chunk : UInt8) (more : Bool) (data : List UInt8)
      (hreq : s.request e = .signTx chunk more data) (hchunk : chunk ≠ 0)
      (hentry : entry s.ctx chunk data = none) :
      Effect dev s e s [ioSendSw (continuationError s.ctx)]
  | kept (chunk : UInt8) (data : List UInt8) (base : GlobalCtx) (body : List UInt8)
      (hreq : s.request e = .signTx chunk true data)
      (hentry : entry s.ctx chunk data = some (base, body)) :
      Effect dev s e { s with ctx := base.appended body }
        [.append base.txInfo.rawTxLen data.length (data.length - body.length), ioSendSw .ok]
  | shownClear (chunk : UInt8) (data : List UInt8) (base : GlobalCtx) (body : List UInt8)
      (hreq : s.request e = .signTx chunk false data)
      (hentry : entry s.ctx chunk data = some (base, body))
      (haccept : Parses (base.appended body).received) :
      Effect dev s e
        { s with
          ctx := (base.appended body).finished
          screen := some (clearReview dev.build s.storage.settings
            (decodeTransaction (base.appended body).received)) }
        [.append base.txInfo.rawTxLen data.length (data.length - body.length),
          .review (clearReview dev.build s.storage.settings
            (decodeTransaction (base.appended body).received))]
  | shownBlind (chunk : UInt8) (data : List UInt8) (base : GlobalCtx) (body : List UInt8)
      (hreq : s.request e = .signTx chunk false data)
      (hentry : entry s.ctx chunk data = some (base, body))
      (hreject : ¬Parses (base.appended body).received)
      (hblind : s.storage.settings.allowBlindSign = blindSignEnabled) :
      Effect dev s e
        { s with
          ctx := (base.appended body).finished
          screen := some (blindReview dev.build s.storage.settings
            (base.appended body).finished.txInfo.transactionQubic) }
        [.append base.txInfo.rawTxLen data.length (data.length - body.length),
          .review (blindReview dev.build s.storage.settings
            (base.appended body).finished.txInfo.transactionQubic)]
  | rejected (chunk : UInt8) (data : List UInt8) (base : GlobalCtx) (body : List UInt8)
      (hreq : s.request e = .signTx chunk false data)
      (hentry : entry s.ctx chunk data = some (base, body))
      (hreject : ¬Parses (base.appended body).received)
      (hblind : s.storage.settings.allowBlindSign ≠ blindSignEnabled) :
      Effect dev s e { s with ctx := (base.appended body).finished }
        [.append base.txInfo.rawTxLen data.length (data.length - body.length),
          ioSendSw .txParsingFail]

/-- A command that reaches `handler_get_public_key`. -/
theorem step_getPublicKey (dev : Device) {s : App} {e : Event} {display : Bool}
    {data : List UInt8} (hreq : s.request e = .getPublicKey display data) :
    step dev s e = handlerGetPublicKey dev s (.ofData data) display := by
  have hother : s.request e ≠ .other := by
    rw [hreq]
    simp
  obtain ⟨hlive, cmd, rfl, hcmd⟩ := App.request_ne_other hother
  have hdispatched := apduDispatcher_dispatched dev s cmd
  rw [← hcmd, hreq] at hdispatched
  unfold step
  rw [if_neg (by rw [hlive]; exact Bool.false_ne_true)]
  exact hdispatched

/-- A command that reaches `handler_sign_tx`. -/
theorem step_signTx (dev : Device) {s : App} {e : Event} {chunk : UInt8} {more : Bool}
    {data : List UInt8} (hreq : s.request e = .signTx chunk more data) :
    step dev s e = handlerSignTx dev s (.ofData data) chunk more := by
  have hother : s.request e ≠ .other := by
    rw [hreq]
    simp
  obtain ⟨hlive, cmd, rfl, hcmd⟩ := App.request_ne_other hother
  have hdispatched := apduDispatcher_dispatched dev s cmd
  rw [← hcmd, hreq] at hdispatched
  unfold step
  rw [if_neg (by rw [hlive]; exact Bool.false_ne_true)]
  exact hdispatched

/-- A decision on the review on screen. -/
theorem step_decide (dev : Device) {s : App} {r : Review} (confirm : Bool)
    (hlive : s.exited = false) (hscreen : s.screen = some r) :
    step dev s (.decide confirm) = reviewChoice dev { s with screen := none } r.kind confirm := by
  unfold step
  rw [if_neg (by rw [hlive]; exact Bool.false_ne_true), hscreen]

/-- An event that is no request: nothing, an answer or a setting; or a decision. -/
theorem step_other_cases (dev : Device) {s : App} {e : Event} (hreq : s.request e = .other) :
    (∃ storage acts, step dev s e = ({ s with storage := storage }, acts) ∧
      (s.screen ≠ none → storage = s.storage) ∧
      (acts = [] ∨ ∃ rdata sw, acts = [.respond rdata sw])) ∨
    ∃ r confirm, s.exited = false ∧ e = .decide confirm ∧ s.screen = some r ∧
      step dev s e = reviewChoice dev { s with screen := none } r.kind confirm := by
  unfold App.request at hreq
  by_cases hexited : s.exited = true
  · refine Or.inl ⟨s.storage, [], ?_, fun _ => rfl, Or.inl rfl⟩
    unfold step
    rw [if_pos hexited]
  · rw [if_neg hexited] at hreq
    have hlive : s.exited = false := Bool.eq_false_iff.mpr hexited
    cases e with
    | apdu cmd =>
      have hdispatched := apduDispatcher_dispatched dev s cmd
      dsimp only at hreq
      rw [hreq] at hdispatched
      obtain ⟨rdata, sw, hout⟩ := hdispatched
      refine Or.inl ⟨s.storage, _, ?_, fun _ => rfl, Or.inr ⟨rdata, sw, rfl⟩⟩
      unfold step
      rw [if_neg hexited]
      exact hout
    | badApdu =>
      refine Or.inl ⟨s.storage, _, ?_, fun _ => rfl, Or.inr ⟨[], .wrongDataLength, rfl⟩⟩
      unfold step
      rw [if_neg hexited]
      rfl
    | decide confirm =>
      rcases Option.eq_none_or_eq_some s.screen with hscreen | ⟨r, hscreen⟩
      · refine Or.inl ⟨s.storage, [], ?_, fun _ => rfl, Or.inl rfl⟩
        show step dev s (.decide confirm) = (s, [])
        unfold step
        rw [if_neg hexited]
        dsimp only
        rw [hscreen]
      · exact Or.inr ⟨r, confirm, hlive, rfl, hscreen, step_decide dev confirm hlive hscreen⟩
    | setting setting on =>
      rcases Option.eq_none_or_eq_some s.screen with hscreen | ⟨r, hscreen⟩
      · refine Or.inl ⟨{ s.storage with
            settings := changeSetting dev.build s.storage.settings setting on }, [], ?_,
          fun h => absurd hscreen h, Or.inl rfl⟩
        unfold step
        rw [if_neg hexited]
        dsimp only
        rw [hscreen]
      · refine Or.inl ⟨s.storage, [], ?_, fun _ => rfl, Or.inl rfl⟩
        show step dev s (.setting setting on) = (s, [])
        unfold step
        rw [if_neg hexited]
        dsimp only
        rw [hscreen]

theorem step_effect_other (dev : Device) {s : App} {e : Event} (hreq : s.request e = .other) :
    Effect dev s e (step dev s e).1 (step dev s e).2 := by
  rcases step_other_cases dev hreq with
    ⟨storage, acts, hstep, hstorage, hacts⟩ | ⟨r, confirm, hlive, he, hscreen, hstep⟩
  · rw [hstep]
    exact .idle storage acts hreq hstorage hacts
  · rw [hstep]
    exact .decided r confirm hreq hlive he hscreen

/-- Every event has one of the listed outcomes. -/
theorem step_effect (dev : Device) {s : App} (e : Event)
    (hlen : s.ctx.txInfo.rawTxLen ≤ maxTransactionLen) :
    Effect dev s e (step dev s e).1 (step dev s e).2 := by
  cases hreq : s.request e with
  | other => exact step_effect_other dev hreq
  | getPublicKey display data =>
    obtain ⟨hne, -⟩ := App.getPublicKey_data hreq
    rw [step_getPublicKey dev hreq]
    cases hpath : pathOf data with
    | none =>
      obtain ⟨p, hout⟩ := handlerGetPublicKey_refused dev s display hne hpath
      rw [hout]
      exact .pubkeyRefused display data p hreq hpath
    | some path =>
      cases hkey : deriveQubicKeypair dev.sdk dev.fourQ (storedPath path)
          (UInt8.ofNat path.length) with
      | error err =>
        rw [handlerGetPublicKey_threw dev s display hpath hkey]
        exact .pubkeyThrew display data path err hreq hpath hkey
      | ok keypair =>
        rw [handlerGetPublicKey_derived dev s display hpath hkey]
        cases display with
        | true => exact .pubkeyShown data path keypair hreq hpath hkey
        | false => exact .pubkeySent data path keypair hreq hpath hkey
  | signTx chunk more data =>
    obtain ⟨hne, hdata⟩ := App.signTx_data hreq
    rw [step_signTx dev hreq]
    cases hentry : entry s.ctx chunk data with
    | some into =>
      obtain ⟨base, body⟩ := into
      rw [handlerSignTx_entry dev s more hdata hentry]
      cases more with
      | true => exact .kept chunk data base body hreq hentry
      | false =>
        rw [if_neg Bool.false_ne_true, signTxFinish_eq]
        -- the three ways a final chunk ends
        by_cases haccept : Parses (base.appended body).received
        · rw [if_pos haccept]
          exact .shownClear chunk data base body hreq hentry haccept
        · rw [if_neg haccept]
          by_cases hblind : s.storage.settings.allowBlindSign = blindSignEnabled
          · rw [if_pos hblind]
            exact .shownBlind chunk data base body hreq hentry haccept hblind
          · rw [if_neg hblind]
            exact .rejected chunk data base body hreq hentry haccept hblind
    | none =>
      by_cases hchunk : chunk = 0
      · subst hchunk
        rcases entry_first_none hentry with hpath | hpath
        · obtain ⟨p, hout⟩ := handlerSignTx_first_refused dev s more hne hpath
          rw [hout]
          exact .firstRefused more data p hreq hpath
        · rw [handlerSignTx_first_empty dev s more hpath]
          exact .firstEmpty more data hreq hpath
      · rw [handlerSignTx_next_refused dev s more hchunk hdata hlen hentry]
        exact .nextRefused chunk more data hreq hchunk hentry

theorem appended_rawTxLen (ctx : GlobalCtx) (body : List UInt8) :
    (ctx.appended body).txInfo.rawTxLen = ctx.txInfo.rawTxLen + body.length := rfl

/-- A chunk that is let in leaves `raw_tx_len` within `raw_tx`. -/
theorem entry_appended_le {s : App} {e : Event} {chunk : UInt8} {more : Bool}
    {data body : List UInt8} {base : GlobalCtx} (hreq : s.request e = .signTx chunk more data)
    (hentry : entry s.ctx chunk data = some (base, body)) :
    (base.appended body).txInfo.rawTxLen ≤ maxTransactionLen := by
  obtain ⟨-, hfit, hbody⟩ := entry_fits (App.signTx_data hreq).2 hentry
  rw [appended_rawTxLen]
  exact Nat.le_trans (Nat.add_le_add_left hbody _) hfit

/-- One event keeps `raw_tx_len` within `raw_tx`. -/
theorem step_rawTxLen_le (dev : Device) {s : App} (e : Event)
    (hlen : s.ctx.txInfo.rawTxLen ≤ maxTransactionLen) :
    (step dev s e).1.ctx.txInfo.rawTxLen ≤ maxTransactionLen := by
  have heffect := step_effect dev e hlen
  generalize (step dev s e).1 = s' at heffect ⊢
  generalize (step dev s e).2 = acts at heffect
  cases heffect with
  | idle storage acts hreq hstorage hacts => exact hlen
  | decided r confirm hreq hlive he hscreen =>
    rw [(reviewChoice_keeps dev _ r.kind confirm).1.rawTxLen]
    exact hlen
  | pubkeyRefused => exact Nat.zero_le _
  | pubkeyThrew => exact Nat.zero_le _
  | pubkeySent => exact Nat.zero_le _
  | pubkeyShown => exact Nat.zero_le _
  | firstRefused => exact Nat.zero_le _
  | firstEmpty => exact Nat.zero_le _
  | nextRefused => exact hlen
  | kept chunk data base body hreq hentry => exact entry_appended_le hreq hentry
  | shownClear chunk data base body hreq hentry => exact entry_appended_le hreq hentry
  | shownBlind chunk data base body hreq hentry => exact entry_appended_le hreq hentry
  | rejected chunk data base body hreq hentry => exact entry_appended_le hreq hentry

/-- In every reachable state `raw_tx_len` is within `raw_tx`. -/
theorem rawTxLen_le {dev : Device} {s : App} {log : Log} (hrun : (machine dev).Run s log) :
    s.ctx.txInfo.rawTxLen ≤ maxTransactionLen := by
  refine Lib.Machine.Run.invariant (P := fun s _ => s.ctx.txInfo.rawTxLen ≤ maxTransactionLen)
    ?_ ?_ hrun
  · rintro s ⟨persisted, rfl⟩
    exact Nat.zero_le _
  · intro s log e _ hlen
    exact step_rawTxLen_le dev e hlen

/-- The outcome of one more event of a run. -/
theorem run_effect {dev : Device} {s : App} {log : Log} (hrun : (machine dev).Run s log)
    (e : Event) : Effect dev s e ((machine dev).step s e).1 ((machine dev).step s e).2 :=
  step_effect dev e (rawTxLen_le hrun)

/-! ## Induction over runs -/

/-- One more turn `t` of a run: event `e` takes `s` to `s'` with the actions `acts`. -/
structure TurnOf (dev : Device) (s : App) (log : Log) (e : Event) (t : Turn) (s' : App)
    (acts : List Action) : Prop where
  before : (machine dev).Run s log
  after : (machine dev).Run s' (t :: log)
  pre : t.pre = s
  event : t.event = e
  request : request t = s.request e
  actions : t.actions = acts
  effect : Effect dev s e s' acts

theorem turnOf_run {dev : Device} {s : App} {log : Log} (hrun : (machine dev).Run s log)
    (e : Event) : TurnOf dev s log e ((machine dev).turn s e) ((machine dev).step s e).1
      ((machine dev).step s e).2 :=
  ⟨hrun, hrun.step e, rfl, rfl, rfl, rfl, run_effect hrun e⟩

/-- The induction rule for runs, with the outcome of each turn at hand. -/
theorem run_induction {dev : Device} {P : App → Log → Prop}
    (hstart : ∀ persisted, P (appMain persisted) [])
    (hstep : ∀ s log e t s' acts, TurnOf dev s log e t s' acts → P s log → P s' (t :: log))
    {s : App} {log : Log} (hrun : (machine dev).Run s log) : P s log := by
  refine Lib.Machine.Run.invariant ?_ ?_ hrun
  · intro s hstart'
    obtain ⟨persisted, rfl⟩ := hstart'
    exact hstart persisted
  · intro s log e hrun ih
    exact hstep _ _ _ _ _ _ (turnOf_run hrun e) ih

/-- The same for runs whose turns all meet a condition. -/
theorem run_induction_of {dev : Device} {C : Turn → Log → Prop} {P : App → Log → Prop}
    (hstart : ∀ persisted, P (appMain persisted) [])
    (hstep : ∀ s log e t s' acts, TurnOf dev s log e t s' acts → C t log → P s log →
      P s' (t :: log))
    {s : App} {log : Log} (hrun : (machine dev).Run s log)
    (hC : Lib.Machine.Throughout C log) : P s log := by
  refine Lib.Machine.Run.invariant_of ?_ ?_ hrun hC
  · intro s hstart'
    obtain ⟨persisted, rfl⟩ := hstart'
    exact hstart persisted
  · intro s log e hrun hcond ih
    exact hstep _ _ _ _ _ _ (turnOf_run hrun e) hcond ih

end QubicLedger
