import QubicLedger.Session.Split
import QubicLedger.Lib.Refinement

/-!
# The two builds, seen from the host

The NBGL and the BAGL build share the handlers and differ in what they put on
screen. A host cannot tell which one it talks to: the same commands and decisions
get the same answers, for the same calls of the SDK and of the signing code, as
long as nobody uses the entry for blind signing, which one build flips and the
other sets (`builds_agree`).
-/

namespace QubicLedger

/-- What does not go to the screen. -/
def Action.toHost : Action → Option Action
  | .review _ => none
  | .status _ => none
  | a => some a

/-- The same device with another build of the app. -/
def Device.on (dev : Device) (build : Build) : Device := { dev with build := build }

/-- Two apps that hold the same for a host, with reviews of the same kind on screen. -/
structure SameForHost (app app' : App) : Prop where
  ctx : app.ctx = app'.ctx
  exited : app.exited = app'.exited
  blind : app.storage.settings.allowBlindSign = app'.storage.settings.allowBlindSign
  screen : app.screen.map Review.kind = app'.screen.map Review.kind

/-- Two outcomes that are the same for a host. -/
def SameOutcome (out out' : App × List Action) : Prop :=
  SameForHost out.1 out'.1 ∧ out.2.filterMap Action.toHost = out'.2.filterMap Action.toHost

/-- An action in front. -/
theorem SameOutcome.cons {out out' : App × List Action} (hout : SameOutcome out out')
    (a : Action) : SameOutcome (out.1, a :: out.2) (out'.1, a :: out'.2) := by
  refine ⟨hout.1, ?_⟩
  rw [List.filterMap_cons, List.filterMap_cons, hout.2]

theorem toHost_closingPage (build : Build) (page : StatusPage) :
    (closingPage build page).filterMap Action.toHost = [] := by
  cases build with
  | nbgl => rfl
  | bagl => rfl

section Handlers

variable {app app' : App} (h : SameForHost app app')

include h

/-- The same answer, the context and everything else left alone. -/
theorem SameForHost.answer (acts : List Action) : SameOutcome (app, acts) (app', acts) :=
  ⟨h, rfl⟩

theorem SameForHost.withCtx (ctx : GlobalCtx) :
    SameForHost { app with ctx := ctx } { app' with ctx := ctx } :=
  ⟨rfl, h.exited, h.blind, h.screen⟩

/-- Reviews of one kind are put up. -/
theorem SameForHost.show {r r' : Review} (hkind : r.kind = r'.kind) (ctx : GlobalCtx) :
    SameOutcome ({ app with ctx := ctx, screen := some r }, [.review r])
      ({ app' with ctx := ctx, screen := some r' }, [.review r']) :=
  ⟨⟨rfl, h.exited, h.blind, congrArg some hkind⟩, rfl⟩

theorem SameForHost.handlerGetPublicKey (dev : Device) (cdata : Buffer) (display : Bool) :
    SameOutcome (QubicLedger.handlerGetPublicKey dev app cdata display)
      (QubicLedger.handlerGetPublicKey dev app' cdata display) := by
  unfold QubicLedger.handlerGetPublicKey
  dsimp only
  by_cases hpath : (readPath dev.sdk (.reset .confirmAddress) cdata).1 = true
  · rw [if_neg (not_not_intro hpath), if_neg (not_not_intro hpath)]
    generalize (readPath dev.sdk (.reset .confirmAddress) cdata).2.1 = ctx
    cases hkey : deriveQubicKeypair dev.sdk dev.fourQ ctx.bip32Path ctx.bip32PathLen with
    | error err => exact ⟨⟨rfl, rfl, h.blind, h.screen⟩, rfl⟩
    | ok keypair =>
      apply SameOutcome.cons
      cases display with
      | false => exact (h.withCtx _).answer _
      | true =>
        rw [if_pos rfl, if_pos rfl]
        unfold uiDisplayAddress
        dsimp only
        split
        · exact (h.withCtx _).answer _
        · exact h.show rfl _
  · rw [if_pos hpath, if_pos hpath]
    exact (h.withCtx _).answer _

/-- The last chunk: the builds show the same kind of review, or refuse alike. -/
theorem SameForHost.signTxFinish (dev : Device) (build build' : Build) :
    SameOutcome (QubicLedger.signTxFinish (dev.on build) app)
      (QubicLedger.signTxFinish (dev.on build') app') := by
  rw [signTxFinish_eq, signTxFinish_eq, ← h.ctx, ← h.blind]
  split
  · exact h.show (by rw [clearReview_kind, clearReview_kind]) _
  · split
    · exact h.show (by rw [blindReview_kind, blindReview_kind]) _
    · exact (h.withCtx _).answer _

theorem SameForHost.signTxAppend (dev : Device) (build build' : Build) (cdata : Buffer)
    (more : Bool) :
    SameOutcome (QubicLedger.signTxAppend (dev.on build) app cdata more)
      (QubicLedger.signTxAppend (dev.on build') app' cdata more) := by
  unfold QubicLedger.signTxAppend
  dsimp only [Device.on]
  rw [← h.ctx]
  split
  · exact h.answer _
  · split
    · exact h.answer _
    · split
      · exact (h.withCtx _).answer _
      · split
        · exact (h.withCtx _).answer _
        · apply SameOutcome.cons
          exact (h.withCtx _).signTxFinish dev build build'

theorem SameForHost.handlerSignTx (dev : Device) (build build' : Build) (cdata : Buffer)
    (chunk : UInt8) (more : Bool) :
    SameOutcome (QubicLedger.handlerSignTx (dev.on build) app cdata chunk more)
      (QubicLedger.handlerSignTx (dev.on build') app' cdata chunk more) := by
  unfold QubicLedger.handlerSignTx
  dsimp only [Device.on]
  split
  · split
    · exact (h.withCtx _).answer _
    · exact (h.withCtx _).signTxAppend dev build build' _ more
  · exact h.signTxAppend dev build build' cdata more

theorem SameForHost.apduDispatcher (dev : Device) (build build' : Build) (cmd : Command) :
    SameOutcome (QubicLedger.apduDispatcher (dev.on build) app cmd)
      (QubicLedger.apduDispatcher (dev.on build') app' cmd) := by
  unfold QubicLedger.apduDispatcher
  -- one branch a command, with its checks in front
  split_ifs
  all_goals first
    | exact h.answer _
    | exact h.handlerGetPublicKey dev _ _
    | exact h.handlerSignTx dev build build' _ _ _

/-- Approving or rejecting a transaction. -/
theorem SameForHost.validateTransaction (dev : Device) (confirm : Bool) :
    SameOutcome (QubicLedger.validateTransaction dev app confirm)
      (QubicLedger.validateTransaction dev app' confirm) := by
  cases confirm with
  | false =>
    show SameOutcome ({ app with ctx := { app.ctx with state := .none } }, _)
      ({ app' with ctx := { app'.ctx with state := .none } }, _)
    rw [← h.ctx]
    exact (h.withCtx _).answer _
  | true =>
    have hcalls : cryptoSignMessage dev app'.storage.settings { app'.ctx with state := .approved }
        = cryptoSignMessage dev app.storage.settings { app.ctx with state := .approved } := by
      unfold cryptoSignMessage
      rw [h.ctx, h.blind]
    unfold QubicLedger.validateTransaction
    rw [if_pos rfl, if_pos rfl]
    dsimp only
    rw [hcalls]
    generalize cryptoSignMessage dev app.storage.settings { app.ctx with state := .approved } = r
    obtain ⟨result, ctx, acts⟩ := r
    cases result with
    | threw err => exact ⟨⟨rfl, rfl, h.blind, h.screen⟩, rfl⟩
    | failed => exact (h.withCtx _).answer _
    | signed => exact (h.withCtx ctx).answer _

/-- A decision: only the closing page differs. -/
theorem SameForHost.reviewChoice (dev : Device) (build build' : Build) (kind : ReviewKind)
    (confirm : Bool) :
    SameOutcome (QubicLedger.reviewChoice (dev.on build) app kind confirm)
      (QubicLedger.reviewChoice (dev.on build') app' kind confirm) := by
  have hclose : ∀ {out out' : App × List Action} {page : StatusPage}, SameOutcome out out' →
      SameOutcome (out.1, out.2 ++ closingPage build page)
        (out'.1, out'.2 ++ closingPage build' page) := by
    intro out out' page hout
    refine ⟨hout.1, ?_⟩
    rw [List.filterMap_append, List.filterMap_append, toHost_closingPage, toHost_closingPage, hout.2]
  unfold QubicLedger.reviewChoice
  cases kind with
  | address =>
    apply hclose
    cases confirm with
    | false => exact h.answer _
    | true =>
      show SameOutcome (app, [.respond app.ctx.rawPublicKey .ok])
        (app', [.respond app'.ctx.rawPublicKey .ok])
      rw [← h.ctx]
      exact h.answer _
  | clear | blind =>
    have hvalidate := h.validateTransaction dev confirm
    have hexited := hvalidate.1.exited
    dsimp only
    change SameOutcome (if (QubicLedger.validateTransaction dev app confirm).1.exited then _ else _)
      (if (QubicLedger.validateTransaction dev app' confirm).1.exited then _ else _)
    rw [← hexited]
    split
    · exact hvalidate
    · exact hclose hvalidate

end Handlers

/-- The entry for blind signing is left alone. -/
def Event.LeavesBlindSign (e : Event) : Prop := ∀ on, e ≠ .setting .blindSign on

theorem allowBlindSign_changeSetting {build : Build} {settings : AppSettings} {x : Setting}
    (hx : x ≠ .blindSign) (on : Bool) :
    (changeSetting build settings x on).allowBlindSign = settings.allowBlindSign := by
  cases x with
  | blindSign => exact absurd rfl hx
  | displayMode => rfl
  | pubkeyDisplay => cases build <;> rfl

theorem builds_indistinguishable (dev : Device) (build build' : Build) :
    Lib.Machine.Indistinguishable (machine (dev.on build)) (machine (dev.on build')) SameForHost
      Event.LeavesBlindSign Action.toHost Action.toHost := by
  intro s s' e hok h
  rw [machine_step, machine_step]
  unfold step
  by_cases hexited : s.exited = true
  · rw [if_pos hexited, if_pos (h.exited.symm.trans hexited)]
    exact h.answer _
  rw [if_neg hexited, if_neg (h.exited ▸ hexited)]
  cases e with
  | apdu cmd => exact h.apduDispatcher dev build build' cmd
  | badApdu => exact h.answer _
  | decide confirm =>
    dsimp only
    have hscreen := h.screen
    cases hs : s.screen with
    | none =>
      rw [hs, Option.map_none, eq_comm, Option.map_eq_none_iff] at hscreen
      rw [hscreen]
      exact h.answer _
    | some r =>
      rw [hs, Option.map_some, eq_comm, Option.map_eq_some_iff] at hscreen
      obtain ⟨r', hs', hkind⟩ := hscreen
      rw [hs']
      dsimp only
      rw [← hkind]
      have hidle : SameForHost { s with screen := none } { s' with screen := none } :=
        ⟨h.ctx, h.exited, h.blind, rfl⟩
      exact hidle.reviewChoice dev build build' r'.kind confirm
  | setting x on =>
    dsimp only
    have hx : x ≠ .blindSign := by
      rintro rfl
      exact hok on rfl
    have hscreen := h.screen
    cases hs : s.screen with
    | none =>
      rw [hs, Option.map_none, eq_comm, Option.map_eq_none_iff] at hscreen
      rw [hscreen]
      dsimp only
      refine ⟨⟨h.ctx, h.exited, ?_, rfl⟩, rfl⟩
      dsimp only
      rw [allowBlindSign_changeSetting hx, allowBlindSign_changeSetting hx]
      exact h.blind
    | some r =>
      rw [hs, Option.map_some, eq_comm, Option.map_eq_some_iff] at hscreen
      obtain ⟨r', hs', -⟩ := hscreen
      rw [hs']
      exact h.answer _

/-- Whatever a host sends and the user decides, from the same storage: both builds
answer alike, ask the SDK for the same keys, sign the same and hold the same. -/
theorem builds_agree (dev : Device) (build build' : Build) (persisted : InternalStorage)
    {events : List Event} (h : ∀ e ∈ events, e.LeavesBlindSign) :
    let out := (machine (dev.on build)).exec (appMain persisted) [] events
    let out' := (machine (dev.on build')).exec (appMain persisted) [] events
    SameForHost out.1 out'.1 ∧
      Lib.Machine.observed Action.toHost out.2 = Lib.Machine.observed Action.toHost out'.2 :=
  (builds_indistinguishable dev build build').exec h ⟨rfl, rfl, rfl, rfl⟩ rfl

/-- The expert display is chosen, and a transfer is sent and approved. -/
def expertTransferEvents : List Event :=
  [.setting .displayMode true, .apdu (signTxCommand 0 p2Last (transferChunk 1)), .decide true]

theorem builds_agree_expert :
    Lib.Machine.observed Action.toHost ((machine ((sampleDevice .nbgl).on .nbgl)).exec
        (appMain .default) [] expertTransferEvents).2
      = Lib.Machine.observed Action.toHost ((machine ((sampleDevice .nbgl).on .bagl)).exec
        (appMain .default) [] expertTransferEvents).2 := by
  refine (builds_agree (sampleDevice .nbgl) .nbgl .bagl .default ?_).2
  intro e he on heq
  subst heq
  simp [expertTransferEvents] at he

end QubicLedger
