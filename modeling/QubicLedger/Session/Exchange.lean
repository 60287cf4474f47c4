import QubicLedger.Session.Outcome
import QubicLedger.Session.Pending

/-!
# The exchange with the host

Every command is dealt with in one of three ways: it is answered, it puts up a
review, or it ends the app. A review is answered for when the user decides it;
one that another review replaces is never answered for. `exchange_balance` is
the account of this over a whole run: no answer is lost but for the replaced
reviews, and none is given twice.

`heldReview` says from the log which review is on screen. A signature can only
come of such a review, and deciding it takes it off the screen, so each
signature goes back to a final SIGN_TX command of its own
(`signatures_have_reviews`).
-/

namespace QubicLedger

/-! ## What a turn does -/

/-- The reviews among some actions. -/
def reviewsIn (acts : List Action) : List Review :=
  acts.filterMap fun a => match a with
    | .review r => some r
    | _ => none

/-- How often the app throws. -/
def throwsIn (acts : List Action) : Nat :=
  acts.countP fun a => match a with
    | .throw _ => true
    | _ => false

/-- The turn takes a command: an ended app receives nothing. -/
def takesCommand (t : Turn) : Bool :=
  match t.event with
  | .apdu _ | .badApdu => !t.pre.exited
  | _ => false

/-- The review that the turn decides. -/
def decidedReview (t : Turn) : Option Review :=
  match t.event with
  | .decide _ => if t.pre.exited then none else t.pre.screen
  | _ => none

/-- A review is put up over one that nobody decided. -/
def replacesReview (t : Turn) : Bool := !(reviewsIn t.actions).isEmpty && t.pre.screen.isSome

/-- The review on screen, from the log. -/
def heldReview : Log → Option Review
  | [] => none
  | t :: log =>
    match (reviewsIn t.actions).head? with
    | some r => some r
    | none => if (decidedReview t).isSome then none else heldReview log

/-- What has been exchanged so far. -/
structure Tally where
  commands : Nat
  answers : Nat
  throws : Nat
  replaced : Nat
deriving DecidableEq

/-- The tally of a log. -/
def tally : Log → Tally
  | [] => ⟨0, 0, 0, 0⟩
  | t :: log =>
    let n := tally log
    { commands := n.commands + (takesCommand t).toNat
      answers := n.answers + (responses t.actions).length
      throws := n.throws + throwsIn t.actions
      replaced := n.replaced + (replacesReview t).toNat }

/-! ## One turn -/

/-- A command or a decision is dealt with exactly once, only commands put up
reviews, and a review stays until it is decided or replaced. -/
structure Dealt (t : Turn) : Prop where
  once : (responses t.actions).length + throwsIn t.actions + (reviewsIn t.actions).length
    = (takesCommand t).toNat + (decidedReview t).isSome.toNat
  review : ∀ r ∈ reviewsIn t.actions, takesCommand t = true ∧
    (r.kind ≠ .address → ∃ chunk data, request t = .signTx chunk false data)
  screen : t.post.screen
    = match (reviewsIn t.actions).head? with
      | some r => some r
      | none => if (decidedReview t).isSome then none else t.pre.screen

/-- A turn that only answers, once or not at all. -/
theorem Dealt.of_answers {t : Turn} (hdecided : decidedReview t = none)
    (hscreen : t.post.screen = t.pre.screen)
    (hacts : (t.actions = [] ∧ takesCommand t = false) ∨
      ∃ rdata sw, t.actions = [.respond rdata sw] ∧ takesCommand t = true) : Dealt t := by
  have hno : reviewsIn t.actions = [] := by
    rcases hacts with ⟨h, -⟩ | ⟨rdata, sw, h, -⟩ <;> rw [h] <;> rfl
  refine ⟨?_, ?_, ?_⟩
  · rw [hdecided, hno]
    rcases hacts with ⟨h, htakes⟩ | ⟨rdata, sw, h, htakes⟩ <;> rw [h, htakes] <;> rfl
  · rw [hno]
    exact fun r hr => absurd hr List.not_mem_nil
  · rw [hno, hdecided]
    exact hscreen

section Decision

variable (dev : Device) (app : App)

/-- The closing page is neither an answer, a throw nor a review. -/
theorem counts_closingPage (acts : List Action) (page : StatusPage) :
    responses (acts ++ closingPage dev.build page) = responses acts ∧
    throwsIn (acts ++ closingPage dev.build page) = throwsIn acts ∧
    reviewsIn (acts ++ closingPage dev.build page) = reviewsIn acts := by
  unfold closingPage
  cases dev.build with
  | nbgl =>
    refine ⟨?_, ?_, ?_⟩
    · simp [responses]
    · simp [throwsIn]
    · simp [reviewsIn]
  | bagl =>
    dsimp only
    rw [List.append_nil]
    exact ⟨rfl, rfl, rfl⟩

/-- A decision on a transaction is answered, or the app throws. -/
theorem validateTransaction_once (confirm : Bool) :
    (responses (validateTransaction dev app confirm).2).length
      + throwsIn (validateTransaction dev app confirm).2 = 1 ∧
    reviewsIn (validateTransaction dev app confirm).2 = [] := by
  cases confirm with
  | false =>
    rw [validateTransaction_refused]
    exact ⟨rfl, rfl⟩
  | true =>
    cases hkey : deriveQubicKeypair dev.sdk dev.fourQ app.ctx.bip32Path app.ctx.bip32PathLen with
    | error err =>
      rw [validateTransaction_threw dev app hkey]
      exact ⟨rfl, rfl⟩
    | ok keypair =>
      by_cases hpass : app.storage.settings.allowBlindSign = blindSignEnabled ∨
          keypair.publicKey = app.ctx.txInfo.transactionQubic.sourcePublicKey
      · rw [validateTransaction_signed dev app hkey hpass]
        exact ⟨rfl, rfl⟩
      · rw [validateTransaction_mismatch dev app hkey (fun h => hpass (Or.inl h))
          (fun h => hpass (Or.inr h))]
        exact ⟨rfl, rfl⟩

theorem reviewChoice_once (kind : ReviewKind) (confirm : Bool) :
    (responses (reviewChoice dev app kind confirm).2).length
      + throwsIn (reviewChoice dev app kind confirm).2 = 1 ∧
    reviewsIn (reviewChoice dev app kind confirm).2 = [] := by
  -- the answer of a callback, with the closing page behind it
  have hclosed : ∀ (acts : List Action) page, (responses acts).length + throwsIn acts = 1 ∧
      reviewsIn acts = [] →
      (responses (acts ++ closingPage dev.build page)).length
        + throwsIn (acts ++ closingPage dev.build page) = 1 ∧
      reviewsIn (acts ++ closingPage dev.build page) = [] := by
    intro acts page h
    obtain ⟨hresponses, hthrows, hreviews⟩ := counts_closingPage dev acts page
    rw [hresponses, hthrows, hreviews]
    exact h
  have htransaction := validateTransaction_once dev app confirm
  unfold reviewChoice
  cases kind with
  | address =>
    apply hclosed
    cases confirm <;> exact ⟨rfl, rfl⟩
  | clear | blind =>
    dsimp only
    split
    · exact htransaction
    · apply hclosed
      exact htransaction

end Decision

/-- Every event, from a state whose `raw_tx_len` is within `raw_tx`. -/
theorem turn_dealt (dev : Device) {s : App} (hlen : s.ctx.txInfo.rawTxLen ≤ maxTransactionLen)
    (e : Event) : Dealt ((machine dev).turn s e) := by
  by_cases hexited : s.exited = true
  · -- nothing happens after the end
    have hstep : (machine dev).step s e = (s, []) := if_pos hexited
    refine .of_answers ?_ ?_ (Or.inl ⟨?_, ?_⟩)
    · cases e <;> simp [decidedReview, hexited]
    · rw [Lib.Machine.turn_post, hstep, Lib.Machine.turn_pre]
    · rw [Lib.Machine.turn_actions, hstep]
    · cases e <;> simp [takesCommand, hexited]
  have hlive : s.exited = false := Bool.eq_false_iff.mpr hexited
  cases e with
  | badApdu =>
    have hstep : (machine dev).step s .badApdu = (s, [ioSendSw .wrongDataLength]) := by
      rw [machine_step, step, if_neg hexited]
    refine .of_answers rfl ?_ (Or.inr ⟨[], .wrongDataLength, ?_, ?_⟩)
    · rw [Lib.Machine.turn_post, hstep, Lib.Machine.turn_pre]
    · rw [Lib.Machine.turn_actions, hstep]
      rfl
    · simp [takesCommand, hlive]
  | setting setting on =>
    obtain ⟨hacts, hscreen⟩ : ((machine dev).step s (.setting setting on)).2 = [] ∧
        ((machine dev).step s (.setting setting on)).1.screen = s.screen := by
      rw [machine_step, step, if_neg hexited]
      dsimp only
      split
      · exact ⟨rfl, rfl⟩
      · exact ⟨rfl, rfl⟩
    exact .of_answers rfl hscreen (Or.inl ⟨hacts, rfl⟩)
  | decide confirm =>
    cases hscreen : s.screen with
    | none =>
      have hstep : (machine dev).step s (.decide confirm) = (s, []) := by
        rw [machine_step, step, if_neg hexited, hscreen]
      refine .of_answers ?_ ?_ (Or.inl ⟨?_, rfl⟩)
      · simp [decidedReview, hscreen]
      · rw [Lib.Machine.turn_post, hstep, Lib.Machine.turn_pre]
      · rw [Lib.Machine.turn_actions, hstep]
    | some r =>
      have hstep : (machine dev).step s (.decide confirm) = _ := step_decide dev confirm hlive hscreen
      have hdecided : decidedReview ((machine dev).turn s (.decide confirm)) = some r := by
        simp [decidedReview, hlive, hscreen]
      obtain ⟨honce, hno⟩ := reviewChoice_once dev { s with screen := none } r.kind confirm
      refine ⟨?_, ?_, ?_⟩
      · rw [Lib.Machine.turn_actions, hstep, hdecided, hno, honce]
        rfl
      · rw [Lib.Machine.turn_actions, hstep, hno]
        exact fun r' hr' => absurd hr' List.not_mem_nil
      · rw [Lib.Machine.turn_actions, Lib.Machine.turn_post, hstep, hdecided, hno]
        exact (reviewChoice_keeps dev _ r.kind confirm).2.1
  | apdu cmd =>
    have htakes : takesCommand ((machine dev).turn s (.apdu cmd)) = true := by
      simp [takesCommand, hlive]
    have hcmd : s.request (.apdu cmd) = cmd.request := by
      rw [App.request, if_neg hexited]
    by_cases hreq : cmd.request = .other
    · have hdispatched := apduDispatcher_dispatched dev s cmd
      rw [hreq] at hdispatched
      obtain ⟨rdata, sw, hout⟩ := hdispatched
      have hstep : (machine dev).step s (.apdu cmd) = (s, [.respond rdata sw]) := by
        rw [machine_step, step, if_neg hexited]
        exact hout
      refine .of_answers rfl ?_ (Or.inr ⟨rdata, sw, ?_, htakes⟩)
      · rw [Lib.Machine.turn_post, hstep, Lib.Machine.turn_pre]
      · rw [Lib.Machine.turn_actions, hstep]
    · have hother : s.request (.apdu cmd) ≠ .other := hcmd ▸ hreq
      have heffect := step_effect dev (.apdu cmd) hlen
      generalize hs' : (step dev s (.apdu cmd)).1 = s' at heffect
      generalize hacts : (step dev s (.apdu cmd)).2 = acts at heffect
      have hrequest : ∀ {q}, s.request (.apdu cmd) = q →
          request ((machine dev).turn s (.apdu cmd)) = q := fun h => h
      -- one response, or one throw, or one review that goes on screen
      suffices h : (responses acts).length + throwsIn acts + (reviewsIn acts).length = 1 ∧
          (∀ r ∈ reviewsIn acts, r.kind ≠ .address →
            ∃ chunk data, s.request (.apdu cmd) = .signTx chunk false data) ∧
          s'.screen = match (reviewsIn acts).head? with
            | some r => some r
            | none => s.screen by
        obtain ⟨honce, hkind, hscreen⟩ := h
        refine ⟨?_, ?_, ?_⟩
        · rw [Lib.Machine.turn_actions, machine_step, hacts, htakes, honce]
          rfl
        · intro r hr
          rw [Lib.Machine.turn_actions, machine_step, hacts] at hr
          exact ⟨htakes, hkind r hr⟩
        · rw [Lib.Machine.turn_actions, Lib.Machine.turn_post, machine_step, hacts, hs', hscreen]
          rfl
      have hnone : ∀ {acts : List Action}, reviewsIn acts = [] → ∀ r ∈ reviewsIn acts,
          r.kind ≠ .address → ∃ chunk data, s.request (.apdu cmd) = .signTx chunk false data :=
        fun h r hr => absurd (h ▸ hr) List.not_mem_nil
      cases heffect with
      | idle storage acts hreq => exact absurd hreq hother
      | decided r confirm hreq => exact absurd hreq hother
      | pubkeyRefused => exact ⟨rfl, hnone rfl, rfl⟩
      | pubkeyThrew => exact ⟨rfl, hnone rfl, rfl⟩
      | pubkeySent => exact ⟨rfl, hnone rfl, rfl⟩
      | pubkeyShown =>
        refine ⟨rfl, fun r hr hkind => ?_, rfl⟩
        rw [List.mem_singleton.mp hr] at hkind
        exact absurd rfl hkind
      | firstRefused => exact ⟨rfl, hnone rfl, rfl⟩
      | firstEmpty => exact ⟨rfl, hnone rfl, rfl⟩
      | nextRefused => exact ⟨rfl, hnone rfl, rfl⟩
      | kept => exact ⟨rfl, hnone rfl, rfl⟩
      | shownClear chunk data base body hreq => exact ⟨rfl, fun _ _ _ => ⟨chunk, data, hreq⟩, rfl⟩
      | shownBlind chunk data base body hreq => exact ⟨rfl, fun _ _ _ => ⟨chunk, data, hreq⟩, rfl⟩
      | rejected => exact ⟨rfl, hnone rfl, rfl⟩

/-- A turn that takes a command decides no review. -/
theorem decidedReview_of_takesCommand {t : Turn} (h : takesCommand t = true) :
    decidedReview t = none := by
  unfold takesCommand at h
  unfold decidedReview
  split at h
  · simp [*]
  · simp [*]
  · exact absurd h Bool.false_ne_true

/-- A decided review was on screen. -/
theorem screen_of_decidedReview {t : Turn} {r : Review} (h : decidedReview t = some r) :
    t.pre.screen = some r := by
  unfold decidedReview at h
  split at h
  · split at h
    · exact absurd h (by simp)
    · exact h
  · exact absurd h (by simp)

/-- The account of one turn. -/
theorem Dealt.balance {t : Turn} (h : Dealt t) :
    (takesCommand t).toNat + t.pre.screen.isSome.toNat
      = (responses t.actions).length + throwsIn t.actions + (replacesReview t).toNat
        + t.post.screen.isSome.toNat := by
  obtain ⟨honce, hreview, hscreen⟩ := h
  unfold replacesReview
  cases hin : reviewsIn t.actions with
  | nil =>
    rw [hin] at honce hscreen
    rw [hscreen]
    cases hdecided : decidedReview t with
    | none =>
      rw [hdecided] at honce
      simp only [List.head?_nil, List.length_nil, List.isEmpty_nil, Bool.not_true, Bool.false_and,
        Option.isSome_none, Bool.toNat_false, Bool.false_eq_true, if_false] at honce ⊢
      omega
    | some r =>
      rw [hdecided] at honce
      rw [screen_of_decidedReview hdecided]
      simp only [List.head?_nil, List.length_nil, List.isEmpty_nil, Bool.not_true, Bool.false_and,
        Option.isSome_some, Option.isSome_none, Bool.toNat_false, Bool.toNat_true, if_true]
        at honce ⊢
      omega
  | cons r rest =>
    -- the command is dealt with by the review alone
    have htakes := (hreview r (hin ▸ List.mem_cons_self ..)).1
    rw [hin, htakes, decidedReview_of_takesCommand htakes] at honce
    rw [hscreen, hin, htakes]
    simp only [List.head?_cons, List.length_cons, List.isEmpty_cons, Bool.not_false, Bool.true_and,
      Option.isSome_some, Option.isSome_none, Bool.toNat_false, Bool.toNat_true] at honce ⊢
    omega

/-! ## Whole runs -/

variable {dev : Device} {s : App} {log : Log}

/-- In every reachable state the screen is what the log says. -/
theorem run_heldReview (hrun : (machine dev).Run s log) : s.screen = heldReview log := by
  refine Lib.Machine.Run.invariant (P := fun s log => s.screen = heldReview log) ?_ ?_ hrun
  · rintro s ⟨persisted, rfl⟩
    rfl
  · intro s log e hrun ih
    have hscreen := (turn_dealt dev (rawTxLen_le hrun) e).screen
    rw [Lib.Machine.turn_pre, ih] at hscreen
    exact hscreen

/-- In every run the commands are the answers, the throws, the reviews that were
replaced before a decision, and the one that still waits. -/
theorem exchange_balance (hrun : (machine dev).Run s log) :
    (tally log).commands
      = (tally log).answers + (tally log).throws + (tally log).replaced + s.screen.isSome.toNat := by
  refine Lib.Machine.Run.invariant (P := fun s log => (tally log).commands
    = (tally log).answers + (tally log).throws + (tally log).replaced + s.screen.isSome.toNat)
    ?_ ?_ hrun
  · rintro s ⟨persisted, rfl⟩
    rfl
  · intro s log e hrun ih
    have hturn := (turn_dealt dev (rawTxLen_le hrun) e).balance
    rw [Lib.Machine.turn_pre] at hturn
    change _ = _ + ((machine dev).turn s e).post.screen.isSome.toNat
    simp only [tally]
    omega

/-- Two transfers are sent one after the other, and then the user approves. -/
def replacedEvents : List Event :=
  [.apdu (signTxCommand 0 p2Last (transferChunk 1)),
   .apdu (signTxCommand 0 p2Last (transferChunk 2)),
   .decide true]

theorem exchange_balance_sample :
    let out := (machine (sampleDevice .nbgl)).exec (appMain .default) [] replacedEvents
    (tally out.2).commands
      = (tally out.2).answers + (tally out.2).throws + (tally out.2).replaced
        + out.1.screen.isSome.toNat :=
  exchange_balance (sample_run .nbgl replacedEvents)

example : tally ((machine (sampleDevice .nbgl)).exec (appMain .default) [] replacedEvents).2
    = ⟨2, 1, 0, 1⟩ := by decide +kernel

/-- A review on screen was put up by a turn of the log, and nothing was decided since. -/
theorem exists_of_heldReview {r : Review} (h : heldReview log = some r) :
    ∃ newer t older, log = newer ++ t :: older ∧ r ∈ reviewsIn t.actions ∧
      ∀ u ∈ newer, reviewsIn u.actions = [] ∧ decidedReview u = none := by
  induction log with
  | nil => exact absurd h (by simp [heldReview])
  | cons t log ih =>
    rw [heldReview] at h
    cases hin : (reviewsIn t.actions).head? with
    | some r' =>
      rw [hin] at h
      obtain rfl : r' = r := by simpa using h
      exact ⟨[], t, log, rfl, List.mem_of_head? hin, fun u hu => absurd hu List.not_mem_nil⟩
    | none =>
      rw [hin] at h
      dsimp only at h
      split at h
      · exact absurd h (by simp)
      next hdecided =>
        obtain ⟨newer, u, older, rfl, hmem, hquiet⟩ := ih h
        refine ⟨t :: newer, u, older, rfl, hmem, ?_⟩
        intro u' hu'
        rcases List.mem_cons.mp hu' with rfl | hu'
        · exact ⟨List.head?_eq_none_iff.mp hin, Option.not_isSome_iff_eq_none.mp hdecided⟩
        · exact hquiet u' hu'

/-- A signature comes of the decision on a transaction review that a final
SIGN_TX command put up, with no review put up and none decided in between. -/
def SignsReviewed (t : Turn) (log : Log) : Prop :=
  ∀ subseed publicKey digest, Action.sign subseed publicKey digest ∈ t.actions →
    ∃ newer u older r chunk data, log = newer ++ u :: older ∧
      decidedReview t = some r ∧ r.kind ≠ .address ∧
      r ∈ reviewsIn u.actions ∧ request u = .signTx chunk false data ∧
      ∀ v ∈ newer, reviewsIn v.actions = [] ∧ decidedReview v = none

/-- In every run each signature goes back to a final SIGN_TX command of its own. -/
theorem signatures_have_reviews (hrun : (machine dev).Run s log) :
    Lib.Machine.Throughout SignsReviewed log := by
  apply Lib.Machine.Run.throughout _ hrun
  intro s log e hrun subseed publicKey digest hmem
  have happrove := approves_of_sign_mem (rawTxLen_le hrun) hmem
  obtain ⟨r, hscreen, hkind⟩ := happrove.review
  have hdealt : Lib.Machine.Throughout (fun t _ => Dealt t) log :=
    Lib.Machine.Run.throughout (fun s log e hrun => turn_dealt dev (rawTxLen_le hrun) e) hrun
  -- the review on screen was put up by a turn of the log, and that turn by its command
  obtain ⟨newer, u, older, rfl, hin, hquiet⟩ :=
    exists_of_heldReview ((run_heldReview hrun).symm.trans hscreen)
  obtain ⟨chunk, data, hreq⟩ := (hdealt.of_split.review r hin).2 hkind
  refine ⟨newer, u, older, r, chunk, data, rfl, ?_, hkind, hin, hreq, hquiet⟩
  have hevent : e = .decide true := happrove.confirm
  rw [decidedReview, Lib.Machine.turn_event, hevent, Lib.Machine.turn_pre]
  dsimp only
  rw [if_neg (by rw [happrove.live]; exact Bool.false_ne_true), hscreen]

/-- The signature of the same run goes back to the second transfer. -/
theorem signatures_have_reviews_sample :
    Lib.Machine.Throughout SignsReviewed
      ((machine (sampleDevice .nbgl)).exec (appMain .default) [] replacedEvents).2 :=
  signatures_have_reviews (sample_run .nbgl replacedEvents)

end QubicLedger
