import QubicLedger.Session.Signer

/-!
# What a blind review shows

On NBGL a blind review shows the amount, addresses and tick of
`transaction_qubic`, although the parser has refused the body. A body of 80
bytes has been copied there before it was refused; any other length leaves the
structure as it was. `leftTransaction` says from the log what that is: the
last 80-byte body completed since the context was reset, or zeros.

Only a continuation can find something there: a body grows beyond 80 bytes
when a sequence goes on after a final chunk. `shows_own_bytes_iff` describes
exactly the final chunks whose review shows values of its own bytes, and
`reviews_agree` is the consequence for any two reviews of the same bytes.
-/

namespace QubicLedger

open Lib (FixedBuf)

/-- The last 80-byte body completed since the context was reset, decoded. -/
def leftTransaction : Log → TransactionQubic
  | [] => .zero
  | t :: log =>
    match request t with
    | .other => leftTransaction log
    | .getPublicKey _ _ => .zero
    | .signTx chunk more _ =>
      if (more || pathOrLengthError t.actions) = false ∧
          (accepted (t :: log)).length = sizeofTransactionQubic then
        decodeTransaction (accepted (t :: log))
      else if chunk = 0 then .zero
      else leftTransaction log

/-- The values a body has on its own: those it decodes to, or zeros. -/
def ownTransaction (body : List UInt8) : TransactionQubic :=
  if body.length = sizeofTransactionQubic then decodeTransaction body else .zero

/-- The turn's SIGN_TX command puts up `r`. -/
def PutsUp (t : Turn) (r : Review) : Prop :=
  (∃ chunk more data, request t = .signTx chunk more data) ∧ Action.review r ∈ t.actions

/-- A review whose values are those of the bytes received. -/
def ShowsOwnBytes (t : Turn) (log : Log) : Prop :=
  ∀ r, PutsUp t r →
    r.pairs = shownValues t.pre.storage.settings (ownTransaction (accepted (t :: log)))

/-- The exact condition: with blind signing on, no final continuation is let in
that makes a body of another length than 80 bytes, after an 80-byte body was
completed in the same context; unless every shown field of that body is zero. -/
def NothingLeft (t : Turn) (log : Log) : Prop :=
  ∀ chunk data, request t = .signTx chunk false data → chunk ≠ 0 →
    t.pre.ctx.bip32PathLen ≠ 0 → (accepted log).length + data.length ≤ maxTransactionLen →
    (accepted log).length + data.length ≠ sizeofTransactionQubic →
    t.pre.storage.settings.allowBlindSign = blindSignEnabled →
    SameShown t.pre.storage.settings (leftTransaction log) .zero

theorem leftTransaction_signTx {t : Turn} {log : Log} {chunk : UInt8} {more : Bool}
    {data : List UInt8} (h : request t = .signTx chunk more data) :
    leftTransaction (t :: log)
      = if (more || pathOrLengthError t.actions) = false ∧
            (accepted (t :: log)).length = sizeofTransactionQubic then
          decodeTransaction (accepted (t :: log))
        else if chunk = 0 then .zero
        else leftTransaction log := by
  rw [leftTransaction, h]

/-! ## The parsed transaction in the context -/

/-- A final chunk that is let in parses over what the context held. -/
theorem finished_transactionQubic (ctx : GlobalCtx) :
    ctx.finished.txInfo.transactionQubic
      = if ctx.received.length = sizeofTransactionQubic then decodeTransaction ctx.received
        else ctx.txInfo.transactionQubic := by
  show (deserializeTransaction ctx.txInfo.transactionQubic ctx.received).2 = _
  by_cases h : ctx.received.length = sizeofTransactionQubic
  · rw [deserializeTransaction_of_length _ h, if_pos h]
  · rw [deserializeTransaction_length_error _ h, if_neg h]

/-- The context a chunk goes into has the transaction left there. -/
theorem entry_transactionQubic {ctx base : GlobalCtx} {chunk : UInt8} {data body : List UInt8}
    (hentry : entry ctx chunk data = some (base, body)) :
    (base.appended body).txInfo.transactionQubic
      = if chunk = 0 then .zero else ctx.txInfo.transactionQubic := by
  by_cases hchunk : chunk = 0
  · subst hchunk
    obtain ⟨path, -, -, rfl, -⟩ := entry_first hentry
    rfl
  · obtain ⟨rfl, -⟩ := (entry_next_eq_some_iff hchunk).mp hentry
    rw [if_neg hchunk]
    rfl

/-- In every run `transaction_qubic` is what was left there. -/
theorem run_leftTransaction {dev : Device} {s : App} {log : Log} (hrun : (machine dev).Run s log) :
    s.ctx.txInfo.transactionQubic = leftTransaction log := by
  refine run_induction
    (P := fun s log => s.ctx.txInfo.transactionQubic = leftTransaction log) ?_ ?_ hrun
  · intro persisted
    rfl
  · intro s log e t s' acts hturn ih
    obtain ⟨-, hafter, -, -, hreqTurn, hacts, heffect⟩ := hturn
    have hreceived := received_eq_accepted hafter
    have hother : s.request e = .other → leftTransaction (t :: log) = leftTransaction log := by
      intro hreq
      rw [leftTransaction, hreqTurn, hreq]
    have hpubkey : ∀ {display data}, s.request e = .getPublicKey display data →
        leftTransaction (t :: log) = .zero := by
      intro display data hreq
      rw [leftTransaction, hreqTurn, hreq]
    -- nothing is parsed on the way out of an error
    have herror : ∀ {chunk more data}, s.request e = .signTx chunk more data →
        pathOrLengthError acts = true →
        leftTransaction (t :: log) = if chunk = 0 then .zero else leftTransaction log := by
      intro chunk more data hreq herr
      rw [leftTransaction_signTx (hreqTurn.trans hreq), hacts, herr, Bool.or_true, if_neg (by simp)]
    have hfinal : ∀ {chunk data base body pos size offset rest},
        s.request e = .signTx chunk false data → entry s.ctx chunk data = some (base, body) →
        acts = .append pos size offset :: rest →
        accepted (t :: log) = (base.appended body).received →
        (base.appended body).finished.txInfo.transactionQubic = leftTransaction (t :: log) := by
      intro chunk data base body pos size offset rest hreq hentry hlead hbody
      rw [leftTransaction_signTx (hreqTurn.trans hreq), hacts, hlead, pathOrLengthError_append,
        hbody, finished_transactionQubic]
      by_cases hlen : (base.appended body).received.length = sizeofTransactionQubic
      · rw [if_pos hlen, if_pos ⟨rfl, hlen⟩]
      · rw [if_neg hlen, if_neg (fun h => hlen h.2), ← ih]
        exact entry_transactionQubic hentry
    cases heffect with
    | idle storage acts hreq =>
      rw [hother hreq]
      exact ih
    | decided r confirm hreq =>
      rw [hother hreq, (reviewChoice_keeps dev _ r.kind confirm).1.transactionQubic]
      exact ih
    | pubkeyRefused display data p hreq => exact (hpubkey hreq).symm
    | pubkeyThrew display data path err hreq => exact (hpubkey hreq).symm
    | pubkeySent data path keypair hreq => exact (hpubkey hreq).symm
    | pubkeyShown data path keypair hreq => exact (hpubkey hreq).symm
    | firstRefused more data p hreq => exact (herror hreq rfl).symm
    | firstEmpty more data hreq => exact (herror hreq rfl).symm
    | nextRefused chunk more data hreq hchunk =>
      rw [herror hreq (pathOrLengthError_continuation _), if_neg hchunk]
      exact ih
    | kept chunk data base body hreq hentry =>
      rw [leftTransaction_signTx (hreqTurn.trans hreq), if_neg (by simp), ← ih]
      exact entry_transactionQubic hentry
    | shownClear chunk data base body hreq hentry =>
      exact hfinal hreq hentry rfl hreceived.symm
    | shownBlind chunk data base body hreq hentry =>
      exact hfinal hreq hentry rfl hreceived.symm
    | rejected chunk data base body hreq hentry =>
      exact hfinal hreq hentry rfl hreceived.symm

/-! ## When a review shows its own bytes -/

theorem clearReview_pairs (settings : AppSettings) (tx : TransactionQubic) :
    (clearReview .nbgl settings tx).pairs = shownValues settings tx := rfl

theorem blindReview_pairs (settings : AppSettings) (tx : TransactionQubic) :
    (blindReview .nbgl settings tx).pairs = shownValues settings tx := rfl

theorem ownTransaction_of_parses {body : List UInt8} (h : Parses body) :
    ownTransaction body = decodeTransaction body := if_pos h.1

theorem putsUp_chunkAnswer {dev : Device} {settings : AppSettings} {tx : TransactionQubic}
    {more : Bool} {received : List UInt8} {r : Review}
    (h : Action.review r ∈ chunkAnswer dev settings tx more received) :
    more = false ∧
      ((Parses received ∧ r = clearReview dev.build settings (decodeTransaction received)) ∨
        (¬Parses received ∧ settings.allowBlindSign = blindSignEnabled ∧
          r = blindReview dev.build settings tx)) := by
  unfold chunkAnswer at h
  split at h
  · exact absurd (List.mem_singleton.mp h) (by simp [ioSendSw])
  next hmore =>
    refine ⟨Bool.eq_false_iff.mpr hmore, ?_⟩
    split at h
    next hparse =>
      injection List.mem_singleton.mp h with hr
      exact Or.inl ⟨hparse, hr⟩
    next hparse =>
      split at h
      next hblind =>
        injection List.mem_singleton.mp h with hr
        exact Or.inr ⟨hparse, hblind, hr⟩
      next => exact absurd (List.mem_singleton.mp h) (by simp [ioSendSw])

/-- A review is put up by a chunk that is let in. -/
theorem review_signTx {dev : Device} {s : App} {log : Log} (hrun : (machine dev).Run s log)
    {e : Event} {chunk : UInt8} {more : Bool} {data : List UInt8}
    (hreq : s.request e = .signTx chunk more data) {r : Review}
    (hmem : Action.review r ∈ (step dev s e).2) :
    ∃ base body, entry s.ctx chunk data = some (base, body) ∧
      Action.review r ∈ chunkAnswer dev s.storage.settings
        (base.appended body).finished.txInfo.transactionQubic more
        (base.appended body).received := by
  cases hentry : entry s.ctx chunk data with
  | some into =>
    obtain ⟨base, body⟩ := into
    rw [step_entry_actions dev hreq hentry] at hmem
    exact ⟨base, body, rfl, List.mem_of_ne_of_mem (by simp) hmem⟩
  | none =>
    obtain ⟨sw, hanswer⟩ := step_refused_actions dev (rawTxLen_le hrun) hreq hentry
    rw [hanswer] at hmem
    exact absurd (List.mem_singleton.mp hmem) (by simp [ioSendSw])

/-- One turn of a run shows the bytes received exactly under the condition. -/
theorem turn_showsOwnBytes_iff {dev : Device} (hbuild : dev.build = .nbgl) {s : App} {log : Log}
    (e : Event) (hrun : (machine dev).Run s log) :
    ShowsOwnBytes ((machine dev).turn s e) log ↔ NothingLeft ((machine dev).turn s e) log := by
  have hreceived : (step dev s e).1.ctx.received = accepted ((machine dev).turn s e :: log) :=
    received_eq_accepted (hrun.step e)
  constructor
  · intro hown chunk data hreqTurn hchunk hpath hfit hlen hblind
    have hreq : s.request e = .signTx chunk false data := hreqTurn
    obtain ⟨hentry, hanswer⟩ := continuation_let_in hrun hreq hchunk hpath hfit
    have hlong : (accepted log ++ data).length ≠ sizeofTransactionQubic := by
      rwa [List.length_append]
    have hreject : ¬Parses (accepted log ++ data) := fun h => hlong h.1
    have hall : accepted ((machine dev).turn s e :: log) = accepted log ++ data := by
      rw [accepted_signTx hreqTurn, Lib.Machine.turn_actions, hanswer, pathOrLengthError_append,
        if_neg Bool.false_ne_true, if_neg hchunk, bodyBytes, if_neg hchunk]
    -- the blind review of what was left there
    have hleft : (s.ctx.appended data).finished.txInfo.transactionQubic = leftTransaction log := by
      have happended : (s.ctx.appended data).received = accepted log ++ data := by
        rw [received_entry hreq hentry, if_neg hchunk, bodyBytes, if_neg hchunk,
          received_eq_accepted hrun]
      rw [finished_transactionQubic, happended, if_neg hlong, ← run_leftTransaction hrun]
      rfl
    have hreview : Action.review (blindReview dev.build s.storage.settings (leftTransaction log))
        ∈ ((machine dev).turn s e).actions := by
      rw [Lib.Machine.turn_pre] at hblind
      rw [Lib.Machine.turn_actions, hanswer, hleft]
      unfold chunkAnswer
      rw [if_neg Bool.false_ne_true, if_neg hreject, if_pos hblind]
      exact List.mem_cons_of_mem _ (List.mem_singleton_self _)
    have hpairs := hown _ ⟨⟨chunk, false, data, hreqTurn⟩, hreview⟩
    rw [hall, ownTransaction, if_neg hlong, hbuild, blindReview_pairs] at hpairs
    exact (shownValues_eq_iff _).mp hpairs
  · intro hcond r hup
    obtain ⟨⟨chunk, more, data, hreqTurn⟩, hmem⟩ := hup
    have hreq : s.request e = .signTx chunk more data := hreqTurn
    obtain ⟨base, body, hentry, hreview⟩ := review_signTx hrun hreq hmem
    obtain ⟨rfl, hkind⟩ := putsUp_chunkAnswer hreview
    have hctx := (step_entry_ctx dev hreq hentry).1
    have hall : accepted ((machine dev).turn s e :: log) = (base.appended body).received := by
      rw [← hreceived, hctx]
      rfl
    rw [hall]
    rcases hkind with ⟨hparse, rfl⟩ | ⟨-, hblind, rfl⟩
    · rw [hbuild, clearReview_pairs, ownTransaction_of_parses hparse]
      rfl
    · rw [hbuild, blindReview_pairs, finished_transactionQubic, ownTransaction]
      by_cases hlen : (base.appended body).received.length = sizeofTransactionQubic
      · rw [if_pos hlen, if_pos hlen]
        rfl
      · rw [if_neg hlen, if_neg hlen, entry_transactionQubic hentry]
        by_cases hchunk : chunk = 0
        · rw [if_pos hchunk]
          rfl
        · -- a continuation: what was left there shows nothing
          obtain ⟨-, -, hpath, hfit⟩ := (entry_next_eq_some_iff hchunk).mp hentry
          rw [received_entry hreq hentry, if_neg hchunk, bodyBytes, if_neg hchunk,
            received_eq_accepted hrun, List.length_append] at hlen
          rw [rawTxLen_eq_accepted hrun] at hfit
          rw [if_neg hchunk, run_leftTransaction hrun]
          exact (shownValues_eq_iff _).mpr (hcond chunk data hreq hchunk hpath hfit hlen hblind)

/-- Any two transaction reviews of the same bytes in the same display mode show
the same values, if nothing was left over when either was put up. -/
theorem reviews_agree {dev : Device} (hbuild : dev.build = .nbgl) {s s' : App} {log log' : Log}
    (hrun : (machine dev).Run s log) (hrun' : (machine dev).Run s' log') {e e' : Event}
    (hleft : NothingLeft ((machine dev).turn s e) log)
    (hleft' : NothingLeft ((machine dev).turn s' e') log') {r r' : Review}
    (hup : PutsUp ((machine dev).turn s e) r) (hup' : PutsUp ((machine dev).turn s' e') r')
    (hbytes : (step dev s e).1.ctx.received = (step dev s' e').1.ctx.received)
    (hmode : s.storage.settings.displayMode = s'.storage.settings.displayMode) :
    r.pairs = r'.pairs := by
  have hown := (turn_showsOwnBytes_iff hbuild e hrun).mpr hleft r hup
  have hown' := (turn_showsOwnBytes_iff hbuild e' hrun').mpr hleft' r' hup'
  have hsame : accepted ((machine dev).turn s e :: log)
      = accepted ((machine dev).turn s' e' :: log') :=
    (received_eq_accepted (hrun.step e)).symm.trans
      (hbytes.trans (received_eq_accepted (hrun'.step e')))
  rw [hown, hown', hsame]
  unfold shownValues expertPairs
  rw [Lib.Machine.turn_pre, Lib.Machine.turn_pre, hmode]

/-- A transfer is reviewed and rejected with blind signing on. -/
def rejectedTransferEvents : List Event :=
  [.setting .blindSign true,
   .apdu (signTxCommand 0 p2Last (transferChunk 1)),
   .decide false]

/-- A transfer is sent as the beginning of a longer body. -/
def longerBodyEvents : List Event :=
  [.setting .blindSign true,
   .apdu (signTxCommand 0 p2More (transferChunk 1))]

/-- Only the path is sent so far. -/
def pathOnlyEvents : List Event :=
  [.setting .blindSign true, .apdu (signTxCommand 0 p2More (firstChunk samplePath [] (by decide)))]

/-- One more byte, and the end. -/
def lastByte : Event := .apdu (signTxCommand 1 p2Last byteChunk)

/-- The same bytes at once. -/
def wholeBody : Event := .apdu (signTxCommand 1 p2Last ⟨sampleTransfer 1 ++ [0xAA], by decide⟩)

/-- The settings of these runs. -/
def blindSettings : AppSettings := { InternalStorage.default.settings with allowBlindSign := 1 }

theorem sameShown_of_eq {settings : AppSettings} {tx tx' : TransactionQubic} (h : tx = tx') :
    SameShown settings tx tx' := by
  subst h
  exact ⟨rfl, rfl, rfl, fun _ => rfl⟩

/-- The 81 bytes in two cuts: both reviews show zeros. -/
theorem reviews_agree_sample :
    let M := machine (sampleDevice .nbgl)
    let out := M.exec (appMain .default) [] longerBodyEvents
    let out' := M.exec (appMain .default) [] pathOnlyEvents
    ∃ r r', PutsUp (M.turn out.1 lastByte) r ∧ PutsUp (M.turn out'.1 wholeBody) r' ∧
      r.pairs = r'.pairs := by
  intro M out out'
  have hup : PutsUp (M.turn out.1 lastByte) (blindReview .nbgl blindSettings .zero) :=
    ⟨⟨1, false, [0xAA], by decide +kernel⟩, by decide +kernel⟩
  have hup' : PutsUp (M.turn out'.1 wholeBody) (blindReview .nbgl blindSettings .zero) :=
    ⟨⟨1, false, sampleTransfer 1 ++ [0xAA], by decide +kernel⟩, by decide +kernel⟩
  have hleft : NothingLeft (M.turn out.1 lastByte) out.2 := by
    intro _ _ _ _ _ _ _ _
    exact sameShown_of_eq (by decide +kernel)
  have hleft' : NothingLeft (M.turn out'.1 wholeBody) out'.2 := by
    intro _ _ _ _ _ _ _ _
    exact sameShown_of_eq (by decide +kernel)
  exact ⟨_, _, hup, hup', reviews_agree rfl (sample_run .nbgl longerBodyEvents)
    (sample_run .nbgl pathOnlyEvents) hleft hleft' hup hup' (by decide +kernel)
    (by decide +kernel)⟩

/-- The same 81 bytes are shown as the rejected transfer in one run and as zeros
in another, though no command comes while a review is on screen. -/
theorem not_reviews_agree :
    ¬∀ (dev : Device) (s s' : App) (log log' : Log) (e e' : Event) (r r' : Review),
      dev.build = .nbgl → (machine dev).Run s log → (machine dev).Run s' log' →
      Lib.Machine.Throughout Prompt ((machine dev).turn s e :: log) →
      Lib.Machine.Throughout Prompt ((machine dev).turn s' e' :: log') →
      PutsUp ((machine dev).turn s e) r → PutsUp ((machine dev).turn s' e') r' →
      (step dev s e).1.ctx.txInfo.rawTx = (step dev s' e').1.ctx.txInfo.rawTx →
      (step dev s e).1.ctx.txInfo.rawTxLen = (step dev s' e').1.ctx.txInfo.rawTxLen →
      s.storage.settings.displayMode = s'.storage.settings.displayMode → r.pairs = r'.pairs := by
  intro h
  have hpairs := h (sampleDevice .nbgl) _ _ _ _ lastByte lastByte
    (blindReview .nbgl blindSettings (decodeTransaction (sampleTransfer 1)))
    (blindReview .nbgl blindSettings .zero) rfl
    (sample_run .nbgl rejectedTransferEvents) (sample_run .nbgl longerBodyEvents)
    ⟨prompt_of_no_screen (by decide +kernel), prompt_of_no_command (fun _ => by simp),
      prompt_of_no_screen rfl, prompt_of_no_screen rfl, trivial⟩
    ⟨prompt_of_no_screen (by decide +kernel), prompt_of_no_screen rfl, prompt_of_no_screen rfl,
      trivial⟩
    ⟨⟨1, false, [0xAA], by decide +kernel⟩, by decide +kernel⟩
    ⟨⟨1, false, [0xAA], by decide +kernel⟩, by decide +kernel⟩
    (by decide +kernel) (by decide +kernel) (by decide +kernel)
  exact absurd hpairs (by decide +kernel)

end QubicLedger
