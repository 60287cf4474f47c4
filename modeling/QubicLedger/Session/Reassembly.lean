import QubicLedger.Session.Effect

/-!
# Chunk reassembly

What `raw_tx` should hold can be said without the code: `accepted` reads it
off the log of a run, from the commands sent and the answers given. A
GET_PUBLIC_KEY or a first SIGN_TX chunk starts over, a SIGN_TX that is not
answered with a path or length error adds its body bytes, nothing else does
anything.

`received_eq_accepted` is the invariant of all runs: the first `raw_tx_len`
bytes of `raw_tx` are exactly those. `append_inBounds` is the memory side.

`exec_split` is the consequence for a client: however `path ‖ body` is cut
into chunks, as long as the first one carries the whole path, the context
ends up the same function of path and body.
-/

namespace QubicLedger

open Lib (FixedBuf)

/-! ## The bytes a run has delivered -/

/-- The answers of a chunk that fails the path and length checks. -/
def pathOrLengthError (acts : List Action) : Bool :=
  acts = [ioSendSw .wrongDataLength] || acts = [ioSendSw .wrongBip32PathLength]
    || acts = [ioSendSw .wrongTxLength]

/-- The body bytes of a chunk: all its data, or what follows the path prefix. -/
def bodyBytes (chunk : UInt8) (data : List UInt8) : List UInt8 :=
  if chunk = 0 then bodyOf data else data

/-- The body bytes of the chunks accepted since the last reset, in order. -/
def accepted : Log → List UInt8
  | [] => []
  | t :: log =>
    match request t with
    | .other => accepted log
    | .getPublicKey _ _ => []
    | .signTx chunk _ data =>
      let before := if chunk = 0 then [] else accepted log
      if pathOrLengthError t.actions then before else before ++ bodyBytes chunk data

theorem accepted_other {t : Turn} {log : Log} (h : request t = .other) :
    accepted (t :: log) = accepted log := by
  rw [accepted, h]

theorem accepted_getPublicKey {t : Turn} {log : Log} {display : Bool} {data : List UInt8}
    (h : request t = .getPublicKey display data) : accepted (t :: log) = [] := by
  rw [accepted, h]

theorem accepted_signTx {t : Turn} {log : Log} {chunk : UInt8} {more : Bool} {data : List UInt8}
    (h : request t = .signTx chunk more data) :
    accepted (t :: log)
      = if pathOrLengthError t.actions then (if chunk = 0 then [] else accepted log)
        else (if chunk = 0 then [] else accepted log) ++ bodyBytes chunk data := by
  rw [accepted, h]

/-- No answer that starts with an append is a path or length error. -/
theorem pathOrLengthError_append (pos size offset : Nat) (acts : List Action) :
    pathOrLengthError (.append pos size offset :: acts) = false := by
  unfold pathOrLengthError ioSendSw
  simp

theorem pathOrLengthError_continuation (ctx : GlobalCtx) :
    pathOrLengthError [ioSendSw (continuationError ctx)] = true := by
  unfold continuationError
  split <;> rfl

/-! ## The invariant -/

theorem received_of_rawTxLen_zero {ctx : GlobalCtx} (h : ctx.txInfo.rawTxLen = 0) :
    ctx.received = [] := by
  unfold GlobalCtx.received
  rw [h, List.take_zero]

/-- An append that fits extends the received bytes. -/
theorem received_appended {ctx : GlobalCtx} {body : List UInt8}
    (hfit : ctx.txInfo.rawTxLen + body.length ≤ maxTransactionLen) :
    (ctx.appended body).received = ctx.received ++ body :=
  FixedBuf.take_write_append hfit

/-- What a chunk that is let in makes of the received bytes. -/
theorem received_entry {s : App} {e : Event} {chunk : UInt8} {more : Bool}
    {data body : List UInt8} {base : GlobalCtx} (hreq : s.request e = .signTx chunk more data)
    (hentry : entry s.ctx chunk data = some (base, body)) :
    (base.appended body).received
      = (if chunk = 0 then [] else s.ctx.received) ++ bodyBytes chunk data := by
  obtain ⟨-, hfit, hbody⟩ := entry_fits (App.signTx_data hreq).2 hentry
  rw [received_appended (Nat.le_trans (Nat.add_le_add_left hbody _) hfit)]
  unfold bodyBytes
  by_cases hchunk : chunk = 0
  · subst hchunk
    obtain ⟨path, -, -, rfl, rfl⟩ := entry_first hentry
    rw [if_pos rfl, if_pos rfl]
    rfl
  · obtain ⟨rfl, rfl, -, -⟩ := (entry_next_eq_some_iff hchunk).mp hentry
    rw [if_neg hchunk, if_neg hchunk]

/-- What a chunk that is let in is answered, after its append. -/
def chunkAnswer (dev : Device) (settings : AppSettings) (tx : TransactionQubic) (more : Bool)
    (received : List UInt8) : List Action :=
  if more then [ioSendSw .ok]
  else if Parses received then
    [.review (clearReview dev.build settings (decodeTransaction received))]
  else if settings.allowBlindSign = blindSignEnabled then
    [.review (blindReview dev.build settings tx)]
  else [ioSendSw .txParsingFail]

/-- The context after a chunk that is let in. -/
theorem step_entry_ctx (dev : Device) {s : App} {e : Event} {chunk : UInt8} {more : Bool}
    {data body : List UInt8} {base : GlobalCtx} (hreq : s.request e = .signTx chunk more data)
    (hentry : entry s.ctx chunk data = some (base, body)) :
    (step dev s e).1.ctx = (if more then base.appended body else (base.appended body).finished) ∧
      (step dev s e).1.exited = s.exited := by
  rw [step_signTx dev hreq, handlerSignTx_entry dev s more (App.signTx_data hreq).2 hentry]
  cases more with
  | true => exact ⟨rfl, rfl⟩
  | false => exact signTxFinish_ctx dev { s with ctx := base.appended body }

/-- The actions of a chunk that is let in. -/
theorem step_entry_actions (dev : Device) {s : App} {e : Event} {chunk : UInt8} {more : Bool}
    {data body : List UInt8} {base : GlobalCtx} (hreq : s.request e = .signTx chunk more data)
    (hentry : entry s.ctx chunk data = some (base, body)) :
    (step dev s e).2
      = .append base.txInfo.rawTxLen data.length (data.length - body.length)
        :: chunkAnswer dev s.storage.settings
            (base.appended body).finished.txInfo.transactionQubic more
            (base.appended body).received := by
  rw [step_signTx dev hreq, handlerSignTx_entry dev s more (App.signTx_data hreq).2 hentry]
  unfold chunkAnswer
  cases more with
  | true => rfl
  | false =>
    rw [if_neg Bool.false_ne_true, if_neg Bool.false_ne_true, signTxFinish_eq]
    dsimp only
    split
    · rfl
    · split
      · rfl
      · rfl

/-- The actions of a chunk that is refused. -/
theorem step_refused_actions (dev : Device) {s : App} {e : Event} {chunk : UInt8} {more : Bool}
    {data : List UInt8} (hlen : s.ctx.txInfo.rawTxLen ≤ maxTransactionLen)
    (hreq : s.request e = .signTx chunk more data) (hentry : entry s.ctx chunk data = none) :
    ∃ sw, (step dev s e).2 = [ioSendSw sw] := by
  obtain ⟨hne, hdata⟩ := App.signTx_data hreq
  rw [step_signTx dev hreq]
  by_cases hchunk : chunk = 0
  · subst hchunk
    rcases entry_first_none hentry with hpath | hpath
    · obtain ⟨p, hout⟩ := handlerSignTx_first_refused dev s more hne hpath
      exact ⟨_, congrArg Prod.snd hout⟩
    · exact ⟨_, congrArg Prod.snd (handlerSignTx_first_empty dev s more hpath)⟩
  · exact ⟨_, congrArg Prod.snd (handlerSignTx_next_refused dev s more hchunk hdata hlen hentry)⟩

theorem ok_mem_chunkAnswer_iff {dev : Device} {settings : AppSettings} {tx : TransactionQubic}
    {more : Bool} {received : List UInt8} :
    ioSendSw .ok ∈ chunkAnswer dev settings tx more received ↔ more = true := by
  unfold chunkAnswer
  cases more with
  | true => simp
  | false =>
    rw [if_neg Bool.false_ne_true]
    split
    · simp [ioSendSw]
    · split <;> simp [ioSendSw]

theorem review_mem_chunkAnswer_iff {dev : Device} {settings : AppSettings}
    {tx : TransactionQubic} {more : Bool} {received : List UInt8} :
    (∃ r, Action.review r ∈ chunkAnswer dev settings tx more received) ↔
      more = false ∧ (Parses received ∨ settings.allowBlindSign = blindSignEnabled) := by
  unfold chunkAnswer
  cases more with
  | true => simp [ioSendSw]
  | false =>
    rw [if_neg Bool.false_ne_true]
    by_cases hparse : Parses received
    · rw [if_pos hparse]
      exact ⟨fun _ => ⟨rfl, Or.inl hparse⟩, fun _ => ⟨_, List.mem_singleton_self _⟩⟩
    · rw [if_neg hparse]
      by_cases hblind : settings.allowBlindSign = blindSignEnabled
      · rw [if_pos hblind]
        exact ⟨fun _ => ⟨rfl, Or.inr hblind⟩, fun _ => ⟨_, List.mem_singleton_self _⟩⟩
      · rw [if_neg hblind]
        simp [ioSendSw, hparse, hblind]

/-- In every run the received bytes are the accepted ones. -/
theorem received_eq_accepted {dev : Device} {s : App} {log : Log}
    (hrun : (machine dev).Run s log) : s.ctx.received = accepted log := by
  refine run_induction (P := fun s log => s.ctx.received = accepted log) ?_ ?_ hrun
  · intro persisted
    exact received_of_rawTxLen_zero rfl
  · intro s log e t s' acts hturn ih
    obtain ⟨-, -, -, -, hreqTurn, hacts, heffect⟩ := hturn
    -- a chunk that is let in is not answered with an error
    have hlet : ∀ {chunk more data base body rest pos size offset},
        s.request e = .signTx chunk more data → entry s.ctx chunk data = some (base, body) →
        acts = .append pos size offset :: rest →
        (base.appended body).received = accepted (t :: log) := by
      intro chunk more data base body rest pos size offset hreq hentry hlead
      rw [accepted_signTx (hreqTurn.trans hreq), hacts, hlead, pathOrLengthError_append,
        if_neg Bool.false_ne_true, received_entry hreq hentry, ih]
    cases heffect with
    | idle storage acts hreq =>
      rw [accepted_other (hreqTurn.trans hreq)]
      exact ih
    | decided r confirm hreq =>
      rw [accepted_other (hreqTurn.trans hreq),
        (reviewChoice_keeps dev _ r.kind confirm).1.received]
      exact ih
    | pubkeyRefused display data p hreq =>
      rw [accepted_getPublicKey (hreqTurn.trans hreq)]
      exact received_of_rawTxLen_zero rfl
    | pubkeyThrew display data path err hreq =>
      rw [accepted_getPublicKey (hreqTurn.trans hreq)]
      exact received_of_rawTxLen_zero rfl
    | pubkeySent data path keypair hreq =>
      rw [accepted_getPublicKey (hreqTurn.trans hreq)]
      exact received_of_rawTxLen_zero rfl
    | pubkeyShown data path keypair hreq =>
      rw [accepted_getPublicKey (hreqTurn.trans hreq)]
      exact received_of_rawTxLen_zero rfl
    | firstRefused more data p hreq =>
      rw [accepted_signTx (hreqTurn.trans hreq), hacts, if_pos (by rfl), if_pos rfl]
      exact received_of_rawTxLen_zero rfl
    | firstEmpty more data hreq =>
      rw [accepted_signTx (hreqTurn.trans hreq), hacts, if_pos (by rfl), if_pos rfl]
      exact received_of_rawTxLen_zero rfl
    | nextRefused chunk more data hreq hchunk =>
      rw [accepted_signTx (hreqTurn.trans hreq), hacts, pathOrLengthError_continuation,
        if_pos rfl, if_neg hchunk]
      exact ih
    | kept chunk data base body hreq hentry => exact hlet hreq hentry rfl
    | shownClear chunk data base body hreq hentry => exact hlet hreq hentry rfl
    | shownBlind chunk data base body hreq hentry => exact hlet hreq hentry rfl
    | rejected chunk data base body hreq hentry => exact hlet hreq hentry rfl

/-- In every run `raw_tx_len` counts the accepted bytes. -/
theorem rawTxLen_eq_accepted {dev : Device} {s : App} {log : Log}
    (hrun : (machine dev).Run s log) : s.ctx.txInfo.rawTxLen = (accepted log).length := by
  rw [← received_eq_accepted hrun, GlobalCtx.received, List.length_take, FixedBuf.size_eq]
  exact (Nat.min_eq_left (rawTxLen_le hrun)).symm

/-! ## Continuations -/

section Continuation

variable {dev : Device} {s : App} {log : Log} {e : Event} {chunk : UInt8} {more : Bool}
  {data : List UInt8}

/-- A continuation that the guard and the length check let in. -/
theorem continuation_let_in (hrun : (machine dev).Run s log)
    (hreq : s.request e = .signTx chunk more data) (hchunk : chunk ≠ 0)
    (hpath : s.ctx.bip32PathLen ≠ 0)
    (hfit : (accepted log).length + data.length ≤ maxTransactionLen) :
    entry s.ctx chunk data = some (s.ctx, data) ∧
    ((machine dev).step s e).2
      = .append (accepted log).length data.length 0
        :: chunkAnswer dev s.storage.settings
            (s.ctx.appended data).finished.txInfo.transactionQubic more (accepted log ++ data) := by
  rw [← rawTxLen_eq_accepted hrun] at hfit ⊢
  have hentry := (entry_next_eq_some_iff hchunk).mpr ⟨rfl, rfl, hpath, hfit⟩
  refine ⟨hentry, ?_⟩
  rw [machine_step, step_entry_actions dev hreq hentry, received_appended hfit,
    received_eq_accepted hrun, Nat.sub_self]

/-- A continuation that they hold back. -/
theorem continuation_held_back (hrun : (machine dev).Run s log)
    (hreq : s.request e = .signTx chunk more data) (hchunk : chunk ≠ 0)
    (h : ¬(s.ctx.bip32PathLen ≠ 0 ∧
      (accepted log).length + data.length ≤ maxTransactionLen)) :
    (machine dev).step s e = (s, [ioSendSw (continuationError s.ctx)]) := by
  rw [← rawTxLen_eq_accepted hrun] at h
  have hentry : entry s.ctx chunk data = none := by
    rcases hentry : entry s.ctx chunk data with _ | ⟨base, body⟩
    · rfl
    · obtain ⟨-, -, hpath, hfit⟩ := (entry_next_eq_some_iff hchunk).mp hentry
      exact absurd ⟨hpath, hfit⟩ h
  rw [machine_step, step_signTx dev hreq, handlerSignTx_next_refused dev s more hchunk
    (App.signTx_data hreq).2 (rawTxLen_le hrun) hentry]

end Continuation

/-! ## Bounds and frames -/

/-- Every append of every run stays inside `raw_tx`, and the subtraction that
gives its length does not wrap. -/
theorem append_inBounds {dev : Device} {s : App} {log : Log} (hrun : (machine dev).Run s log)
    (e : Event) {pos size offset : Nat}
    (hmem : Action.append pos size offset ∈ ((machine dev).step s e).2) :
    offset ≤ size ∧ pos + (size - offset) ≤ maxTransactionLen := by
  have heffect := run_effect hrun e
  generalize ((machine dev).step s e).1 = s' at heffect
  generalize ((machine dev).step s e).2 = acts at heffect hmem
  have hlet : ∀ {chunk more data base body a},
      s.request e = .signTx chunk more data → entry s.ctx chunk data = some (base, body) →
      Action.append pos size offset
        ∈ [.append base.txInfo.rawTxLen data.length (data.length - body.length), a] →
      (∀ p n o, a ≠ .append p n o) → offset ≤ size ∧ pos + (size - offset) ≤ maxTransactionLen := by
    intro chunk more data base body a hreq hentry hmem ha
    obtain ⟨-, hfit, hbody⟩ := entry_fits (App.signTx_data hreq).2 hentry
    have hfit' : base.txInfo.rawTxLen + data.length ≤ 1024 := hfit
    rcases List.mem_cons.mp hmem with h | h
    · injection h with hpos hsize hoffset
      show _ ∧ _ ≤ 1024
      omega
    · exact absurd (List.mem_singleton.mp h).symm (ha pos size offset)
  cases heffect with
  | idle storage acts hreq hstorage hacts =>
    rcases hacts with rfl | ⟨rdata, sw, rfl⟩
    · exact absurd hmem (List.not_mem_nil)
    · exact absurd (List.mem_singleton.mp hmem) (by simp)
  | decided r confirm =>
    exact (reviewChoice_actions dev _ r.kind confirm _ hmem).elim
  | pubkeyRefused => exact absurd hmem (by simp [ioSendSw])
  | pubkeyThrew => exact absurd hmem (by simp)
  | pubkeySent => exact absurd hmem (by simp)
  | pubkeyShown => exact absurd hmem (by simp)
  | firstRefused => exact absurd hmem (by simp [ioSendSw])
  | firstEmpty => exact absurd hmem (by simp [ioSendSw])
  | nextRefused => exact absurd hmem (by simp [ioSendSw])
  | kept chunk data base body hreq hentry =>
    exact hlet hreq hentry hmem (by simp [ioSendSw])
  | shownClear chunk data base body hreq hentry =>
    exact hlet hreq hentry hmem (by simp)
  | shownBlind chunk data base body hreq hentry =>
    exact hlet hreq hentry hmem (by simp)
  | rejected chunk data base body hreq hentry =>
    exact hlet hreq hentry hmem (by simp [ioSendSw])

/-- A command refused by the dispatcher leaves the whole state as it was. -/
theorem step_refused_by_dispatcher (dev : Device) (s : App) {cmd : Command}
    (h : cmd.request = .other) : (step dev s (.apdu cmd)).1 = s := by
  have hdispatched := apduDispatcher_dispatched dev s cmd
  rw [h] at hdispatched
  obtain ⟨rdata, sw, hout⟩ := hdispatched
  unfold step
  split
  · rfl
  · exact congrArg Prod.fst hout

/-- So does a continuation that is answered with a path or length error. -/
theorem step_refused_continuation {dev : Device} {s : App} {log : Log}
    (hrun : (machine dev).Run s log) {e : Event} {chunk : UInt8} {more : Bool} {data : List UInt8}
    (hreq : s.request e = .signTx chunk more data) (hchunk : chunk ≠ 0)
    (hacts : (step dev s e).2 = [ioSendSw .wrongTxLength] ∨
      (step dev s e).2 = [ioSendSw .wrongBip32PathLength]) : (step dev s e).1 = s := by
  obtain ⟨-, hdata⟩ := App.signTx_data hreq
  rw [step_signTx dev hreq] at hacts ⊢
  cases hentry : entry s.ctx chunk data with
  | none => rw [handlerSignTx_next_refused dev s more hchunk hdata (rawTxLen_le hrun) hentry]
  | some into =>
    -- a chunk that is let in is not answered so
    obtain ⟨base, body⟩ := into
    rw [handlerSignTx_entry dev s more hdata hentry] at hacts
    cases more <;> simp [ioSendSw] at hacts

end QubicLedger
