import QubicLedger.Session.Approval
import QubicLedger.Session.Split

/-!
# The size limit

`doc/APDUSPEC.md` promises that transaction bytes are accumulated up to
`MAX_TX_LEN` = 510 and that a longer transaction is answered
`SW_WRONG_TX_LENGTH`. In the code two other limits are at work. The
accumulator refuses a chunk only when the whole command would not fit in the
1024 bytes of `raw_tx`; the parser does refuse more than 510 bytes, but like
any body it cannot parse: with `SW_TX_PARSING_FAIL`, or with a blind review.

`sending`, `lengthRefused` and `hashedOversize` say, from the log alone, which
body bytes the current sequence has sent, whether one of its chunks was
answered `SW_WRONG_TX_LENGTH`, and whether the digest that would be signed
comes from a body over the limit. `KeepsLimit` is the promise and
`sizeLimit_iff` the exact account of the runs that keep it.
-/

namespace QubicLedger

/-! ## What a sequence has sent -/

/-- The body bytes of a sequence with one more chunk. A first chunk needs a
non-empty path to start one. -/
def sentWith (before : Option (List UInt8)) (chunk : UInt8) (data : List UInt8) :
    Option (List UInt8) :=
  if chunk = 0 then
    match pathOf data with
    | some (_ :: _) => some (bodyOf data)
    | _ => none
  else before.map (· ++ data)

/-- The body bytes sent by the sequence in progress, whether they were kept or not. -/
def sending : Log → Option (List UInt8)
  | [] => none
  | t :: log =>
    match request t with
    | .other => sending log
    | .getPublicKey _ _ => none
    | .signTx chunk more data => if more then sentWith (sending log) chunk data else none

/-- A chunk of the current sequence was answered `SW_WRONG_TX_LENGTH`. -/
def lengthRefused : Log → Bool
  | [] => false
  | t :: log =>
    match request t with
    | .other => lengthRefused log
    | .getPublicKey _ _ => false
    | .signTx chunk _ _ =>
      t.actions = [ioSendSw .wrongTxLength] || (chunk ≠ 0 && lengthRefused log)

/-- A chunk of the current sequence did not fit behind the bytes kept before it. -/
def overflowed : Log → Bool
  | [] => false
  | t :: log =>
    match request t with
    | .other => overflowed log
    | .getPublicKey _ _ => false
    | .signTx chunk _ data =>
      chunk ≠ 0 && (maxTransactionLen < (accepted log).length + data.length || overflowed log)

section Equations

variable {t : Turn} {log : Log} {chunk : UInt8} {more : Bool} {data : List UInt8}

theorem lengthRefused_signTx (h : request t = .signTx chunk more data) :
    lengthRefused (t :: log)
      = (t.actions = [ioSendSw .wrongTxLength] || (chunk ≠ 0 && lengthRefused log)) := by
  rw [lengthRefused, h]

theorem overflowed_signTx (h : request t = .signTx chunk more data) :
    overflowed (t :: log)
      = (chunk ≠ 0 &&
          (maxTransactionLen < (accepted log).length + data.length || overflowed log)) := by
  rw [overflowed, h]

end Equations

/-! ## The invariant -/

/-- What is known while a sequence is in progress: the guard is open, a length
error was sent exactly when a chunk did not fit, and the bytes kept are the
bytes sent unless that happened, and then there are many of them. -/
structure Sending (s : App) (log : Log) (body : List UInt8) : Prop where
  guard : s.ctx.bip32PathLen ≠ 0
  answered : lengthRefused log = overflowed log
  kept : overflowed log = false → accepted log = body
  many : overflowed log = true → 770 ≤ (accepted log).length

/-- The chunk that starts a sequence carries a path and is let in. -/
theorem entry_of_sentWith_first {before : Option (List UInt8)} {data body : List UInt8}
    (h : sentWith before 0 data = some body) (ctx : GlobalCtx) :
    ∃ base, entry ctx 0 data = some (base, body) := by
  unfold sentWith at h
  rw [if_pos rfl] at h
  split at h
  next word words hpath =>
    injection h with h
    exact ⟨_, by rw [entry_first_eq ctx hpath (List.cons_ne_nil _ _), h]⟩
  next => exact absurd h (by simp)

/-- A further chunk extends the body that was being sent. -/
theorem sentWith_next {before : Option (List UInt8)} {chunk : UInt8} {data body : List UInt8}
    (hchunk : chunk ≠ 0) (h : sentWith before chunk data = some body) :
    ∃ sent, before = some sent ∧ body = sent ++ data := by
  unfold sentWith at h
  rw [if_neg hchunk] at h
  obtain ⟨sent, hsent, hbody⟩ := Option.map_eq_some_iff.mp h
  exact ⟨sent, hsent, hbody.symm⟩

/-- The chunk that starts a sequence: a fresh context, whose 1024 bytes hold any
single command. -/
theorem Sending.chunk_first {dev : Device} {s : App} {log : Log} {e : Event} {more : Bool}
    {data body : List UInt8} (hreq : s.request e = .signTx 0 more data)
    (hbody : sentWith (sending log) 0 data = some body) :
    Sending ((machine dev).step s e).1 ((machine dev).turn s e :: log) body := by
  have hreqTurn : request ((machine dev).turn s e) = .signTx 0 more data := hreq
  have hacts : ((machine dev).turn s e).actions = ((machine dev).step s e).2 := rfl
  obtain ⟨-, hdata⟩ := App.signTx_data hreq
  obtain ⟨base, hentry⟩ := entry_of_sentWith_first hbody s.ctx
  obtain ⟨path, -, -, hbase, rfl⟩ := entry_first hentry
  have hanswer := step_entry_actions dev hreq hentry
  have hover : overflowed ((machine dev).turn s e :: log) = false := overflowed_signTx hreqTurn
  have hacc : accepted ((machine dev).turn s e :: log) = bodyOf data := by
    rw [accepted_signTx hreqTurn, hacts, machine_step, hanswer, pathOrLengthError_append,
      if_neg Bool.false_ne_true, if_pos rfl, bodyBytes, if_pos rfl, List.nil_append]
  constructor
  · rw [machine_step, (step_entry_ctx dev hreq hentry).1]
    have hopen := (entry_fits hdata hentry).1
    cases more with
    | true => exact hopen
    | false => exact hopen
  · rw [hover, lengthRefused_signTx hreqTurn, hacts, machine_step, hanswer]
    simp [ioSendSw]
  · intro _
    exact hacc
  · intro h
    rw [hover] at h
    exact absurd h Bool.false_ne_true

/-- A further chunk that fits behind what is kept. -/
theorem Sending.chunk_kept {dev : Device} {s : App} {log : Log} {sent : List UInt8}
    (hsending : Sending s log sent) (hrun : (machine dev).Run s log) {e : Event} {chunk : UInt8}
    {more : Bool} {data : List UInt8} (hreq : s.request e = .signTx chunk more data)
    (hchunk : chunk ≠ 0) (hfit : (accepted log).length + data.length ≤ maxTransactionLen) :
    Sending ((machine dev).step s e).1 ((machine dev).turn s e :: log) (sent ++ data) := by
  have hreqTurn : request ((machine dev).turn s e) = .signTx chunk more data := hreq
  have hacts : ((machine dev).turn s e).actions = ((machine dev).step s e).2 := rfl
  obtain ⟨hguard, hanswered, hkept, hmany⟩ := hsending
  obtain ⟨hentry, hanswer⟩ := continuation_let_in hrun hreq hchunk hguard hfit
  have hover : overflowed ((machine dev).turn s e :: log) = overflowed log := by
    rw [overflowed_signTx hreqTurn, decide_eq_true hchunk,
      decide_eq_false (Nat.not_lt_of_le hfit), Bool.true_and, Bool.false_or]
  have hacc : accepted ((machine dev).turn s e :: log) = accepted log ++ data := by
    rw [accepted_signTx hreqTurn, hacts, hanswer, pathOrLengthError_append,
      if_neg Bool.false_ne_true, if_neg hchunk, bodyBytes, if_neg hchunk]
  constructor
  · rw [machine_step, (step_entry_ctx dev hreq hentry).1]
    cases more with
    | true => exact hguard
    | false => exact hguard
  · rw [hover, lengthRefused_signTx hreqTurn, hacts, hanswer, decide_eq_true hchunk,
      hanswered, decide_eq_false (by simp [ioSendSw]), Bool.false_or, Bool.true_and]
  · intro h
    rw [hacc, hkept (hover ▸ h)]
  · intro h
    have hlong := hmany (hover ▸ h)
    rw [hacc, List.length_append]
    omega

/-- A further chunk that does not fit is refused for its length. -/
theorem Sending.chunk_refused {dev : Device} {s : App} {log : Log} {sent : List UInt8}
    (hsending : Sending s log sent) (hrun : (machine dev).Run s log) {e : Event} {chunk : UInt8}
    {more : Bool} {data : List UInt8} (hreq : s.request e = .signTx chunk more data)
    (hchunk : chunk ≠ 0) (hlong : maxTransactionLen < (accepted log).length + data.length) :
    Sending ((machine dev).step s e).1 ((machine dev).turn s e :: log) (sent ++ data) := by
  have hreqTurn : request ((machine dev).turn s e) = .signTx chunk more data := hreq
  have hacts : ((machine dev).turn s e).actions = ((machine dev).step s e).2 := rfl
  obtain ⟨-, hdata⟩ := App.signTx_data hreq
  have hstep := continuation_held_back hrun hreq hchunk fun h => Nat.not_le_of_lt hlong h.2
  have herror : continuationError s.ctx = .wrongTxLength := if_neg hsending.guard
  have hover : overflowed ((machine dev).turn s e :: log) = true := by
    rw [overflowed_signTx hreqTurn, decide_eq_true hchunk, decide_eq_true hlong]
    rfl
  have hacc : accepted ((machine dev).turn s e :: log) = accepted log := by
    rw [accepted_signTx hreqTurn, hacts, hstep, pathOrLengthError_continuation, if_pos rfl,
      if_neg hchunk]
  constructor
  · rw [hstep]
    exact hsending.guard
  · rw [hover, lengthRefused_signTx hreqTurn, hacts, hstep, herror]
    simp
  · intro h
    rw [hover] at h
    exact absurd h (Ne.symm Bool.false_ne_true)
  · intro _
    have hlong' : 1024 < (accepted log).length + data.length := hlong
    rw [hacc]
    omega

/-- One more chunk of a sequence, the last one included. -/
theorem Sending.chunk {dev : Device} {s : App} {log : Log} (hrun : (machine dev).Run s log)
    (ih : ∀ body, sending log = some body → Sending s log body) {e : Event} {chunk : UInt8}
    {more : Bool} {data body : List UInt8} (hreq : s.request e = .signTx chunk more data)
    (hbody : sentWith (sending log) chunk data = some body) :
    Sending ((machine dev).step s e).1 ((machine dev).turn s e :: log) body := by
  by_cases hchunk : chunk = 0
  · subst hchunk
    exact Sending.chunk_first hreq hbody
  · obtain ⟨sent, hsent, rfl⟩ := sentWith_next hchunk hbody
    by_cases hfit : (accepted log).length + data.length ≤ maxTransactionLen
    · exact (ih sent hsent).chunk_kept hrun hreq hchunk hfit
    · exact (ih sent hsent).chunk_refused hrun hreq hchunk (Nat.lt_of_not_le hfit)

end QubicLedger
