import QubicLedger.Session.Split

/-!
# Signing sequences

A continuation (SIGN_TX with P1 ≠ 0) should only be accepted while a signing
sequence is open. `openSeq` is that notion, read off the log: how many chunks
the open sequence has accepted, if one is open.

The code has no such notion. Its only guard is `bip32_path_len != 0`, the
length byte of the last command that reset the context, whatever became of
that command and of the sequence since. `Phase` is what the guard and the
history make of it: besides `shut` (the guard holds everything back) and
`opened n`, there are the four phases in which the guard lets a continuation
through though no sequence is open.

`continuations_iff` is the exact account: along a run every accepted
continuation is at an open sequence with its chunk number if and only if no
continuation that goes through arrives in one of those four phases or with
another number (`Misplaced`).
-/

namespace QubicLedger

/-! ## Open sequences -/

/-- A SIGN_TX command came in, well formed or not. -/
def sentSignTx (t : Turn) : Bool :=
  match t.event with
  | .apdu cmd => !t.pre.exited && cmd.cla = cla && cmd.ins = insSignTx
  | _ => false

/-- The answer contains SW_OK without data. -/
def answeredOk (acts : List Action) : Bool := acts.contains (ioSendSw .ok)

/-- The number of chunks accepted by the sequence that is open, if one is. -/
def openSeq : Log → Option Nat
  | [] => none
  | t :: log =>
    match request t with
    | .getPublicKey _ _ => none
    | .other => if sentSignTx t then none else openSeq log
    | .signTx chunk more _ =>
      if more && answeredOk t.actions then
        if chunk = 0 then some 1 else (openSeq log).map (· + 1)
      else none

theorem openSeq_signTx {t : Turn} {log : Log} {chunk : UInt8} {more : Bool} {data : List UInt8}
    (h : request t = .signTx chunk more data) :
    openSeq (t :: log)
      = if more && answeredOk t.actions then
          if chunk = 0 then some 1 else (openSeq log).map (· + 1)
        else none := by
  rw [openSeq, h]

/-- A chunk is accepted: its data is appended, and the answer is SW_OK or a review. -/
def ChunkAccepted (acts : List Action) : Prop :=
  (∃ pos size offset, Action.append pos size offset ∈ acts) ∧
    (ioSendSw .ok ∈ acts ∨ ∃ r, Action.review r ∈ acts)

/-- An accepted continuation is at an open sequence and carries its chunk number. -/
def InSequence (t : Turn) (log : Log) : Prop :=
  ∀ chunk more data, request t = .signTx chunk more data → chunk ≠ 0 → ChunkAccepted t.actions →
    openSeq log = some chunk.toNat

/-! ## Phases -/

/-- Where the history leaves the guard. -/
inductive Phase
  /-- Start-up, or a length byte of zero. -/
  | shut
  /-- GET_PUBLIC_KEY with a non-zero length byte, successful or not. -/
  | afterPublicKey
  /-- A first chunk with a non-zero length byte whose path was refused. -/
  | afterBadFirst
  | opened (accepted : Nat)
  /-- A SIGN_TX was refused while a sequence was open. -/
  | afterRefusal
  /-- A final chunk went through. -/
  | afterFinal
deriving DecidableEq

/-- The chunks accepted by an open sequence. -/
def Phase.count : Phase → Option Nat
  | .opened n => some n
  | _ => none

/-- A refused SIGN_TX ends an open sequence. -/
def Phase.refused : Phase → Phase
  | .opened _ => .afterRefusal
  | p => p

/-- A further chunk that is kept. -/
def Phase.grown : Phase → Phase
  | .opened n => .opened (n + 1)
  | p => p

/-- The phase after one more turn. -/
def Phase.next (p : Phase) (t : Turn) : Phase :=
  match request t with
  | .other => if sentSignTx t then p.refused else p
  | .getPublicKey _ data => if pathLenOf data = 0 then .shut else .afterPublicKey
  | .signTx chunk more data =>
    if chunk = 0 then
      if pathLenOf data = 0 then .shut
      else if pathOf data = none then .afterBadFirst
      else if more then .opened 1
      else .afterFinal
    else if pathOrLengthError t.actions then p.refused
    else if more then p.grown
    else .afterFinal

/-- The phase a log ends in. -/
def phase : Log → Phase
  | [] => .shut
  | t :: log => (phase log).next t

/-- The continuation goes through, and comes in none of the phases for it: its
data fits, it is not the last or what it completes is shown, the last length
byte was not zero, and it is not the next chunk of an open sequence. -/
def Misplaced (t : Turn) (log : Log) : Prop :=
  ∃ chunk more data, request t = .signTx chunk more data ∧ chunk ≠ 0 ∧
    (accepted log).length + data.length ≤ maxTransactionLen ∧
    (more = true ∨ Parses (accepted log ++ data) ∨
      t.pre.storage.settings.allowBlindSign = blindSignEnabled) ∧
    phase log ≠ .shut ∧ phase log ≠ .opened chunk.toNat

/-! ## What the guard sees -/

theorem refused_eq_shut_iff (p : Phase) : p.refused = .shut ↔ p = .shut := by
  cases p <;> simp [Phase.refused]

theorem grown_eq_shut_iff (p : Phase) : p.grown = .shut ↔ p = .shut := by
  cases p <;> simp [Phase.grown]

theorem count_refused (p : Phase) : p.refused.count = none := by
  cases p <;> rfl

theorem count_grown (p : Phase) : p.grown.count = p.count.map (· + 1) := by
  cases p <;> rfl

/-- A request with the length byte zero carries the empty path in full. -/
theorem pathOf_eq_nil_iff {data : List UInt8} (hne : data ≠ []) :
    pathOf data = some [] ↔ pathLenOf data = 0 := by
  constructor
  · intro h
    rw [pathLenOf_eq h]
    rfl
  · intro h
    cases data with
    | nil => exact absurd rfl hne
    | cons n rest =>
      have hn : n = 0 := h
      subst hn
      rw [pathOf, if_pos ⟨Nat.zero_le _, Nat.zero_le _⟩]
      rfl

/-- A first chunk that is let in has a length byte and a path. -/
theorem first_of_entry {ctx base : GlobalCtx} {data body : List UInt8} (hne : data ≠ [])
    (h : entry ctx 0 data = some (base, body)) : pathLenOf data ≠ 0 ∧ pathOf data ≠ none := by
  obtain ⟨path, hpath, hpathne, -, -⟩ := entry_first h
  constructor
  · intro h0
    rw [(pathOf_eq_nil_iff hne).mpr h0] at hpath
    injection hpath with hpath
    exact hpathne hpath.symm
  · rw [hpath]
    simp

theorem next_kept {p : Phase} {t : Turn} {ctx base : GlobalCtx} {chunk : UInt8}
    {data body : List UInt8} (hreq : request t = .signTx chunk true data) (hne : data ≠ [])
    (hentry : entry ctx chunk data = some (base, body))
    (hacts : pathOrLengthError t.actions = false) :
    p.next t = if chunk = 0 then .opened 1 else p.grown := by
  unfold Phase.next
  rw [hreq, hacts]
  dsimp only
  by_cases hchunk : chunk = 0
  · subst hchunk
    obtain ⟨hlen, hpath⟩ := first_of_entry hne hentry
    rw [if_pos rfl, if_neg hlen, if_neg hpath, if_pos rfl, if_pos rfl]
  · rw [if_neg hchunk, if_neg hchunk]
    rfl

theorem next_last {p : Phase} {t : Turn} {ctx base : GlobalCtx} {chunk : UInt8}
    {data body : List UInt8} (hreq : request t = .signTx chunk false data) (hne : data ≠ [])
    (hentry : entry ctx chunk data = some (base, body))
    (hacts : pathOrLengthError t.actions = false) : p.next t = .afterFinal := by
  unfold Phase.next
  rw [hreq, hacts]
  dsimp only
  by_cases hchunk : chunk = 0
  · subst hchunk
    obtain ⟨hlen, hpath⟩ := first_of_entry hne hentry
    rw [if_pos rfl, if_neg hlen, if_neg hpath]
    rfl
  · rw [if_neg hchunk]
    rfl

/-- What the invariant says: the guard is closed exactly in phase `shut`, and
the phase counts the chunks of an open sequence. -/
structure Tracks (s : App) (log : Log) : Prop where
  guard : s.ctx.bip32PathLen = 0 ↔ phase log = .shut
  count : openSeq log = (phase log).count

/-- A turn that is no request leaves the guard alone. -/
theorem Tracks.other {s s' : App} {t : Turn} {log : Log} (h : Tracks s log)
    (hreq : request t = .other) (hlen : s'.ctx.bip32PathLen = s.ctx.bip32PathLen) :
    Tracks s' (t :: log) := by
  constructor
  · rw [hlen, phase, Phase.next, hreq]
    dsimp only
    split
    · rw [refused_eq_shut_iff]
      exact h.guard
    · exact h.guard
  · rw [openSeq, hreq, phase, Phase.next, hreq]
    dsimp only
    split
    · rw [count_refused]
    · exact h.count

/-- GET_PUBLIC_KEY closes any sequence and leaves its length byte behind. -/
theorem Tracks.getPublicKey {s' : App} {t : Turn} {log : Log} {display : Bool}
    {data : List UInt8} (hreq : request t = .getPublicKey display data)
    (hlen : s'.ctx.bip32PathLen = pathLenOf data) : Tracks s' (t :: log) := by
  constructor
  · rw [hlen, phase, Phase.next, hreq]
    dsimp only
    split
    next h0 => simp [h0]
    next h0 => simp [h0]
  · rw [openSeq, hreq, phase, Phase.next, hreq]
    dsimp only
    split <;> rfl

/-- So does a first chunk that is refused. -/
theorem Tracks.firstRefused {s' : App} {t : Turn} {log : Log} {more : Bool} {data : List UInt8}
    (hreq : request t = .signTx 0 more data) (hlen : s'.ctx.bip32PathLen = pathLenOf data)
    (hbad : pathOf data = none ∨ pathLenOf data = 0) (hacts : answeredOk t.actions = false) :
    Tracks s' (t :: log) := by
  have hnext : (phase log).next t = if pathLenOf data = 0 then .shut else .afterBadFirst := by
    unfold Phase.next
    rw [hreq]
    dsimp only
    rw [if_pos rfl]
    by_cases h0 : pathLenOf data = 0
    · rw [if_pos h0, if_pos h0]
    · rw [if_neg h0, if_neg h0, if_pos (hbad.resolve_right h0)]
  constructor
  · rw [hlen, phase, hnext]
    split
    next h0 => simp [h0]
    next h0 => simp [h0]
  · rw [openSeq_signTx hreq, phase, hnext, hacts, Bool.and_false, if_neg Bool.false_ne_true]
    split <;> rfl

/-- In every run the guard and the open sequence follow the phase. -/
theorem run_tracks {dev : Device} {s : App} {log : Log} (hrun : (machine dev).Run s log) :
    Tracks s log := by
  refine run_induction (P := Tracks) ?_ ?_ hrun
  · intro persisted
    exact ⟨⟨fun _ => rfl, fun _ => rfl⟩, rfl⟩
  · intro s log e t s' acts hturn ih
    obtain ⟨-, -, -, -, hreqTurn, hacts, heffect⟩ := hturn
    -- a final chunk that goes through leaves the guard open
    have hfinal : ∀ {chunk data base body pos size offset a} {app : App},
        s.request e = .signTx chunk false data → entry s.ctx chunk data = some (base, body) →
        acts = [.append pos size offset, a] →
        app.ctx.bip32PathLen = base.bip32PathLen → Tracks app (t :: log) := by
      intro chunk data base body pos size offset a app hreq hentry hlead hlen
      obtain ⟨hne, hdata⟩ := App.signTx_data hreq
      have hnext := next_last (p := phase log) (hreqTurn.trans hreq) hne hentry
        (by rw [hacts, hlead, pathOrLengthError_append])
      constructor
      · rw [hlen, phase, hnext]
        exact ⟨fun h0 => absurd h0 (entry_fits hdata hentry).1, fun h => absurd h (by simp)⟩
      · rw [openSeq_signTx (hreqTurn.trans hreq), phase, hnext, Bool.false_and]
        rfl
    cases heffect with
    | idle storage acts hreq => exact ih.other (hreqTurn.trans hreq) rfl
    | decided r confirm hreq =>
      exact ih.other (hreqTurn.trans hreq) (reviewChoice_keeps dev _ r.kind confirm).1.bip32PathLen
    | pubkeyRefused display data p hreq => exact .getPublicKey (hreqTurn.trans hreq) rfl
    | pubkeyThrew display data path err hreq hpath =>
      exact .getPublicKey (hreqTurn.trans hreq) (pathLenOf_eq hpath).symm
    | pubkeySent data path keypair hreq hpath =>
      exact .getPublicKey (hreqTurn.trans hreq) (pathLenOf_eq hpath).symm
    | pubkeyShown data path keypair hreq hpath =>
      exact .getPublicKey (hreqTurn.trans hreq) (pathLenOf_eq hpath).symm
    | firstRefused more data p hreq hpath =>
      exact .firstRefused (hreqTurn.trans hreq) rfl (Or.inl hpath) (by rw [hacts]; rfl)
    | firstEmpty more data hreq hpath =>
      have h0 := (pathOf_eq_nil_iff (App.signTx_data hreq).1).mp hpath
      exact .firstRefused (hreqTurn.trans hreq) h0.symm (Or.inr h0) (by rw [hacts]; rfl)
    | nextRefused chunk more data hreq hchunk =>
      have hnext : (phase log).next t = (phase log).refused := by
        unfold Phase.next
        rw [hreqTurn.trans hreq, hacts, pathOrLengthError_continuation]
        dsimp only
        rw [if_neg hchunk, if_pos rfl]
      have hanswer : answeredOk [ioSendSw (continuationError s.ctx)] = false := by
        unfold continuationError
        split <;> rfl
      constructor
      · rw [phase, hnext, refused_eq_shut_iff]
        exact ih.guard
      · rw [openSeq_signTx (hreqTurn.trans hreq), phase, hnext, count_refused, hacts, hanswer,
          Bool.and_false]
        rfl
    | kept chunk data base body hreq hentry =>
      obtain ⟨hne, hdata⟩ := App.signTx_data hreq
      have hopen := (entry_fits hdata hentry).1
      have hnext := next_kept (p := phase log) (hreqTurn.trans hreq) hne hentry
        (by rw [hacts, pathOrLengthError_append])
      have hok : ∀ pos size offset,
          answeredOk [.append pos size offset, ioSendSw .ok] = true := by
        intro pos size offset
        simp [answeredOk]
      constructor
      · rw [phase, hnext]
        refine ⟨fun h0 => absurd h0 hopen, fun h => ?_⟩
        split at h
        · exact absurd h (by simp)
        next hchunk =>
          obtain ⟨rfl, -⟩ := (entry_next_eq_some_iff hchunk).mp hentry
          exact ih.guard.mpr ((grown_eq_shut_iff _).mp h)
      · rw [openSeq_signTx (hreqTurn.trans hreq), phase, hnext, hacts, hok, Bool.and_self,
          if_pos rfl]
        split
        · rfl
        · rw [count_grown, ih.count]
    | shownClear chunk data base body hreq hentry => exact hfinal hreq hentry rfl rfl
    | shownBlind chunk data base body hreq hentry => exact hfinal hreq hentry rfl rfl
    | rejected chunk data base body hreq hentry => exact hfinal hreq hentry rfl rfl

/-! ## When continuations are accepted -/

theorem chunkAccepted_append (pos size offset : Nat) (acts : List Action) :
    ChunkAccepted (.append pos size offset :: acts) ↔
      ioSendSw .ok ∈ acts ∨ ∃ r, Action.review r ∈ acts := by
  unfold ChunkAccepted
  constructor
  · rintro ⟨-, hok | ⟨r, hreview⟩⟩
    · exact Or.inl (List.mem_of_ne_of_mem (by simp [ioSendSw]) hok)
    · exact Or.inr ⟨r, List.mem_of_ne_of_mem (by simp) hreview⟩
  · rintro (hok | ⟨r, hreview⟩)
    · exact ⟨⟨pos, size, offset, List.mem_cons_self ..⟩, Or.inl (List.mem_cons_of_mem _ hok)⟩
    · exact ⟨⟨pos, size, offset, List.mem_cons_self ..⟩,
        Or.inr ⟨r, List.mem_cons_of_mem _ hreview⟩⟩

/-- A continuation is accepted exactly when the guard and the length check let
it through and what it completes, if it is the last, is shown. -/
theorem continuation_accepted_iff {dev : Device} {s : App} {log : Log}
    (hrun : (machine dev).Run s log) {e : Event} {chunk : UInt8} {more : Bool} {data : List UInt8}
    (hreq : s.request e = .signTx chunk more data) (hchunk : chunk ≠ 0) :
    ChunkAccepted ((machine dev).step s e).2 ↔
      s.ctx.bip32PathLen ≠ 0 ∧ (accepted log).length + data.length ≤ maxTransactionLen ∧
        (more = true ∨ Parses (accepted log ++ data) ∨
          s.storage.settings.allowBlindSign = blindSignEnabled) := by
  by_cases hlet : s.ctx.bip32PathLen ≠ 0 ∧
      (accepted log).length + data.length ≤ maxTransactionLen
  · obtain ⟨hpath, hfit⟩ := hlet
    obtain ⟨-, hacts⟩ := continuation_let_in hrun hreq hchunk hpath hfit
    rw [hacts, chunkAccepted_append, ok_mem_chunkAnswer_iff, review_mem_chunkAnswer_iff]
    constructor
    · intro h
      rcases h with hmore | ⟨-, hshown⟩
      · exact ⟨hpath, hfit, Or.inl hmore⟩
      · exact ⟨hpath, hfit, Or.inr hshown⟩
    · intro h
      obtain ⟨-, -, hmore | hshown⟩ := h
      · exact Or.inl hmore
      · cases more with
        | true => exact Or.inl rfl
        | false => exact Or.inr ⟨rfl, hshown⟩
  · rw [continuation_held_back hrun hreq hchunk hlet]
    constructor
    · intro h
      obtain ⟨⟨pos, size, offset, hmem⟩, -⟩ := h
      exact absurd (List.mem_singleton.mp hmem) (by simp [ioSendSw])
    · intro h
      exact absurd ⟨h.1, h.2.1⟩ hlet

/-- One turn of a run accepts a continuation out of sequence exactly when it is
a misplaced one. -/
theorem turn_inSequence_iff {dev : Device} {s : App} {log : Log} (e : Event)
    (hrun : (machine dev).Run s log) :
    InSequence ((machine dev).turn s e) log ↔ ¬Misplaced ((machine dev).turn s e) log := by
  obtain ⟨hguard, hcount⟩ := run_tracks hrun
  have hopen : ∀ n, openSeq log = some n ↔ phase log = .opened n := by
    intro n
    rw [hcount]
    cases hphase : phase log <;> simp [Phase.count]
  constructor
  · rintro hin ⟨chunk, more, data, hreq, hchunk, hfit, hshown, hshut, hnext⟩
    have hacc := (continuation_accepted_iff hrun hreq hchunk).mpr
      ⟨fun h0 => hshut (hguard.mp h0), hfit, hshown⟩
    exact hnext ((hopen _).mp (hin chunk more data hreq hchunk hacc))
  · intro hmis chunk more data hreq hchunk hacc
    obtain ⟨hpath, hfit, hshown⟩ := (continuation_accepted_iff hrun hreq hchunk).mp hacc
    by_contra hclosed
    exact hmis ⟨chunk, more, data, hreq, hchunk, hfit, hshown, fun h => hpath (hguard.mpr h),
      fun h => hclosed ((hopen _).mpr h)⟩

/-- Along every run: continuations are accepted in sequence only, if and only
if none is misplaced. -/
theorem continuations_iff {dev : Device} {s : App} {log : Log} (hrun : (machine dev).Run s log) :
    Lib.Machine.Throughout InSequence log ↔
      Lib.Machine.Throughout (fun t log => ¬Misplaced t log) log :=
  Lib.Machine.Run.throughout_congr (fun _ _ e hrun => turn_inSequence_iff e hrun) hrun

/-- A first chunk that carries only a length byte, answered with an error, and
then a continuation. -/
def badFirstThenNext : List Event :=
  [.apdu (signTxCommand 0 p2More ⟨[1], by decide⟩),
   .apdu (signTxCommand 1 p2More byteChunk)]

theorem continuations_iff_sample :
    let log := ((machine (sampleDevice .nbgl)).exec (appMain .default) [] badFirstThenNext).2
    Lib.Machine.Throughout InSequence log ↔
      Lib.Machine.Throughout (fun t log => ¬Misplaced t log) log :=
  continuations_iff (sample_run .nbgl badFirstThenNext)

/-- The continuation of that run is answered SW_OK. -/
theorem not_continuations_inSequence :
    ¬∀ (dev : Device) (s : App) (log : Log), (machine dev).Run s log →
      Lib.Machine.Throughout InSequence log := by
  intro h
  obtain ⟨hlast, -⟩ := h _ _ _ (sample_run .nbgl badFirstThenNext)
  have hopen := hlast 1 true [0xAA] (by decide +kernel) (by decide)
    ⟨⟨0, 1, 0, by decide +kernel⟩, Or.inl (by decide +kernel)⟩
  exact absurd hopen (by decide +kernel)

end QubicLedger
