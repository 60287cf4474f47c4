import QubicLedger.Session.Exchange
import QubicLedger.Session.Sequence
import QubicLedger.Client

/-!
# Sending a transaction (`tests/application_client/boilerplate_command_sender.py`)

`sign_tx` cuts the path and the transaction into messages of 255 bytes and
sends them one after the other, all but the last with P2 = MORE. It does not
go on after an answer other than SW_OK, which the transport turns into an
exception. `send_signTx` follows client and app through the exchange, for
transactions of every length: up to four messages the app ends up with the very
bytes of the client, parsed and hashed; a fifth is refused for its P1.

`respond_ok_mem_send_iff` goes on to the user's decision and says when the client
gets a signature, and of what.
-/

namespace QubicLedger

open Lib (FixedBuf)

/-! ## The client -/

/-- `MAX_APDU_LEN`. -/
abbrev maxApduLen : Nat := 255

/-- `split_message`, for `max_size = MAX_APDU_LEN`. -/
def splitMessage (message : List UInt8) : List Chunk :=
  (List.range ((message.length + (maxApduLen - 1)) / maxApduLen)).map fun i =>
    ⟨(message.drop (maxApduLen * i)).take maxApduLen, List.length_take_le _ _⟩

/-- What `sign_tx` sends. -/
def signTxMessages (path : List UInt32) (transaction : List UInt8) : List Event :=
  signTxEvents 0 (splitMessage (pathPrefix path ++ transaction))

/-- The exchanges of `sign_tx`: it goes on after SW_OK only. -/
def send (dev : Device) : App → Log → List Event → App × Log
  | s, log, [] => (s, log)
  | s, log, e :: es =>
    let t := (machine dev).turn s e
    if answeredOk t.actions then send dev t.post (t :: log) es else (t.post, t :: log)

/-! ## The messages -/

theorem splitMessage_nil : splitMessage [] = [] := rfl

/-- The first message, and those of the rest. -/
theorem splitMessage_cons {message : List UInt8} (h : message ≠ []) :
    splitMessage message
      = ⟨message.take maxApduLen, List.length_take_le _ _⟩ :: splitMessage (message.drop maxApduLen) := by
  have hpos : 0 < message.length := List.length_pos_iff.mpr h
  have hcount : (message.length + (maxApduLen - 1)) / maxApduLen
      = ((message.drop maxApduLen).length + (maxApduLen - 1)) / maxApduLen + 1 := by
    rw [List.length_drop]
    show (message.length + 254) / 255 = (message.length - 255 + 254) / 255 + 1
    omega
  unfold splitMessage
  rw [hcount, List.range_succ_eq_map, List.map_cons, List.map_map]
  refine congrArg₂ _ ?_ (List.map_congr_left fun i _ => ?_)
  · simp
  · simp only [Function.comp_apply, List.drop_drop, Nat.mul_succ, Nat.add_comm]

/-- Induction over a message, by the messages it is cut into. -/
theorem splitMessage_induction {P : List UInt8 → Prop} (nil : P [])
    (cons : ∀ message, message ≠ [] → P (message.drop maxApduLen) → P message)
    (message : List UInt8) : P message := by
  by_cases h : message = []
  · rw [h]
    exact nil
  · have hpos : 0 < message.length := List.length_pos_iff.mpr h
    exact cons message h (splitMessage_induction nil cons (message.drop maxApduLen))
termination_by message.length
decreasing_by
  rw [List.length_drop]
  exact Nat.sub_lt hpos (by decide)

/-- The messages are the message, and none is empty. -/
theorem splitMessage_spec (message : List UInt8) :
    chunkBytes (splitMessage message) = message ∧ ∀ chunk ∈ splitMessage message, chunk.data ≠ [] := by
  induction message using splitMessage_induction with
  | nil => exact ⟨rfl, fun chunk h => absurd h List.not_mem_nil⟩
  | cons message hne ih =>
    obtain ⟨hbytes, hall⟩ := ih
    rw [splitMessage_cons hne]
    refine ⟨?_, List.forall_mem_cons.mpr ⟨?_, hall⟩⟩
    · rw [chunkBytes_cons, hbytes]
      exact List.take_append_drop _ _
    · intro h
      rcases List.take_eq_nil_iff.mp h with h | h
      · exact absurd h (by decide)
      · exact hne h

theorem length_splitMessage_le_iff (message : List UInt8) (n : Nat) :
    (splitMessage message).length ≤ n ↔ message.length ≤ maxApduLen * n := by
  rw [splitMessage, List.length_map, List.length_range]
  show (message.length + 254) / 255 ≤ n ↔ message.length ≤ 255 * n
  omega

/-- What fits in one message is one message. -/
theorem splitMessage_single (message : List UInt8) (hne : message ≠ [])
    (hlen : message.length ≤ maxApduLen) : ∃ chunk, splitMessage message = [chunk] := by
  rw [splitMessage_cons hne, List.drop_of_length_le hlen, splitMessage_nil]
  exact ⟨_, rfl⟩

/-! ## The exchanges -/

/-- The actions of the latest turn. -/
def lastActions : Log → List Action
  | [] => []
  | t :: _ => t.actions

section Exchange

variable (dev : Device) {s : App} {i : Nat} {chunk : Chunk}

theorem ofNat_ne_zero (hi : 1 ≤ i) (hi3 : i ≤ 3) : UInt8.ofNat i ≠ 0 := by
  intro h
  have hbyte := congrArg UInt8.toNat h
  rw [UInt8.toNat_ofNat', Nat.mod_eq_of_lt (by omega), show (0 : UInt8).toNat = 0 from rfl] at hbyte
  omega

/-- One message that is let in. -/
theorem step_message (hlive : s.exited = false) (hi : i ≤ 3) (more : Bool) (hne : chunk.data ≠ [])
    {base : GlobalCtx} {body : List UInt8}
    (hentry : entry s.ctx (UInt8.ofNat i) chunk.data = some (base, body)) :
    ∃ pos size offset,
      (machine dev).step s (.apdu (signTxCommand (UInt8.ofNat i) (if more then p2More else p2Last)
        chunk))
      = if more then ({ s with ctx := base.appended body }, [.append pos size offset, ioSendSw .ok])
        else ((signTxFinish dev { s with ctx := base.appended body }).1,
          .append pos size offset :: (signTxFinish dev { s with ctx := base.appended body }).2) := by
  have hreq : s.request (.apdu (signTxCommand (UInt8.ofNat i)
      (if more then p2More else p2Last) chunk)) = .signTx (UInt8.ofNat i) more chunk.data := by
    unfold App.request
    rw [if_neg (by rw [hlive]; exact Bool.false_ne_true)]
    exact request_signTxCommand hi more hne
  refine ⟨base.txInfo.rawTxLen, chunk.data.length, chunk.data.length - body.length, ?_⟩
  rw [machine_step, step_signTx dev hreq, handlerSignTx_entry dev s more chunk.length_le hentry]

/-- The fifth message is refused. -/
theorem step_fifth (hlive : s.exited = false) (p2 : UInt8) (chunk : Chunk) :
    (machine dev).step s (.apdu (signTxCommand (UInt8.ofNat 4) p2 chunk))
      = (s, [ioSendSw .wrongP1P2]) := by
  rw [machine_step]
  unfold step apduDispatcher
  rw [if_neg (by rw [hlive]; exact Bool.false_ne_true)]
  dsimp only [signTxCommand]
  rw [if_neg (by decide), if_neg (by decide), if_neg (by decide), if_neg (by decide),
    if_pos rfl, if_pos (Or.inl (by decide))]

/-- The bytes received by a fresh context. -/
theorem received_openedAt (path : List UInt32) (transaction : List UInt8)
    (hlen : transaction.length ≤ maxTransactionLen) :
    ((GlobalCtx.openedAt .confirmTransaction path).appended transaction).received
      = transaction := by
  rw [received_appended ((Nat.zero_add transaction.length).le.trans hlen)]
  rfl

/-- What comes of the further messages: `s` waits for message `i`. -/
def SentFrom (dev : Device) (s : App) (i : Nat) (chunks : List Chunk) (out : App × Log) : Prop :=
  if i + chunks.length ≤ 4 then
    let app := { s with ctx := s.ctx.appended (chunkBytes chunks) }
    out.1 = (signTxFinish dev app).1 ∧
      ∃ pos size offset, lastActions out.2 = .append pos size offset :: (signTxFinish dev app).2
  else (∃ ctx, out.1 = { s with ctx := ctx }) ∧ lastActions out.2 = [ioSendSw .wrongP1P2]

/-- An exchange continues a run. -/
theorem send_run {log : Log} (hrun : (machine dev).Run s log) (es : List Event) :
    (machine dev).Run (send dev s log es).1 (send dev s log es).2 := by
  induction es generalizing s log with
  | nil => exact hrun
  | cons e es ih =>
    unfold send
    dsimp only
    split
    · exact ih (hrun.step e)
    · exact hrun.step e

/-- The last message is sent without looking at its answer. -/
theorem send_last (s : App) (log : Log) (e : Event) :
    send dev s log [e] = (((machine dev).turn s e).post, (machine dev).turn s e :: log) := by
  simp only [send]
  split <;> rfl

theorem sentFrom_next : ∀ (rest : List Chunk) (chunk : Chunk) (i : Nat) (s : App) (log : Log),
    s.exited = false → 1 ≤ i → i ≤ 4 → s.ctx.bip32PathLen ≠ 0 →
    (∀ c ∈ chunk :: rest, c.data ≠ []) → s.ctx.txInfo.rawTxLen + 255 * (4 - i) ≤ maxTransactionLen →
    SentFrom dev s i (chunk :: rest) (send dev s log (signTxEvents i (chunk :: rest))) := by
  intro rest
  induction rest with
  | nil =>
    intro chunk i s log hlive hi hi4 hpath hne hfit
    have hdata := hne chunk (List.mem_cons_self ..)
    have hbytes : chunkBytes [chunk] = chunk.data := List.append_nil _
    unfold SentFrom
    rw [signTxEvents, send_last, Lib.Machine.turn_post]
    dsimp only [lastActions]
    rw [Lib.Machine.turn_actions]
    by_cases h3 : i ≤ 3
    · have hchunk := ofNat_ne_zero hi h3
      have := chunk.length_le
      obtain ⟨pos, size, offset, hstep⟩ := step_message dev hlive h3 false hdata
        ((entry_next_eq_some_iff hchunk).mpr ⟨rfl, rfl, hpath, by omega⟩)
      rw [if_neg Bool.false_ne_true, if_neg Bool.false_ne_true] at hstep
      rw [if_pos (by rw [List.length_singleton]; omega), hstep, hbytes]
      exact ⟨rfl, pos, size, offset, rfl⟩
    · obtain rfl : i = 4 := by omega
      rw [if_neg (by rw [List.length_singleton]; decide), step_fifth dev hlive]
      exact ⟨⟨s.ctx, rfl⟩, rfl⟩
  | cons next rest ih =>
    intro chunk i s log hlive hi hi4 hpath hne hfit
    obtain ⟨hdata, hrest⟩ := List.forall_mem_cons.mp hne
    have := chunk.length_le
    rw [signTxEvents, send]
    by_cases h3 : i ≤ 3
    · have hchunk := ofNat_ne_zero hi h3
      obtain ⟨pos, size, offset, hstep⟩ := step_message dev hlive h3 true hdata
        ((entry_next_eq_some_iff hchunk).mpr ⟨rfl, rfl, hpath, by omega⟩)
      rw [if_pos rfl, if_pos rfl] at hstep
      rw [Lib.Machine.turn_actions, hstep, if_pos (by simp [answeredOk, ioSendSw]),
        Lib.Machine.turn_post, hstep]
      have hnext := ih next (i + 1) { s with ctx := s.ctx.appended chunk.data }
        ((machine dev).turn s (.apdu (signTxCommand (UInt8.ofNat i) p2More chunk)) :: log)
        hlive (by omega) (by omega) hpath hrest (by rw [appended_rawTxLen]; omega)
      unfold SentFrom at hnext ⊢
      rw [List.length_cons (a := chunk), ← Nat.add_assoc, Nat.add_right_comm]
      by_cases hall : i + 1 + (next :: rest).length ≤ 4
      · have hlen := length_chunkBytes_le (next :: rest)
        rw [if_pos hall] at hnext ⊢
        rw [chunkBytes_cons, ← appended_append (by omega)]
        exact hnext
      · rw [if_neg hall] at hnext ⊢
        obtain ⟨⟨ctx, hctx⟩, hlast⟩ := hnext
        exact ⟨⟨ctx, hctx⟩, hlast⟩
    · obtain rfl : i = 4 := by omega
      have hstep := step_fifth dev hlive p2More chunk
      rw [Lib.Machine.turn_actions, hstep, if_neg (by simp [answeredOk, ioSendSw])]
      unfold SentFrom
      rw [if_neg (by simp), Lib.Machine.turn_post, hstep]
      dsimp only [lastActions]
      rw [Lib.Machine.turn_actions, hstep]
      exact ⟨⟨s.ctx, rfl⟩, rfl⟩

/-- What comes of the whole exchange, for every transaction: at most four messages
leave its bytes behind the path, parsed, hashed and shown or refused; more end
in SW_WRONG_P1P2. -/
theorem send_signTx (log : Log) (hlive : s.exited = false) {path : List UInt32} (hpath : path ≠ [])
    (hmax : path.length ≤ maxBip32Path) (transaction : List UInt8) :
    let out := send dev s log (signTxMessages path transaction)
    if 1 + 4 * path.length + transaction.length ≤ 1020 then
      let app := { s with ctx := (GlobalCtx.openedAt .confirmTransaction path).appended transaction }
      out.1 = (signTxFinish dev app).1 ∧
        ∃ pos size offset, lastActions out.2 = .append pos size offset :: (signTxFinish dev app).2
    else (∃ ctx, out.1 = { s with ctx := ctx }) ∧ lastActions out.2 = [ioSendSw .wrongP1P2] := by
  intro out
  have hten : path.length ≤ 10 := hmax
  have hmessage : pathPrefix path ++ transaction ≠ [] := List.cons_ne_nil _ _
  obtain ⟨hbytes, hall⟩ := splitMessage_spec (pathPrefix path ++ transaction)
  have hcount : (splitMessage (pathPrefix path ++ transaction)).length ≤ 4
      ↔ 1 + 4 * path.length + transaction.length ≤ 1020 := by
    rw [← length_pathPrefix path, ← List.length_append]
    exact length_splitMessage_le_iff _ 4
  -- the first message holds the whole path
  have hfirst : (pathPrefix path ++ transaction).take maxApduLen
      = pathPrefix path ++ transaction.take (maxApduLen - (1 + 4 * path.length)) := by
    rw [List.take_append, length_pathPrefix, List.take_of_length_le]
    rw [length_pathPrefix]
    show _ ≤ 255
    omega
  have hout : out = send dev s log (signTxEvents 0 (splitMessage (pathPrefix path ++ transaction))) :=
    rfl
  rw [splitMessage_cons hmessage] at hbytes hall hcount hout
  obtain ⟨hdata, hrest⟩ := List.forall_mem_cons.mp hall
  generalize splitMessage ((pathPrefix path ++ transaction).drop maxApduLen) = rest at *
  generalize hhead : transaction.take (maxApduLen - (1 + 4 * path.length)) = head at hfirst
  have hheadLen : head.length ≤ 255 := by
    rw [← hhead, List.length_take]
    exact (Nat.min_le_left _ _).trans (Nat.sub_le _ _)
  have htransaction : head ++ chunkBytes rest = transaction := by
    rw [chunkBytes_cons] at hbytes
    dsimp only at hbytes
    rw [hfirst, List.append_assoc] at hbytes
    exact List.append_cancel_left hbytes
  have hentry : entry s.ctx (UInt8.ofNat 0) ((pathPrefix path ++ transaction).take maxApduLen)
      = some (.openedAt .confirmTransaction path, head) := by
    rw [hfirst]
    refine (entry_first_eq s.ctx (pathOf_pathPrefix hmax head) hpath).trans ?_
    rw [bodyOf_pathPrefix hmax head]
  rw [hout]
  cases rest with
  | nil =>
    obtain ⟨pos, size, offset, hstep⟩ := step_message dev hlive (Nat.zero_le 3) false hdata hentry
    rw [if_neg Bool.false_ne_true, if_neg Bool.false_ne_true] at hstep
    have hwhole : head = transaction := (List.append_nil head).symm.trans htransaction
    rw [if_pos (hcount.mp (by simp)), signTxEvents, send_last, Lib.Machine.turn_post]
    dsimp only [lastActions]
    rw [Lib.Machine.turn_actions, hstep, hwhole]
    exact ⟨rfl, pos, size, offset, rfl⟩
  | cons next rest =>
    obtain ⟨pos, size, offset, hstep⟩ := step_message dev hlive (Nat.zero_le 3) true hdata hentry
    rw [if_pos rfl, if_pos rfl] at hstep
    have hlen : ((GlobalCtx.openedAt .confirmTransaction path).appended head).txInfo.rawTxLen
        = head.length := Nat.zero_add _
    have hnext := sentFrom_next dev rest next 1
      { s with ctx := (GlobalCtx.openedAt .confirmTransaction path).appended head }
      ((machine dev).turn s (.apdu (signTxCommand (UInt8.ofNat 0) p2More
        ⟨(pathPrefix path ++ transaction).take maxApduLen, List.length_take_le _ _⟩)) :: log)
      hlive (le_refl 1) (by decide) (entry_fits (List.length_take_le _ _) hentry).1 hrest
      (by rw [hlen]; show _ + 255 * 3 ≤ 1024; omega)
    rw [signTxEvents, send]
    have hok : answeredOk [.append pos size offset, ioSendSw .ok] = true := by
      simp [answeredOk, ioSendSw]
    rw [Lib.Machine.turn_actions, hstep, if_pos hok, Lib.Machine.turn_post, hstep]
    unfold SentFrom at hnext
    rw [List.length_cons, Nat.add_comm] at hcount
    by_cases hfit : 1 + 4 * path.length + transaction.length ≤ 1020
    · rw [if_pos (hcount.mpr hfit)] at hnext
      rw [if_pos hfit]
      rw [appended_append, htransaction] at hnext
      · exact hnext
      · rw [Nat.add_assoc, ← List.length_append, htransaction]
        show 0 + _ ≤ 1024
        omega
    · rw [if_neg fun hle => hfit (hcount.mp hle)] at hnext
      rw [if_neg hfit]
      obtain ⟨⟨ctx, hctx⟩, hlast⟩ := hnext
      exact ⟨⟨ctx, hctx⟩, hlast⟩

end Exchange

/-! ## The signature -/

/-- What the app signs on approval: anything with blind signing on, otherwise a
transaction that parses and names the derived key as its sender. -/
def SignsFor (settings : AppSettings) (keypair : QubicKeypair) (transaction : List UInt8) : Prop :=
  settings.allowBlindSign = blindSignEnabled ∨
    Parses transaction ∧ keypair.publicKey = (decodeTransaction transaction).sourcePublicKey

section Signature

variable (dev : Device) {keypair : QubicKeypair}

/-- The data an approval returns with SW_OK. -/
theorem respond_ok_mem_approve_iff {s : App} {e : Event} (h : Approves s e)
    (hkey : derivedKeypair dev s.ctx = .ok keypair) (rdata : List UInt8) :
    Action.respond rdata .ok ∈ (step dev s e).2 ↔
      PassesSourceCheck s keypair ∧
        rdata = 64 :: (signatureOf dev.fourQ keypair s.ctx.txInfo.mHash).cells := by
  have hclose : Action.respond rdata .ok ∉ closingPage dev.build .transactionSigned := by
    intro hpage
    exact absurd (closingPage_status hpage) (by simp)
  by_cases hpass : PassesSourceCheck s keypair
  · rw [step_approve_signed dev h hkey hpass]
    simp [hclose, hpass]
  · rw [step_approve_mismatch dev h hkey hpass]
    simp [hclose, hpass, ioSendSw]

/-- Without a review on screen a decision does nothing. -/
theorem step_decide_none (s : App) (hscreen : s.screen = none) (confirm : Bool) :
    (step dev s (.decide confirm)).2 = [] := by
  unfold step
  split
  · rfl
  · dsimp only
    rw [hscreen]

/-- Approving whatever the final message put on screen. -/
theorem respond_ok_mem_finish_iff (app : App) (hlive : app.exited = false)
    (hscreen : app.screen = none) (hkey : derivedKeypair dev app.ctx = .ok keypair)
    (rdata : List UInt8) :
    Action.respond rdata .ok ∈ (step dev (signTxFinish dev app).1 (.decide true)).2 ↔
      SignsFor app.storage.settings keypair app.ctx.received ∧
        rdata = 64 :: (signatureOf dev.fourQ keypair (digestOf app.ctx.received)).cells := by
  rw [signTxFinish_eq]
  have hderived : derivedKeypair dev app.ctx.finished = .ok keypair := hkey
  by_cases hparse : Parses app.ctx.received
  · rw [if_pos hparse]
    have happrove : Approves
        { app with
          ctx := app.ctx.finished
          screen := some (clearReview dev.build app.storage.settings
            (decodeTransaction app.ctx.received)) } (.decide true) :=
      ⟨hlive, rfl, _, rfl, by rw [clearReview_kind]; simp⟩
    refine (respond_ok_mem_approve_iff dev happrove hderived rdata).trans
      (and_congr_left fun _ => or_congr_right ?_)
    have hsource : app.ctx.finished.txInfo.transactionQubic = decodeTransaction app.ctx.received :=
      congrArg Prod.snd (hparse.deserialize _)
    dsimp only
    rw [hsource]
    exact (and_iff_right hparse).symm
  · rw [if_neg hparse]
    by_cases hblind : app.storage.settings.allowBlindSign = blindSignEnabled
    · rw [if_pos hblind]
      have happrove : Approves
          { app with
            ctx := app.ctx.finished
            screen := some (blindReview dev.build app.storage.settings
              app.ctx.finished.txInfo.transactionQubic) } (.decide true) :=
        ⟨hlive, rfl, _, rfl, by rw [blindReview_kind]; simp⟩
      refine (respond_ok_mem_approve_iff dev happrove hderived rdata).trans
        (and_congr_left fun _ => ?_)
      exact iff_of_true (Or.inl hblind) (Or.inl hblind)
    · -- nothing was put on screen
      have hquiet := step_decide_none dev { app with ctx := app.ctx.finished } hscreen true
      rw [if_neg hblind, hquiet]
      refine iff_of_false List.not_mem_nil ?_
      rintro ⟨hon | ⟨hok, -⟩, -⟩
      · exact hblind hon
      · exact hparse hok

end Signature

/-- What the client of an idle app gets for an approval: data only if its path and
transaction made four messages at most and the app signs for the transaction,
and then the signature of its digest. -/
theorem respond_ok_mem_send_iff (dev : Device) {s : App} (log : Log) (hlive : s.exited = false)
    (hscreen : s.screen = none) {path : List UInt32} (hpath : path ≠ [])
    (hmax : path.length ≤ maxBip32Path) {keypair : QubicKeypair}
    (hkey : deriveQubicKeypair dev.sdk dev.fourQ (storedPath path) (UInt8.ofNat path.length)
      = .ok keypair) (transaction rdata : List UInt8) :
    let out := send dev s log (signTxMessages path transaction)
    Action.respond rdata .ok ∈ ((machine dev).turn out.1 (.decide true)).actions ↔
      1 + 4 * path.length + transaction.length ≤ 1020 ∧
      SignsFor s.storage.settings keypair transaction ∧
      rdata = 64 :: (signatureOf dev.fourQ keypair (digestOf transaction)).cells := by
  intro out
  have hsent := send_signTx dev log hlive hpath hmax transaction
  rw [Lib.Machine.turn_actions, machine_step]
  by_cases hfit : 1 + 4 * path.length + transaction.length ≤ 1020
  · dsimp only at hsent
    rw [if_pos hfit] at hsent
    have hreceived := received_openedAt path transaction (by
      show transaction.length ≤ 1024
      omega)
    have hfinish := respond_ok_mem_finish_iff dev
      { s with ctx := (GlobalCtx.openedAt .confirmTransaction path).appended transaction }
      hlive hscreen hkey rdata
    dsimp only at hfinish
    rw [hreceived, ← hsent.1] at hfinish
    exact hfinish.trans (and_iff_right hfit).symm
  · dsimp only at hsent
    rw [if_neg hfit] at hsent
    obtain ⟨⟨ctx, hctx⟩, -⟩ := hsent
    have hidle : out.1.screen = none := (congrArg App.screen hctx).trans hscreen
    rw [step_decide_none dev _ hidle]
    exact iff_of_false List.not_mem_nil fun h => hfit h.1

end QubicLedger
