import QubicLedger.Session.Reassembly

/-!
# Cutting a transaction into chunks

A client sends `path ‖ body` as chunks of at most 255 bytes with P1 = 0, 1, 2,
3 and P2 = MORE on all but the last. `exec_signTxEvents` follows the app
through such a sequence: the first chunk opens a fresh context, each further
one appends, and the last one parses and hashes, so the final context is a
function of path and body alone and neither the cut nor anything that happened
before matters.

An empty chunk is sent as a command without data, which the dispatcher
refuses; the sequence goes on as if it had not been sent, except that an empty
last chunk leaves the body unparsed.
-/

namespace QubicLedger

open Lib (FixedBuf)

/-- The data field of one command. -/
structure Chunk where
  data : List UInt8
  length_le : data.length ≤ 255 := by decide

/-- A first chunk: the path and the head of the body. -/
def firstChunk (path : List UInt32) (head : List UInt8)
    (h : 1 + 4 * path.length + head.length ≤ 255) : Chunk :=
  ⟨pathPrefix path ++ head, by rwa [List.length_append, length_pathPrefix]⟩

/-- The sample path and a whole transfer. -/
def transferChunk (amount : UInt8) : Chunk :=
  firstChunk samplePath (sampleTransfer amount) (Nat.le_of_ble_eq_true rfl)

/-- A single further byte. -/
def byteChunk : Chunk := ⟨[0xAA], by decide⟩

/-- One SIGN_TX command. -/
def signTxCommand (p1 p2 : UInt8) (chunk : Chunk) : Command :=
  { cla := cla, ins := insSignTx, p1 := p1, p2 := p2, data := chunk.data
    lc_le := chunk.length_le }

/-- The commands a client sends for its chunks, numbered from `i`. -/
def signTxEvents : Nat → List Chunk → List Event
  | _, [] => []
  | i, [chunk] => [.apdu (signTxCommand (UInt8.ofNat i) p2Last chunk)]
  | i, chunk :: next :: rest =>
    .apdu (signTxCommand (UInt8.ofNat i) p2More chunk) :: signTxEvents (i + 1) (next :: rest)

/-- All the bytes of some chunks. -/
def chunkBytes (chunks : List Chunk) : List UInt8 := chunks.flatMap Chunk.data

/-- The context a complete sequence leaves: `body` behind a fresh path, parsed
and hashed unless the last command carried nothing. -/
def sentCtx (base : GlobalCtx) (body : List UInt8) (last : Chunk) : GlobalCtx :=
  if last.data = [] then base.appended body else (base.appended body).finished

/-! ## One command -/

theorem request_signTxCommand {i : Nat} (hi : i ≤ 3) (more : Bool) {chunk : Chunk}
    (hne : chunk.data ≠ []) :
    (signTxCommand (UInt8.ofNat i) (if more then p2More else p2Last) chunk).request
      = .signTx (UInt8.ofNat i) more chunk.data := by
  have hp1 : ¬UInt8.ofNat i > p1Max := by
    intro h
    have hlt := UInt8.lt_iff_toNat_lt.mp h
    rw [UInt8.toNat_ofNat', Nat.mod_eq_of_lt (by omega), show p1Max.toNat = 3 from rfl] at hlt
    omega
  unfold Command.request signTxCommand
  dsimp only
  rw [if_neg (by simp), if_neg (by decide), if_pos rfl, if_neg]
  · cases more with
    | true =>
      show Request.signTx _ (decide (p2More &&& p2More ≠ 0)) _ = _
      rw [decide_eq_true (by decide)]
    | false =>
      show Request.signTx _ (decide (p2Last &&& p2More ≠ 0)) _ = _
      rw [decide_eq_false (by decide)]
  · rintro (h | ⟨hlast, hmore⟩ | h)
    · exact hp1 h
    · cases more
      · exact hlast rfl
      · exact hmore rfl
    · exact hne h

theorem request_signTxCommand_empty (p1 p2 : UInt8) {chunk : Chunk} (h : chunk.data = []) :
    (signTxCommand p1 p2 chunk).request = .other := by
  rcases data_of_request (signTxCommand p1 p2 chunk) with hother | ⟨-, hne⟩
  · exact hother
  · exact absurd h hne

theorem appended_nil {ctx : GlobalCtx} (h : ctx.txInfo.rawTxLen ≤ maxTransactionLen) :
    ctx.appended [] = ctx := by
  unfold GlobalCtx.appended
  rw [FixedBuf.write_nil h]
  rfl

/-- Two appends are one. -/
theorem appended_append {ctx : GlobalCtx} {xs ys : List UInt8}
    (h : ctx.txInfo.rawTxLen + xs.length + ys.length ≤ maxTransactionLen) :
    (ctx.appended xs).appended ys = ctx.appended (xs ++ ys) := by
  unfold GlobalCtx.appended
  dsimp only
  rw [FixedBuf.write_append h, List.length_append, Nat.add_assoc]

section Command

variable (dev : Device) {s : App} {i : Nat} {chunk : Chunk}

/-- A chunk that is let in, whether it is the last or not. -/
theorem step_signTxCommand (hlive : s.exited = false) (hi : i ≤ 3) (more : Bool)
    (hne : chunk.data ≠ []) {base : GlobalCtx} {body : List UInt8}
    (hentry : entry s.ctx (UInt8.ofNat i) chunk.data = some (base, body)) :
    let s' := (step dev s (.apdu (signTxCommand (UInt8.ofNat i) (if more then p2More else p2Last)
      chunk))).1
    s'.ctx = (if more then base.appended body else (base.appended body).finished) ∧
      s'.exited = false := by
  have hreq : s.request (.apdu (signTxCommand (UInt8.ofNat i)
      (if more then p2More else p2Last) chunk)) = .signTx (UInt8.ofNat i) more chunk.data := by
    unfold App.request
    rw [if_neg (by rw [hlive]; exact Bool.false_ne_true)]
    exact request_signTxCommand hi more hne
  obtain ⟨hctx, hexited⟩ := step_entry_ctx dev hreq hentry
  exact ⟨hctx, hexited.trans hlive⟩

/-- A further chunk that fits is appended; an empty one changes nothing. -/
theorem step_next_more (hlive : s.exited = false) (hi : 1 ≤ i) (hi3 : i ≤ 3)
    (hpath : s.ctx.bip32PathLen ≠ 0)
    (hfit : s.ctx.txInfo.rawTxLen + chunk.data.length ≤ maxTransactionLen) :
    let s' := (step dev s (.apdu (signTxCommand (UInt8.ofNat i) p2More chunk))).1
    s'.ctx = s.ctx.appended chunk.data ∧ s'.exited = false := by
  by_cases hne : chunk.data = []
  · dsimp only
    rw [step_refused_by_dispatcher dev s (request_signTxCommand_empty _ _ hne), hne,
      appended_nil (Nat.le_trans (Nat.le_add_right _ _) hfit)]
    exact ⟨rfl, hlive⟩
  · have hchunk : UInt8.ofNat i ≠ 0 := by
      intro h0
      have := congrArg UInt8.toNat h0
      rw [UInt8.toNat_ofNat', Nat.mod_eq_of_lt (by omega), show (0 : UInt8).toNat = 0 from rfl]
        at this
      omega
    exact step_signTxCommand dev hlive hi3 true hne
      ((entry_next_eq_some_iff hchunk).mpr ⟨rfl, rfl, hpath, hfit⟩)

/-- The last chunk is appended, and the body parsed and hashed unless it is empty. -/
theorem step_next_last (hlive : s.exited = false) (hi : 1 ≤ i) (hi3 : i ≤ 3)
    (hpath : s.ctx.bip32PathLen ≠ 0)
    (hfit : s.ctx.txInfo.rawTxLen + chunk.data.length ≤ maxTransactionLen) :
    (step dev s (.apdu (signTxCommand (UInt8.ofNat i) p2Last chunk))).1.ctx
      = sentCtx s.ctx chunk.data chunk := by
  unfold sentCtx
  by_cases hne : chunk.data = []
  · rw [step_refused_by_dispatcher dev s (request_signTxCommand_empty _ _ hne), if_pos hne, hne,
      appended_nil (Nat.le_trans (Nat.le_add_right _ _) hfit)]
  · have hchunk : UInt8.ofNat i ≠ 0 := by
      intro h0
      have := congrArg UInt8.toNat h0
      rw [UInt8.toNat_ofNat', Nat.mod_eq_of_lt (by omega), show (0 : UInt8).toNat = 0 from rfl]
        at this
      omega
    rw [if_neg hne]
    exact (step_signTxCommand dev hlive hi3 false hne
      ((entry_next_eq_some_iff hchunk).mpr ⟨rfl, rfl, hpath, hfit⟩)).1

end Command

/-! ## The whole sequence -/

theorem chunkBytes_cons (chunk : Chunk) (rest : List Chunk) :
    chunkBytes (chunk :: rest) = chunk.data ++ chunkBytes rest := List.flatMap_cons ..

theorem length_chunkBytes_le (chunks : List Chunk) :
    (chunkBytes chunks).length ≤ 255 * chunks.length := by
  induction chunks with
  | nil => exact Nat.le_refl _
  | cons chunk rest ih =>
    have := chunk.length_le
    rw [chunkBytes_cons, List.length_append, List.length_cons]
    omega

/-- Further chunks, from a context that is waiting for them. -/
theorem exec_next (dev : Device) : ∀ (rest : List Chunk) (chunk : Chunk) (i : Nat) (s : App)
    (log : Log), s.exited = false → 1 ≤ i → i + rest.length ≤ 3 → s.ctx.bip32PathLen ≠ 0 →
    s.ctx.txInfo.rawTxLen + (chunkBytes (chunk :: rest)).length ≤ maxTransactionLen →
    ((machine dev).exec s log (signTxEvents i (chunk :: rest))).1.ctx
      = sentCtx s.ctx (chunkBytes (chunk :: rest)) (rest.getLastD chunk) := by
  intro rest
  induction rest with
  | nil =>
    intro chunk i s log hlive hi hi3 hpath hfit
    have hbytes : chunkBytes [chunk] = chunk.data := by
      rw [chunkBytes_cons]
      exact List.append_nil _
    rw [hbytes] at hfit ⊢
    exact step_next_last dev hlive hi hi3 hpath hfit
  | cons next rest ih =>
    intro chunk i s log hlive hi hi3 hpath hfit
    rw [chunkBytes_cons, List.length_append] at hfit
    rw [List.length_cons] at hi3
    obtain ⟨hctx, hlive'⟩ :
        (step dev s (.apdu (signTxCommand (UInt8.ofNat i) p2More chunk))).1.ctx
          = s.ctx.appended chunk.data ∧
        (step dev s (.apdu (signTxCommand (UInt8.ofNat i) p2More chunk))).1.exited = false :=
      step_next_more dev hlive hi (by omega) hpath (by omega)
    rw [signTxEvents, Lib.Machine.exec_cons, machine_step,
      ih next (i + 1) _ _ hlive' (by omega) (by omega)]
    · -- what is appended after the chunk is appended behind it
      rw [hctx]
      unfold sentCtx
      rw [appended_append (by omega), chunkBytes_cons chunk, List.getLastD_cons]
    · rw [hctx]
      exact hpath
    · rw [hctx, appended_rawTxLen]
      omega

/-- The whole sequence, from any live state. -/
theorem exec_signTxEvents (dev : Device) {s : App} (log : Log) (hlive : s.exited = false)
    {path : List UInt32} (hpath : path ≠ []) (hmax : path.length ≤ maxBip32Path)
    {first : Chunk} {rest : List Chunk} {head : List UInt8}
    (hfirst : first.data = pathPrefix path ++ head) (hrest : rest.length ≤ 3) :
    ((machine dev).exec s log (signTxEvents 0 (first :: rest))).1.ctx
      = sentCtx (.openedAt .confirmTransaction path) (head ++ chunkBytes rest)
          (rest.getLastD first) := by
  have hten : path.length ≤ 10 := hmax
  have hpathOf : pathOf first.data = some path := by
    rw [hfirst]
    exact pathOf_pathPrefix hmax head
  have hbody : bodyOf first.data = head := by
    rw [hfirst]
    exact bodyOf_pathPrefix hmax head
  have hne : first.data ≠ [] := by
    rw [hfirst]
    exact List.cons_ne_nil _ _
  have hentry : entry s.ctx (UInt8.ofNat 0) first.data
      = some (.openedAt .confirmTransaction path, head) := by
    rw [← hbody]
    exact entry_first_eq s.ctx hpathOf hpath
  have hhead : head.length ≤ 255 := by
    have hlen := congrArg List.length hfirst
    rw [List.length_append] at hlen
    have := first.length_le
    omega
  cases rest with
  | nil =>
    -- the first chunk is also the last
    obtain ⟨hctx, -⟩ := step_signTxCommand dev hlive (Nat.zero_le 3) false hne hentry
    show ((step dev s (.apdu (signTxCommand (UInt8.ofNat 0) p2Last first))).1).ctx = _
    unfold sentCtx
    rw [List.getLastD_nil, if_neg hne]
    refine Eq.trans hctx ?_
    rw [if_neg Bool.false_ne_true, show chunkBytes [] = [] from rfl, List.append_nil]
  | cons next rest =>
    obtain ⟨hctx, hlive'⟩ :
        (step dev s (.apdu (signTxCommand (UInt8.ofNat 0) p2More first))).1.ctx
          = (GlobalCtx.openedAt .confirmTransaction path).appended head ∧
        (step dev s (.apdu (signTxCommand (UInt8.ofNat 0) p2More first))).1.exited = false :=
      step_signTxCommand dev hlive (Nat.zero_le 3) true hne hentry
    have hlen := length_chunkBytes_le (next :: rest)
    rw [List.length_cons] at hrest hlen
    have hpathLen : (GlobalCtx.openedAt .confirmTransaction path).bip32PathLen ≠ 0 :=
      (entry_fits first.length_le hentry).1
    rw [signTxEvents, Lib.Machine.exec_cons, machine_step,
      exec_next dev rest next (0 + 1) _ _ hlive' (by omega) (by omega)]
    · rw [hctx]
      unfold sentCtx
      rw [appended_append, List.getLastD_cons]
      · show 0 + _ + _ ≤ 1024
        omega
    · rw [hctx]
      exact hpathLen
    · rw [hctx, appended_rawTxLen]
      show 0 + _ + _ ≤ 1024
      omega

/-! ## Reassembly as a whole -/

/-- Reassembly is exact and in bounds, in every run and after any event; and
every cut of `path ‖ body` into at most four chunks, the first holding the
whole path prefix, ends with the body in `raw_tx`, the path stored and the
digest of the body in `m_hash`. -/
theorem reassembly_exact {dev : Device} {s : App} {log : Log} (hrun : (machine dev).Run s log) :
    (s.ctx.txInfo.rawTxLen ≤ maxTransactionLen ∧ s.ctx.received = accepted log) ∧
    (∀ e pos size offset, Action.append pos size offset ∈ (step dev s e).2 →
      offset ≤ size ∧ pos + (size - offset) ≤ maxTransactionLen) ∧
    (∀ cmd : Command, cmd.request = .other → (step dev s (.apdu cmd)).1 = s) ∧
    (∀ e chunk more data, s.request e = .signTx chunk more data → chunk ≠ 0 →
      (step dev s e).2 = [ioSendSw .wrongTxLength] ∨
        (step dev s e).2 = [ioSendSw .wrongBip32PathLength] →
      (step dev s e).1 = s) ∧
    (∀ path body first rest, s.exited = false → 1 ≤ path.length → path.length ≤ maxBip32Path →
      rest.length ≤ 3 → pathPrefix path <+: first.data →
      chunkBytes (first :: rest) = pathPrefix path ++ body →
      let ctx := ((machine dev).exec s log (signTxEvents 0 (first :: rest))).1.ctx
      ctx.received = body ∧ ctx.txInfo.rawTxLen = body.length ∧
        ctx.bip32PathLen.toNat = path.length ∧ ctx.bip32Path.cells.take path.length = path ∧
        ((rest.getLastD first).data ≠ [] →
          ctx.txInfo.mHash.cells = kangarooTwelve body transactionDigestLen ∧
          ctx = ((GlobalCtx.openedAt .confirmTransaction path).appended body).finished)) := by
  refine ⟨⟨rawTxLen_le hrun, received_eq_accepted hrun⟩, ?_, ?_, ?_, ?_⟩
  · intro e pos size offset hmem
    exact append_inBounds hrun e hmem
  · intro cmd hcmd
    exact step_refused_by_dispatcher dev s hcmd
  · intro e chunk more data hreq hchunk hacts
    exact step_refused_continuation hrun hreq hchunk hacts
  · rintro path body first rest hlive hpos hmax hrest ⟨head, hhead⟩ hbytes
    have hne : path ≠ [] := fun h0 => absurd hpos (by rw [h0]; decide)
    have hten : path.length ≤ 10 := hmax
    have hbody : head ++ chunkBytes rest = body := by
      rw [chunkBytes_cons, ← hhead, List.append_assoc] at hbytes
      exact List.append_cancel_left hbytes
    have hfit : (GlobalCtx.openedAt .confirmTransaction path).txInfo.rawTxLen + body.length
        ≤ maxTransactionLen := by
      have hlen := congrArg List.length hbytes
      have htotal := length_chunkBytes_le (first :: rest)
      rw [List.length_append, length_pathPrefix] at hlen
      rw [List.length_cons] at htotal
      show 0 + body.length ≤ 1024
      omega
    have hbyte : (UInt8.ofNat path.length).toNat = path.length := by
      rw [UInt8.toNat_ofNat', Nat.mod_eq_of_lt (by omega)]
    have hreceived : ((GlobalCtx.openedAt .confirmTransaction path).appended body).received
        = body := by
      rw [received_appended hfit]
      rfl
    dsimp only
    rw [exec_signTxEvents dev log hlive hne hmax hhead.symm hrest, hbody]
    unfold sentCtx
    split
    next hempty =>
      exact ⟨hreceived, Nat.zero_add _, hbyte, take_storedPath hmax, fun h => absurd hempty h⟩
    next =>
      refine ⟨hreceived, Nat.zero_add _, hbyte, take_storedPath hmax, fun _ => ⟨?_, rfl⟩⟩
      show (digestOf (GlobalCtx.received _)).cells = _
      rw [hreceived, digestOf_cells]

/-- A three-byte body sent in two chunks, after some bytes that are no command. -/
theorem reassembly_exact_sample :
    let M := machine (sampleDevice .nbgl)
    let before := M.exec (appMain .default) [] [.badApdu]
    let out := M.exec before.1 before.2
      (signTxEvents 0 [⟨pathPrefix samplePath, by decide⟩, ⟨[1, 2, 3], by decide⟩])
    before.1.ctx.received = accepted before.2 ∧ out.1.ctx.received = [1, 2, 3] ∧
      out.1.ctx.txInfo.mHash.cells = kangarooTwelve [1, 2, 3] transactionDigestLen := by
  have h := reassembly_exact (sample_run .nbgl [.badApdu])
  have hsplit := h.2.2.2.2 samplePath [1, 2, 3] ⟨pathPrefix samplePath, by decide⟩
    [⟨[1, 2, 3], by decide⟩] rfl (by decide) (by decide) (by decide) List.prefix_rfl rfl
  exact ⟨h.1.2, hsplit.1, (hsplit.2.2.2.2 (by decide)).1⟩

end QubicLedger
