import QubicLedger.Session.Path

/-!
# What one event can do

Every later argument about runs starts from `step_effect`: one event, taken
from a state whose `raw_tx_len` is within `raw_tx`, has one of the outcomes
listed by `Effect`, each with the state it leaves and the actions it took.

The equations under it say what the two handlers compute. `entry` is the
first half of `handler_sign_tx`: the context a chunk is appended to and the
bytes appended, or nothing if the chunk is refused; `GlobalCtx.appended` is
the append and `GlobalCtx.finished` the parse and the hash.
-/

namespace QubicLedger

open Lib (FixedBuf)

/-! ## The dispatcher -/

/-- The data field of a request. -/
def Request.data : Request → List UInt8
  | .other => []
  | .getPublicKey _ data => data
  | .signTx _ _ data => data

/-- A command that reaches a context handler carries data, at most 255 bytes. -/
theorem data_of_request (cmd : Command) :
    cmd.request = .other ∨ (cmd.request.data = cmd.data ∧ cmd.data ≠ []) := by
  unfold Command.request
  split
  · exact Or.inl rfl
  split
  · split
    · exact Or.inl rfl
    next hp => exact Or.inr ⟨rfl, fun h0 => hp (Or.inr (Or.inr h0))⟩
  split
  · split
    · exact Or.inl rfl
    next hp => exact Or.inr ⟨rfl, fun h0 => hp (Or.inr (Or.inr h0))⟩
  · exact Or.inl rfl

theorem data_length_of_request (cmd : Command) : cmd.request.data.length ≤ 255 := by
  rcases data_of_request cmd with h | ⟨h, -⟩
  · rw [h]
    exact Nat.zero_le _
  · rw [h]
    exact cmd.lc_le

/-- What the dispatcher does with a command of each verdict. -/
def Dispatched (dev : Device) (app : App) (out : App × List Action) : Request → Prop
  | .other => ∃ rdata sw, out = (app, [.respond rdata sw])
  | .getPublicKey display data => out = handlerGetPublicKey dev app (.ofData data) display
  | .signTx chunk more data => out = handlerSignTx dev app (.ofData data) chunk more

/-- `apdu_dispatcher` follows the verdict. -/
theorem apduDispatcher_dispatched (dev : Device) (app : App) (cmd : Command) :
    Dispatched dev app (apduDispatcher dev app cmd) cmd.request := by
  have hother : ∀ rdata sw, Dispatched dev app (app, [.respond rdata sw]) .other :=
    fun rdata sw => ⟨rdata, sw, rfl⟩
  unfold apduDispatcher Command.request
  by_cases hcla : cmd.cla ≠ QubicLedger.cla
  · rw [if_pos hcla, if_pos hcla]
    exact hother _ _
  rw [if_neg hcla, if_neg hcla]
  -- the two handlers that only answer
  by_cases hversion : cmd.ins = insGetVersion
  · have hpub : cmd.ins ≠ insGetPublicKey := by rw [hversion]; decide
    have hsign : cmd.ins ≠ insSignTx := by rw [hversion]; decide
    rw [if_pos hversion, if_neg hpub, if_neg hsign]
    split <;> exact hother _ _
  rw [if_neg hversion]
  by_cases hname : cmd.ins = insGetAppName
  · have hpub : cmd.ins ≠ insGetPublicKey := by rw [hname]; decide
    have hsign : cmd.ins ≠ insSignTx := by rw [hname]; decide
    rw [if_pos hname, if_neg hpub, if_neg hsign]
    split <;> exact hother _ _
  rw [if_neg hname]
  -- the two that touch the context
  by_cases hpub : cmd.ins = insGetPublicKey
  · rw [if_pos hpub, if_pos hpub]
    by_cases hp : cmd.p1 > 1 ∨ cmd.p2 > 0
    · rw [if_pos hp, if_pos (or_assoc.mp (Or.inl hp))]
      exact hother _ _
    · rw [if_neg hp]
      by_cases hdata : cmd.data = []
      · rw [if_pos hdata, if_pos (Or.inr (Or.inr hdata))]
        exact hother _ _
      · rw [if_neg hdata, if_neg (fun h => (or_assoc.mpr h).elim hp hdata)]
        rfl
  rw [if_neg hpub, if_neg hpub]
  by_cases hsign : cmd.ins = insSignTx
  · rw [if_pos hsign, if_pos hsign]
    by_cases hp : cmd.p1 > p1Max ∨ (cmd.p2 ≠ p2Last ∧ cmd.p2 ≠ p2More)
    · rw [if_pos hp, if_pos (or_assoc.mp (Or.inl hp))]
      exact hother _ _
    · rw [if_neg hp]
      by_cases hdata : cmd.data = []
      · rw [if_pos hdata, if_pos (Or.inr (Or.inr hdata))]
        exact hother _ _
      · rw [if_neg hdata, if_neg (fun h => (or_assoc.mpr h).elim hp hdata)]
        rfl
  · rw [if_neg hsign, if_neg hsign]
    exact hother _ _

/-! ## `handler_get_public_key` -/

section GetPublicKey

variable (dev : Device) (app : App) {data : List UInt8} (display : Bool)

theorem handlerGetPublicKey_refused (hne : data ≠ []) (h : pathOf data = none) :
    ∃ p, handlerGetPublicKey dev app (.ofData data) display
      = ({ app with ctx := .opened .confirmAddress (pathLenOf data) p },
          [ioSendSw .wrongDataLength]) := by
  obtain ⟨p, hfail, hctx⟩ := readPath_refuse dev.sdk .confirmAddress hne h
  refine ⟨p, ?_⟩
  unfold handlerGetPublicKey
  dsimp only
  rw [if_pos (by rw [hfail]; simp), hctx]

theorem handlerGetPublicKey_threw {path : List UInt32} {err : UInt32} (h : pathOf data = some path)
    (hkey : deriveQubicKeypair dev.sdk dev.fourQ (storedPath path) (UInt8.ofNat path.length)
      = .error err) :
    handlerGetPublicKey dev app (.ofData data) display
      = ({ app with ctx := .openedAt .confirmAddress path, exited := true },
          [.derive (storedPath path) (UInt8.ofNat path.length), .throw err]) := by
  unfold handlerGetPublicKey
  rw [readPath_accept dev.sdk .confirmAddress h]
  dsimp only
  rw [if_neg (by simp)]
  unfold GlobalCtx.openedAt
  rw [opened_bip32Path, opened_bip32PathLen, hkey]

/-- The context after a key was derived. -/
def pubkeyCtx (path : List UInt32) (keypair : QubicKeypair) : GlobalCtx :=
  (GlobalCtx.openedAt .confirmAddress path).setRawPublicKey keypair.publicKey

/-- A derived key is sent, or shown for confirmation; the guard of
`ui_display_address` always passes here. -/
theorem handlerGetPublicKey_derived {path : List UInt32} {keypair : QubicKeypair}
    (h : pathOf data = some path)
    (hkey : deriveQubicKeypair dev.sdk dev.fourQ (storedPath path) (UInt8.ofNat path.length)
      = .ok keypair) :
    handlerGetPublicKey dev app (.ofData data) display
      = if display then
          ({ app with
              ctx := pubkeyCtx path keypair
              screen := some (addressReview keypair.publicKey.cells) },
            [.derive (storedPath path) (UInt8.ofNat path.length),
              .review (addressReview keypair.publicKey.cells)])
        else
          ({ app with ctx := pubkeyCtx path keypair },
            [.derive (storedPath path) (UInt8.ofNat path.length),
              .respond keypair.publicKey.cells .ok]) := by
  have hkeyRead : (pubkeyCtx path keypair).rawPublicKey = keypair.publicKey.cells :=
    GlobalCtx.rawPublicKey_setRawPublicKey _ _
  have hguard : ¬((pubkeyCtx path keypair).reqType ≠ .confirmAddress ∨
      (pubkeyCtx path keypair).state ≠ .none) := by
    rintro (hreq | hstate)
    · exact hreq rfl
    · exact hstate rfl
  unfold handlerGetPublicKey
  rw [readPath_accept dev.sdk .confirmAddress h]
  dsimp only
  rw [if_neg (by simp)]
  have hopen : (GlobalCtx.openedAt .confirmAddress path).bip32Path = storedPath path := rfl
  have hopenLen : (GlobalCtx.openedAt .confirmAddress path).bip32PathLen
      = UInt8.ofNat path.length := rfl
  rw [hopen, hopenLen, hkey]
  cases display with
  | true =>
    show ((uiDisplayAddress { app with ctx := pubkeyCtx path keypair }).1,
      _ :: (uiDisplayAddress { app with ctx := pubkeyCtx path keypair }).2) = _
    unfold uiDisplayAddress
    rw [if_neg hguard, if_pos rfl]
    dsimp only
    rw [hkeyRead]
    rfl
  | false =>
    show (_, _ :: [Action.respond (pubkeyCtx path keypair).rawPublicKey .ok]) = _
    rw [hkeyRead, if_neg Bool.false_ne_true]
    rfl

end GetPublicKey

/-! ## `handler_sign_tx` -/

/-- Appending body bytes at the fill mark. -/
def GlobalCtx.appended (ctx : GlobalCtx) (body : List UInt8) : GlobalCtx :=
  { ctx with txInfo := { ctx.txInfo with
    rawTx := ctx.txInfo.rawTx.write ctx.txInfo.rawTxLen body
    rawTxLen := ctx.txInfo.rawTxLen + body.length } }

/-- `m_hash` of a byte string. -/
def digestOf (bytes : List UInt8) : FixedBuf UInt8 transactionDigestLen :=
  (FixedBuf.fill _ 0).write 0 (kangarooTwelve bytes transactionDigestLen)

theorem digestOf_cells (bytes : List UInt8) :
    (digestOf bytes).cells = kangarooTwelve bytes transactionDigestLen :=
  FixedBuf.cells_write_full (length_kangarooTwelve bytes (by decide))

/-- The context after the received bytes were parsed and hashed. -/
def GlobalCtx.finished (ctx : GlobalCtx) : GlobalCtx :=
  { ctx with
    state := if Parses ctx.received then .parsed else ctx.state
    txInfo := { ctx.txInfo with
      transactionQubic :=
        (deserializeTransaction ctx.txInfo.transactionQubic ctx.received).2
      mHash := digestOf ctx.received } }

/-- The context a chunk goes into and the bytes appended to it; nothing for a
chunk that is refused. -/
def entry (ctx : GlobalCtx) (chunk : UInt8) (data : List UInt8) :
    Option (GlobalCtx × List UInt8) :=
  if chunk = 0 then
    match pathOf data with
    | some (word :: words) => some (.openedAt .confirmTransaction (word :: words), bodyOf data)
    | _ => none
  else if ctx.bip32PathLen = 0 ∨ maxTransactionLen < ctx.txInfo.rawTxLen + data.length then none
  else some (ctx, data)

/-- The error of a continuation that is refused. -/
def continuationError (ctx : GlobalCtx) : StatusWord :=
  if ctx.bip32PathLen = 0 then .wrongBip32PathLength else .wrongTxLength

/-- A first chunk goes into a fresh context. -/
theorem entry_first {ctx base : GlobalCtx} {data body : List UInt8}
    (h : entry ctx 0 data = some (base, body)) :
    ∃ path, pathOf data = some path ∧ path ≠ [] ∧
      base = .openedAt .confirmTransaction path ∧ body = bodyOf data := by
  unfold entry at h
  rw [if_pos rfl] at h
  split at h
  next word words hpath =>
    injection h with h
    injection h with hbase hbody
    exact ⟨word :: words, hpath, List.cons_ne_nil _ _, hbase.symm, hbody.symm⟩
  next => exact absurd h (by simp)

theorem entry_first_eq (ctx : GlobalCtx) {data : List UInt8} {path : List UInt32}
    (hpath : pathOf data = some path) (hne : path ≠ []) :
    entry ctx 0 data = some (.openedAt .confirmTransaction path, bodyOf data) := by
  unfold entry
  rw [if_pos rfl, hpath]
  cases path with
  | nil => exact absurd rfl hne
  | cons word words => rfl

/-- A first chunk is refused for its path only. -/
theorem entry_first_none {ctx : GlobalCtx} {data : List UInt8} (h : entry ctx 0 data = none) :
    pathOf data = none ∨ pathOf data = some [] := by
  cases hpath : pathOf data with
  | none => exact Or.inl rfl
  | some path =>
    cases path with
    | nil => exact Or.inr rfl
    | cons word words =>
      rw [entry_first_eq ctx hpath (List.cons_ne_nil _ _)] at h
      exact absurd h (by simp)

/-- A continuation goes into the context as it stands. -/
theorem entry_next_eq_some_iff {ctx base : GlobalCtx} {chunk : UInt8} {data body : List UInt8}
    (hchunk : chunk ≠ 0) :
    entry ctx chunk data = some (base, body) ↔
      base = ctx ∧ body = data ∧ ctx.bip32PathLen ≠ 0 ∧
        ctx.txInfo.rawTxLen + data.length ≤ maxTransactionLen := by
  unfold entry
  rw [if_neg hchunk]
  constructor
  · intro h
    split at h
    · exact absurd h (by simp)
    next hfit =>
      injection h with h
      injection h with hbase hbody
      exact ⟨hbase.symm, hbody.symm, fun h0 => hfit (Or.inl h0),
        Nat.le_of_not_lt fun hlong => hfit (Or.inr hlong)⟩
  · rintro ⟨rfl, rfl, hpath, hlen⟩
    rw [if_neg]
    rintro (h0 | hlong)
    · exact hpath h0
    · exact absurd hlen (Nat.not_le_of_lt hlong)

/-- What holds of every chunk that is let in: there is a path, the whole
command would fit, and the bytes appended are the end of its data. -/
theorem entry_fits {ctx base : GlobalCtx} {chunk : UInt8} {data body : List UInt8}
    (hdata : data.length ≤ 255) (h : entry ctx chunk data = some (base, body)) :
    base.bip32PathLen ≠ 0 ∧ base.txInfo.rawTxLen + data.length ≤ maxTransactionLen ∧
      body.length ≤ data.length := by
  by_cases hchunk : chunk = 0
  · subst hchunk
    obtain ⟨path, hpath, hne, rfl, rfl⟩ := entry_first h
    obtain ⟨hlen, hmax, -, -⟩ := pathOf_eq_some hpath
    have hpos : path.length ≠ 0 := fun h0 => hne (List.eq_nil_of_length_eq_zero h0)
    have hbody := length_bodyOf hpath
    refine ⟨?_, ?_, ?_⟩
    · show UInt8.ofNat path.length ≠ 0
      rw [← pathLenOf_eq hpath]
      intro h0
      rw [h0] at hlen
      exact hpos hlen
    · show 0 + data.length ≤ 1024
      omega
    · omega
  · obtain ⟨rfl, rfl, hpath, hfit⟩ := (entry_next_eq_some_iff hchunk).mp h
    exact ⟨hpath, hfit, Nat.le_refl _⟩

section SignTx

variable (dev : Device) (app : App) {data : List UInt8}

/-- A chunk that fits is copied behind the received bytes; no subtraction or
sum of the source wraps. -/
theorem signTxAppend_fits {off : Nat} (more : Bool) (hpath : app.ctx.bip32PathLen ≠ 0)
    (hfit : app.ctx.txInfo.rawTxLen + data.length ≤ maxTransactionLen) (hoff : off ≤ data.length) :
    signTxAppend dev app { ptr := data, size := data.length, offset := off } more
      = if more then
          ({ app with ctx := app.ctx.appended (data.drop off) },
            [.append app.ctx.txInfo.rawTxLen data.length off, ioSendSw .ok])
        else
          ((signTxFinish dev { app with ctx := app.ctx.appended (data.drop off) }).1,
            .append app.ctx.txInfo.rawTxLen data.length off
              :: (signTxFinish dev { app with ctx := app.ctx.appended (data.drop off) }).2) := by
  have hfit' : app.ctx.txInfo.rawTxLen + data.length ≤ 1024 := hfit
  have hsum : addSizeT app.ctx.txInfo.rawTxLen data.length
      = app.ctx.txInfo.rawTxLen + data.length := addSizeT_eq (by unfold sizeTModulus; omega)
  have hrem : subSizeT data.length off = data.length - off :=
    subSizeT_eq hoff (by unfold sizeTModulus; omega)
  have hmove := dev.sdk.move_rest { ptr := data, size := data.length, offset := off } hoff
  have hgrown : addSizeT app.ctx.txInfo.rawTxLen (data.length - off)
      = app.ctx.txInfo.rawTxLen + (data.drop off).length := by
    rw [List.length_drop]
    exact addSizeT_eq (by unfold sizeTModulus; omega)
  rw [Buffer.rest_advance] at hmove
  unfold signTxAppend
  dsimp only at hmove ⊢
  rw [if_neg hpath, hsum, if_neg (Nat.not_lt_of_le hfit), hrem, hmove]
  dsimp only
  rw [if_neg (by simp), hgrown]
  rfl

/-- A continuation that does not fit changes nothing. -/
theorem signTxAppend_refused {cdata : Buffer} (more : Bool)
    (hlen : app.ctx.txInfo.rawTxLen ≤ maxTransactionLen) (hsize : cdata.size ≤ 255)
    (h : app.ctx.bip32PathLen = 0 ∨ maxTransactionLen < app.ctx.txInfo.rawTxLen + cdata.size) :
    signTxAppend dev app cdata more = (app, [ioSendSw (continuationError app.ctx)]) := by
  have hlen' : app.ctx.txInfo.rawTxLen ≤ 1024 := hlen
  have hsum : addSizeT app.ctx.txInfo.rawTxLen cdata.size
      = app.ctx.txInfo.rawTxLen + cdata.size := addSizeT_eq (by unfold sizeTModulus; omega)
  unfold signTxAppend continuationError
  dsimp only
  by_cases hpath : app.ctx.bip32PathLen = 0
  · rw [if_pos hpath, if_pos hpath]
  · rw [if_neg hpath, if_neg hpath, hsum, if_pos (h.resolve_left hpath)]

/-- A chunk that is let in. -/
theorem handlerSignTx_entry {chunk : UInt8} {base : GlobalCtx} {body : List UInt8} (more : Bool)
    (hdata : data.length ≤ 255) (h : entry app.ctx chunk data = some (base, body)) :
    handlerSignTx dev app (.ofData data) chunk more
      = if more then
          ({ app with ctx := base.appended body },
            [.append base.txInfo.rawTxLen data.length (data.length - body.length), ioSendSw .ok])
        else
          ((signTxFinish dev { app with ctx := base.appended body }).1,
            .append base.txInfo.rawTxLen data.length (data.length - body.length)
              :: (signTxFinish dev { app with ctx := base.appended body }).2) := by
  obtain ⟨hpathLen, hfit, hbody⟩ := entry_fits hdata h
  unfold handlerSignTx
  by_cases hchunk : chunk = 0
  · subst hchunk
    obtain ⟨path, hpath, hne, rfl, rfl⟩ := entry_first h
    have hlen := length_bodyOf hpath
    have hoff : data.length - (bodyOf data).length = 1 + 4 * path.length := by omega
    have hdrop : data.drop (1 + 4 * path.length) = bodyOf data := by
      unfold bodyOf
      rw [(pathOf_eq_some hpath).1]
    rw [if_pos rfl, readPath_accept dev.sdk .confirmTransaction hpath]
    dsimp only
    rw [if_neg (by simp), signTxAppend_fits dev _ more hpathLen hfit (by omega), hdrop, hoff]
  · obtain ⟨rfl, rfl, -, -⟩ := (entry_next_eq_some_iff hchunk).mp h
    rw [if_neg hchunk, Nat.sub_self]
    exact signTxAppend_fits dev app more hpathLen hfit (Nat.zero_le _)

/-- A continuation that is refused changes nothing. -/
theorem handlerSignTx_next_refused {chunk : UInt8} (more : Bool) (hchunk : chunk ≠ 0)
    (hdata : data.length ≤ 255) (hlen : app.ctx.txInfo.rawTxLen ≤ maxTransactionLen)
    (h : entry app.ctx chunk data = none) :
    handlerSignTx dev app (.ofData data) chunk more
      = (app, [ioSendSw (continuationError app.ctx)]) := by
  unfold handlerSignTx
  rw [if_neg hchunk]
  refine signTxAppend_refused dev app more hlen hdata ?_
  unfold entry at h
  rw [if_neg hchunk] at h
  split at h
  next hbad => exact hbad
  next => exact absurd h (by simp)

/-- A first chunk without a full path. -/
theorem handlerSignTx_first_refused (more : Bool) (hne : data ≠ []) (h : pathOf data = none) :
    ∃ p, handlerSignTx dev app (.ofData data) 0 more
      = ({ app with ctx := .opened .confirmTransaction (pathLenOf data) p },
          [ioSendSw .wrongDataLength]) := by
  obtain ⟨p, hfail, hctx⟩ := readPath_refuse dev.sdk .confirmTransaction hne h
  refine ⟨p, ?_⟩
  unfold handlerSignTx
  rw [if_pos rfl]
  dsimp only
  rw [if_pos (by rw [hfail]; simp), hctx]

/-- A first chunk with the empty path. -/
theorem handlerSignTx_first_empty (more : Bool) (h : pathOf data = some []) :
    handlerSignTx dev app (.ofData data) 0 more
      = ({ app with ctx := .openedAt .confirmTransaction [] },
          [ioSendSw .wrongBip32PathLength]) := by
  unfold handlerSignTx
  rw [if_pos rfl, readPath_accept dev.sdk .confirmTransaction h]
  dsimp only
  rw [if_neg (by simp)]
  rfl

/-- The final chunk: an accepted body is shown in the clear, any other is shown
blind or refused, and the context is the same function of the old one. -/
theorem signTxFinish_eq :
    signTxFinish dev app
      = if Parses app.ctx.received then
          ({ app with
              ctx := app.ctx.finished
              screen := some (clearReview dev.build app.storage.settings
                (decodeTransaction app.ctx.received)) },
            [.review (clearReview dev.build app.storage.settings
              (decodeTransaction app.ctx.received))])
        else if app.storage.settings.allowBlindSign = blindSignEnabled then
          ({ app with
              ctx := app.ctx.finished
              screen := some (blindReview dev.build app.storage.settings
                app.ctx.finished.txInfo.transactionQubic) },
            [.review (blindReview dev.build app.storage.settings
              app.ctx.finished.txInfo.transactionQubic)])
        else ({ app with ctx := app.ctx.finished }, [ioSendSw .txParsingFail]) := by
  have hhash : app.ctx.txInfo.mHash.write 0 (kangarooTwelve app.ctx.received transactionDigestLen)
      = digestOf app.ctx.received :=
    FixedBuf.write_full_eq (length_kangarooTwelve _ (by decide))
  unfold signTxFinish GlobalCtx.finished
  dsimp only
  rw [hhash, uiDisplayTransaction_eq, uiDisplayBlindSignedTransaction_eq]
  by_cases haccept : Parses app.ctx.received
  · have hok := haccept.deserialize app.ctx.txInfo.transactionQubic
    rw [hok, if_pos haccept, if_pos haccept, if_neg (by simp)]
    rfl
  · have hbad := mt (deserializeTransaction_ok_iff app.ctx.txInfo.transactionQubic _).mp haccept
    rw [if_pos hbad, if_neg haccept, if_neg haccept]
    rfl

/-- The state a finishing chunk leaves, reviews aside. -/
theorem signTxFinish_ctx :
    (signTxFinish dev app).1.ctx = app.ctx.finished ∧
    (signTxFinish dev app).1.exited = app.exited := by
  rw [signTxFinish_eq]
  split
  · exact ⟨rfl, rfl⟩
  · split
    · exact ⟨rfl, rfl⟩
    · exact ⟨rfl, rfl⟩

end SignTx

end QubicLedger
