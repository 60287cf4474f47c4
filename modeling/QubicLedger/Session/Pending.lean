import QubicLedger.Session.Approval
import QubicLedger.Session.Split
import QubicLedger.Display.Shown

/-!
# What a pending review is about

A review holds copies of its texts, while the digest, the parsed transaction
and the key stay in the one global context, which commands go on rewriting
while the review waits. Approving it signs, or returns, what the context holds
at that moment.

Both sides are read off the log here. `shownBytes` and `shownKey` are what the
review on screen was made from; `hashedBytes` and `keyBytes` are what the
digest and the key in the context come from now. `rewritten` is whether a
command since the review has reset the context or completed another body.
`run_onScreen`, `run_hashed` and `run_keyBytes` are the invariants, and
`approvesShown_iff` says in which runs every approval is of what was shown.
-/

namespace QubicLedger

open Lib (FixedBuf)

/-! ## The two sides of an approval -/

/-- The actions put a review on screen. -/
def showsReview (acts : List Action) : Bool :=
  acts.any fun a => match a with
    | .review _ => true
    | _ => false

/-- The bytes accepted when the review on screen was put up. -/
def shownBytes : Log → List UInt8
  | [] => []
  | t :: log => if showsReview t.actions then accepted (t :: log) else shownBytes log

/-- The bytes `m_hash` is the digest of; none since the last reset. -/
def hashedBytes : Log → Option (List UInt8)
  | [] => none
  | t :: log =>
    match request t with
    | .other => hashedBytes log
    | .getPublicKey _ _ => none
    | .signTx chunk more _ =>
      if more || pathOrLengthError t.actions then
        if chunk = 0 then none else hashedBytes log
      else some (accepted (t :: log))

/-- Since the review on screen was put up, a command has reset the context or
completed a body. -/
def rewritten : Log → Bool
  | [] => false
  | t :: log =>
    if showsReview t.actions then false
    else
      match request t with
      | .other => rewritten log
      | .getPublicKey _ _ => true
      | .signTx chunk more _ =>
        if chunk = 0 || !(more || pathOrLengthError t.actions) then true else rewritten log

/-- The key a GET_PUBLIC_KEY command asks for. -/
def requestedKey (dev : Device) (data : List UInt8) : FixedBuf UInt8 addressLen :=
  match pathOf data with
  | none => .fill _ 0
  | some path =>
    match deriveQubicKeypair dev.sdk dev.fourQ (storedPath path) (UInt8.ofNat path.length) with
    | .error _ => .fill _ 0
    | .ok keypair => keypair.publicKey

/-- The first 32 bytes of the union as the commands have written them: a
requested key, transaction bytes, or first the one and then the other. -/
def keyBytes (dev : Device) : Log → FixedBuf UInt8 addressLen
  | [] => .fill _ 0
  | t :: log =>
    match request t with
    | .other => keyBytes dev log
    | .getPublicKey _ data => requestedKey dev data
    | .signTx chunk _ data =>
      let before := if chunk = 0 then .fill _ 0 else keyBytes dev log
      if pathOrLengthError t.actions then before
      else before.write (if chunk = 0 then 0 else (accepted log).length) (bodyBytes chunk data)

/-- The key in the union when the review on screen was put up. -/
def shownKey (dev : Device) : Log → FixedBuf UInt8 addressLen
  | [] => .fill _ 0
  | t :: log => if showsReview t.actions then keyBytes dev (t :: log) else shownKey dev log

/-- What is approved is what was shown. -/
def ApprovesShown (dev : Device) (t : Turn) (log : Log) : Prop :=
  (∀ r, t.pre.screen = some r → r.kind = .clear →
    ∀ subseed publicKey digest, Action.sign subseed publicKey digest ∈ t.actions →
      (shownBytes log).length = sizeofTransactionQubic ∧
      r = clearReview dev.build t.pre.storage.settings (decodeTransaction (shownBytes log)) ∧
      digest = kangarooTwelve (shownBytes log) transactionDigestLen ∧
      hashedBytes log = some (shownBytes log)) ∧
  (∀ r, t.pre.screen = some r → r.kind = .address → t.event = .decide true →
    ∀ rdata, Action.respond rdata .ok ∈ t.actions →
      rdata.length = addressLen ∧ r = addressReview rdata) ∧
  (t.pre.storage.settings.allowBlindSign ≠ blindSignEnabled →
    ∀ subseed publicKey digest, Action.sign subseed publicKey digest ∈ t.actions →
      ∃ body, Parses body ∧ hashedBytes log = some body ∧
        digest = kangarooTwelve body transactionDigestLen)

/-- The exact condition: when a clear review is approved and the source check
passes, the context was not rewritten since the review was put up; and when an
address review is approved, the key bytes are again those that were shown. -/
def Undisturbed (dev : Device) (t : Turn) (log : Log) : Prop :=
  (∀ r, t.pre.screen = some r → r.kind = .clear → Signs dev t.pre t.event →
    rewritten log = false) ∧
  (∀ r, t.pre.screen = some r → r.kind = .address → t.pre.exited = false →
    t.event = .decide true → keyBytes dev log = shownKey dev log)

section Equations

variable {t : Turn} {log : Log} {chunk : UInt8} {more : Bool} {data : List UInt8}

theorem hashedBytes_other (h : request t = .other) : hashedBytes (t :: log) = hashedBytes log := by
  rw [hashedBytes, h]

theorem hashedBytes_getPublicKey {display : Bool} (h : request t = .getPublicKey display data) :
    hashedBytes (t :: log) = none := by
  rw [hashedBytes, h]

theorem hashedBytes_signTx (h : request t = .signTx chunk more data) :
    hashedBytes (t :: log)
      = if more || pathOrLengthError t.actions then
          if chunk = 0 then none else hashedBytes log
        else some (accepted (t :: log)) := by
  rw [hashedBytes, h]

/-- A final chunk that is let in has all accepted bytes hashed. -/
theorem hashedBytes_final {pos size offset : Nat} {rest : List Action}
    (h : request t = .signTx chunk false data)
    (hacts : t.actions = .append pos size offset :: rest) :
    hashedBytes (t :: log) = some (accepted (t :: log)) := by
  rw [hashedBytes_signTx h, hacts, pathOrLengthError_append, Bool.or_false,
    if_neg Bool.false_ne_true]

theorem rewritten_silent (hsilent : showsReview t.actions = false) :
    rewritten (t :: log)
      = match request t with
        | .other => rewritten log
        | .getPublicKey _ _ => true
        | .signTx chunk more _ =>
          if chunk = 0 || !(more || pathOrLengthError t.actions) then true else rewritten log := by
  rw [rewritten, hsilent]
  rfl

theorem rewritten_shows (hshows : showsReview t.actions = true) :
    rewritten (t :: log) = false := if_pos hshows

theorem shownBytes_shows (hshows : showsReview t.actions = true) :
    shownBytes (t :: log) = accepted (t :: log) := if_pos hshows

theorem shownKey_shows (dev : Device) (hshows : showsReview t.actions = true) :
    shownKey dev (t :: log) = keyBytes dev (t :: log) := if_pos hshows

theorem shownBytes_silent (hsilent : showsReview t.actions = false) :
    shownBytes (t :: log) = shownBytes log := by
  rw [shownBytes, hsilent]
  rfl

theorem shownKey_silent (dev : Device) (hsilent : showsReview t.actions = false) :
    shownKey dev (t :: log) = shownKey dev log := by
  rw [shownKey, hsilent]
  rfl

theorem keyBytes_signTx (dev : Device) (h : request t = .signTx chunk more data) :
    keyBytes dev (t :: log)
      = if pathOrLengthError t.actions then (if chunk = 0 then .fill _ 0 else keyBytes dev log)
        else (if chunk = 0 then .fill _ 0 else keyBytes dev log).write
          (if chunk = 0 then 0 else (accepted log).length) (bodyBytes chunk data) := by
  rw [keyBytes, h]

end Equations

/-! ## Where the digest comes from -/

/-- In every run `m_hash` is the digest of the bytes hashed last. -/
theorem run_hashed {dev : Device} {s : App} {log : Log} (hrun : (machine dev).Run s log) :
    ∀ body, hashedBytes log = some body →
      s.ctx.txInfo.mHash.cells = kangarooTwelve body transactionDigestLen := by
  refine run_induction (P := fun s log => ∀ body, hashedBytes log = some body →
    s.ctx.txInfo.mHash.cells = kangarooTwelve body transactionDigestLen) ?_ ?_ hrun
  · intro persisted body h
    exact absurd h (by simp [hashedBytes])
  · intro s log e t s' acts hturn ih body hbody
    obtain ⟨-, hafter, -, -, hreqTurn, hacts, heffect⟩ := hturn
    have hreceived := received_eq_accepted hafter
    -- a final chunk that goes through takes the digest of all that was accepted
    have hfinal : ∀ {chunk data pos size offset rest},
        s.request e = .signTx chunk false data → acts = .append pos size offset :: rest →
        s'.ctx.txInfo.mHash = digestOf s'.ctx.received →
        s'.ctx.txInfo.mHash.cells = kangarooTwelve body transactionDigestLen := by
      intro chunk data pos size offset rest hreq hlead hdigest
      rw [hashedBytes_final (hreqTurn.trans hreq) (hacts.trans hlead), ← hreceived] at hbody
      injection hbody with hbody
      rw [hdigest, digestOf_cells, hbody]
    -- nothing is hashed since a reset
    have hreset : hashedBytes (t :: log) = none →
        s'.ctx.txInfo.mHash.cells = kangarooTwelve body transactionDigestLen := by
      intro hnone
      rw [hnone] at hbody
      exact absurd hbody (by simp)
    cases heffect with
    | idle storage acts hreq =>
      rw [hashedBytes_other (hreqTurn.trans hreq)] at hbody
      exact ih body hbody
    | decided r confirm hreq =>
      rw [hashedBytes_other (hreqTurn.trans hreq)] at hbody
      rw [(reviewChoice_keeps dev _ r.kind confirm).1.mHash]
      exact ih body hbody
    | pubkeyRefused display data p hreq =>
      exact hreset (hashedBytes_getPublicKey (hreqTurn.trans hreq))
    | pubkeyThrew display data path err hreq =>
      exact hreset (hashedBytes_getPublicKey (hreqTurn.trans hreq))
    | pubkeySent data path keypair hreq =>
      exact hreset (hashedBytes_getPublicKey (hreqTurn.trans hreq))
    | pubkeyShown data path keypair hreq =>
      exact hreset (hashedBytes_getPublicKey (hreqTurn.trans hreq))
    | firstRefused more data p hreq =>
      apply hreset
      rw [hashedBytes_signTx (hreqTurn.trans hreq), hacts,
        Bool.or_eq_true_iff.mpr (Or.inr (by rfl)), if_pos rfl, if_pos rfl]
    | firstEmpty more data hreq =>
      apply hreset
      rw [hashedBytes_signTx (hreqTurn.trans hreq), hacts,
        Bool.or_eq_true_iff.mpr (Or.inr (by rfl)), if_pos rfl, if_pos rfl]
    | nextRefused chunk more data hreq hchunk =>
      rw [hashedBytes_signTx (hreqTurn.trans hreq), hacts, pathOrLengthError_continuation,
        Bool.or_true, if_pos rfl, if_neg hchunk] at hbody
      exact ih body hbody
    | kept chunk data base chunkBody hreq hentry =>
      by_cases hchunk : chunk = 0
      · apply hreset
        rw [hashedBytes_signTx (hreqTurn.trans hreq), Bool.true_or, if_pos rfl, if_pos hchunk]
      · obtain ⟨rfl, -⟩ := (entry_next_eq_some_iff hchunk).mp hentry
        rw [hashedBytes_signTx (hreqTurn.trans hreq), Bool.true_or, if_pos rfl,
          if_neg hchunk] at hbody
        exact ih body hbody
    | shownClear chunk data base chunkBody hreq => exact hfinal hreq rfl rfl
    | shownBlind chunk data base chunkBody hreq => exact hfinal hreq rfl rfl
    | rejected chunk data base chunkBody hreq => exact hfinal hreq rfl rfl

/-! ## Where the key comes from -/

/-- A context that was just reset holds zeros for a key. -/
theorem rawPublicKey_opened (reqType : RequestType) (n : UInt8)
    (p : FixedBuf UInt32 maxBip32Path) :
    (GlobalCtx.opened reqType n p).rawPublicKey
      = (FixedBuf.fill addressLen (0 : UInt8)).cells := by
  rw [GlobalCtx.rawPublicKey, opened_txInfo]
  show (List.replicate maxTransactionLen (0 : UInt8)).take addressLen = _
  rw [List.take_replicate]
  rfl

/-- A chunk that is let in, as far as the key bytes see it. -/
theorem rawPublicKey_entry {dev : Device} {s : App} {log : Log} (hrun : (machine dev).Run s log)
    {e : Event} {chunk : UInt8} {more : Bool} {data body : List UInt8} {base : GlobalCtx}
    (hreq : s.request e = .signTx chunk more data)
    (hentry : entry s.ctx chunk data = some (base, body))
    {before : FixedBuf UInt8 addressLen} (ih : s.ctx.rawPublicKey = before.cells) :
    (base.appended body).rawPublicKey
      = ((if chunk = 0 then .fill _ 0 else before).write
          (if chunk = 0 then 0 else (accepted log).length) (bodyBytes chunk data)).cells := by
  obtain ⟨-, hfit, hbody⟩ := entry_fits (App.signTx_data hreq).2 hentry
  have hwrite : base.txInfo.rawTxLen + body.length ≤ maxTransactionLen :=
    Nat.le_trans (Nat.add_le_add_left hbody _) hfit
  by_cases hchunk : chunk = 0
  · subst hchunk
    obtain ⟨path, -, -, rfl, rfl⟩ := entry_first hentry
    rw [if_pos rfl, if_pos rfl, bodyBytes, if_pos rfl]
    exact (FixedBuf.cells_write_take (rawPublicKey_opened _ _ _).symm hwrite).symm
  · obtain ⟨rfl, rfl, -, -⟩ := (entry_next_eq_some_iff hchunk).mp hentry
    rw [if_neg hchunk, if_neg hchunk, bodyBytes, if_neg hchunk, ← rawTxLen_eq_accepted hrun]
    exact (FixedBuf.cells_write_take ih.symm hwrite).symm

/-- In every run the key in the union is the one the commands wrote. -/
theorem run_keyBytes {dev : Device} {s : App} {log : Log} (hrun : (machine dev).Run s log) :
    s.ctx.rawPublicKey = (keyBytes dev log).cells := by
  refine run_induction
    (P := fun s log => s.ctx.rawPublicKey = (keyBytes dev log).cells) ?_ ?_ hrun
  · intro persisted
    exact rawPublicKey_opened .confirmAddress 0 (.fill _ 0)
  · intro s log e t s' acts hturn ih
    obtain ⟨hrun, -, -, -, hreqTurn, hacts, heffect⟩ := hturn
    have hother : s.request e = .other → keyBytes dev (t :: log) = keyBytes dev log := by
      intro hreq
      rw [keyBytes, hreqTurn, hreq]
    have hpubkey : ∀ {display data}, s.request e = .getPublicKey display data →
        keyBytes dev (t :: log) = requestedKey dev data := by
      intro display data hreq
      rw [keyBytes, hreqTurn, hreq]
    have hlet : ∀ {chunk more data base body pos size offset rest},
        s.request e = .signTx chunk more data → entry s.ctx chunk data = some (base, body) →
        acts = .append pos size offset :: rest →
        (base.appended body).rawPublicKey = (keyBytes dev (t :: log)).cells := by
      intro chunk more data base body pos size offset rest hreq hentry hlead
      rw [keyBytes_signTx dev (hreqTurn.trans hreq), hacts, hlead, pathOrLengthError_append,
        if_neg Bool.false_ne_true]
      exact rawPublicKey_entry hrun hreq hentry ih
    cases heffect with
    | idle storage acts hreq =>
      rw [hother hreq]
      exact ih
    | decided r confirm hreq =>
      rw [hother hreq, GlobalCtx.rawPublicKey, (reviewChoice_keeps dev _ r.kind confirm).1.rawTx]
      exact ih
    | pubkeyRefused display data p hreq hpath =>
      rw [hpubkey hreq, requestedKey, hpath]
      exact rawPublicKey_opened ..
    | pubkeyThrew display data path err hreq hpath hkey =>
      rw [hpubkey hreq, requestedKey, hpath]
      dsimp only
      rw [hkey]
      exact rawPublicKey_opened ..
    | pubkeySent data path keypair hreq hpath hkey =>
      rw [hpubkey hreq, requestedKey, hpath]
      dsimp only
      rw [hkey]
      exact GlobalCtx.rawPublicKey_setRawPublicKey ..
    | pubkeyShown data path keypair hreq hpath hkey =>
      rw [hpubkey hreq, requestedKey, hpath]
      dsimp only
      rw [hkey]
      exact GlobalCtx.rawPublicKey_setRawPublicKey ..
    | firstRefused more data p hreq =>
      rw [keyBytes_signTx dev (hreqTurn.trans hreq), hacts, if_pos (by rfl), if_pos rfl]
      exact rawPublicKey_opened ..
    | firstEmpty more data hreq =>
      rw [keyBytes_signTx dev (hreqTurn.trans hreq), hacts, if_pos (by rfl), if_pos rfl]
      exact rawPublicKey_opened ..
    | nextRefused chunk more data hreq hchunk =>
      rw [keyBytes_signTx dev (hreqTurn.trans hreq), hacts, pathOrLengthError_continuation,
        if_pos rfl, if_neg hchunk]
      exact ih
    | kept chunk data base body hreq hentry => exact hlet hreq hentry rfl
    | shownClear chunk data base body hreq hentry => exact hlet hreq hentry rfl
    | shownBlind chunk data base body hreq hentry => exact hlet hreq hentry rfl
    | rejected chunk data base body hreq hentry => exact hlet hreq hentry rfl

/-! ## What is on screen -/

/-- How the review on screen relates to the log. -/
structure OnScreen (dev : Device) (settings : AppSettings) (log : Log) (r : Review) : Prop where
  parses : r.kind = .clear → Parses (shownBytes log)
  clear : r.kind = .clear →
    r = clearReview dev.build settings (decodeTransaction (shownBytes log))
  current : r.kind = .clear → rewritten log = false → hashedBytes log = some (shownBytes log)
  outdated : r.kind = .clear → rewritten log = true →
    ∀ body, hashedBytes log = some body → ¬Parses body
  blind : r.kind = .blind → settings.allowBlindSign = blindSignEnabled
  address : r.kind = .address → r = addressReview (shownKey dev log).cells

/-- A turn that puts up no review and hashes nothing new. -/
theorem OnScreen.carried {dev : Device} {settings : AppSettings} {t : Turn} {log : Log}
    {r : Review} (h : OnScreen dev settings log r) (hsilent : showsReview t.actions = false)
    (hsame : rewritten (t :: log) = rewritten log)
    (hhash : hashedBytes (t :: log) = hashedBytes log) :
    OnScreen dev settings (t :: log) r := by
  have hbytes : shownBytes (t :: log) = shownBytes log := shownBytes_silent hsilent
  refine ⟨?_, ?_, ?_, ?_, h.blind, ?_⟩
  · rw [hbytes]
    exact h.parses
  · rw [hbytes]
    exact h.clear
  · rw [hbytes, hsame, hhash]
    exact h.current
  · rw [hsame, hhash]
    exact h.outdated
  · rw [shownKey_silent dev hsilent]
    exact h.address

/-- A turn that puts up no review and rewrites the context. -/
theorem OnScreen.overtaken {dev : Device} {settings : AppSettings} {t : Turn} {log : Log}
    {r : Review} (h : OnScreen dev settings log r) (hsilent : showsReview t.actions = false)
    (hre : rewritten (t :: log) = true)
    (hhash : ∀ body, hashedBytes (t :: log) = some body → ¬Parses body) :
    OnScreen dev settings (t :: log) r := by
  have hbytes : shownBytes (t :: log) = shownBytes log := shownBytes_silent hsilent
  refine ⟨?_, ?_, ?_, ?_, h.blind, ?_⟩
  · rw [hbytes]
    exact h.parses
  · rw [hbytes]
    exact h.clear
  · intro _ hfalse
    rw [hre] at hfalse
    exact absurd hfalse (by decide)
  · intro _ _
    exact hhash
  · rw [shownKey_silent dev hsilent]
    exact h.address

section Carried

variable {dev : Device} {settings : AppSettings} {t : Turn} {log : Log} {r : Review}

/-- A GET_PUBLIC_KEY command without a review. -/
theorem OnScreen.after_getPublicKey {display : Bool} {data : List UInt8}
    (h : OnScreen dev settings log r) (hreq : request t = .getPublicKey display data)
    (hsilent : showsReview t.actions = false) : OnScreen dev settings (t :: log) r := by
  apply h.overtaken hsilent
  · rw [rewritten_silent hsilent, hreq]
  · intro body hbody
    rw [hashedBytes_getPublicKey hreq] at hbody
    exact absurd hbody (by simp)

/-- A first chunk that hashes nothing. -/
theorem OnScreen.after_first {more : Bool} {data : List UInt8}
    (h : OnScreen dev settings log r) (hreq : request t = .signTx 0 more data)
    (hsilent : showsReview t.actions = false)
    (hunhashed : (more || pathOrLengthError t.actions) = true) :
    OnScreen dev settings (t :: log) r := by
  apply h.overtaken hsilent
  · rw [rewritten_silent hsilent, hreq]
    rfl
  · intro body hbody
    rw [hashedBytes_signTx hreq, hunhashed, if_pos rfl, if_pos rfl] at hbody
    exact absurd hbody (by simp)

/-- A continuation that hashes nothing. -/
theorem OnScreen.after_next {chunk : UInt8} {more : Bool} {data : List UInt8}
    (h : OnScreen dev settings log r) (hreq : request t = .signTx chunk more data)
    (hchunk : chunk ≠ 0) (hsilent : showsReview t.actions = false)
    (hunhashed : (more || pathOrLengthError t.actions) = true) :
    OnScreen dev settings (t :: log) r := by
  apply h.carried hsilent
  · rw [rewritten_silent hsilent, hreq]
    dsimp only
    rw [hunhashed, Bool.not_true, Bool.or_false, decide_eq_false hchunk,
      if_neg Bool.false_ne_true]
  · rw [hashedBytes_signTx hreq, hunhashed, if_pos rfl, if_neg hchunk]

/-- A final chunk that parses neither way. -/
theorem OnScreen.after_rejected {chunk : UInt8} {data : List UInt8} {pos size offset : Nat}
    {rest : List Action} (h : OnScreen dev settings log r)
    (hreq : request t = .signTx chunk false data)
    (hacts : t.actions = .append pos size offset :: rest)
    (hsilent : showsReview t.actions = false) (hreject : ¬Parses (accepted (t :: log))) :
    OnScreen dev settings (t :: log) r := by
  apply h.overtaken hsilent
  · rw [rewritten_silent hsilent, hreq]
    dsimp only
    rw [hacts, pathOrLengthError_append, if_pos (by simp)]
  · intro body hbody
    rw [hashedBytes_final hreq hacts] at hbody
    injection hbody with hbody
    rw [← hbody]
    exact hreject

/-- A clear review that has just been put up. -/
theorem OnScreen.of_clear (hshows : showsReview t.actions = true)
    (hparses : Parses (accepted (t :: log)))
    (hhash : hashedBytes (t :: log) = some (accepted (t :: log))) :
    OnScreen dev settings (t :: log)
      (clearReview dev.build settings (decodeTransaction (accepted (t :: log)))) := by
  have hbytes : shownBytes (t :: log) = accepted (t :: log) := shownBytes_shows hshows
  refine ⟨?_, ?_, ?_, ?_, ?_, ?_⟩
  · intro _
    rw [hbytes]
    exact hparses
  · intro _
    rw [hbytes]
  · intro _ _
    rw [hbytes]
    exact hhash
  · intro _ hre
    rw [rewritten_shows hshows] at hre
    exact absurd hre Bool.false_ne_true
  · intro hkind
    rw [clearReview_kind] at hkind
    cases hkind
  · intro hkind
    rw [clearReview_kind] at hkind
    cases hkind

/-- A blind review. -/
theorem OnScreen.of_blind (hkind : r.kind = .blind)
    (hblind : settings.allowBlindSign = blindSignEnabled) : OnScreen dev settings log r := by
  refine ⟨?_, ?_, ?_, ?_, fun _ => hblind, ?_⟩
  all_goals
    intro hother
    rw [hkind] at hother
    cases hother

/-- An address review. -/
theorem OnScreen.of_address (h : r = addressReview (shownKey dev log).cells) :
    OnScreen dev settings log r := by
  have hkind : r.kind = .address := congrArg Review.kind h
  refine ⟨?_, ?_, ?_, ?_, ?_, fun _ => h⟩
  all_goals
    intro hother
    rw [hkind] at hother
    cases hother

end Carried

/-- In every run the review on screen is as described. -/
theorem run_onScreen {dev : Device} {s : App} {log : Log} (hrun : (machine dev).Run s log) :
    ∀ r, s.screen = some r → OnScreen dev s.storage.settings log r := by
  refine run_induction (P := fun s log => ∀ r, s.screen = some r →
    OnScreen dev s.storage.settings log r) ?_ ?_ hrun
  · intro persisted r h
    exact absurd h (by simp [appMain])
  · intro s log e t s' acts hturn ih
    obtain ⟨-, hafter, -, -, hreqTurn, hacts, heffect⟩ := hturn
    have hreceived := received_eq_accepted hafter
    cases heffect with
    | idle storage acts hreq hstorage hanswer =>
      intro r hscreen
      have hsilent : showsReview t.actions = false := by
        rw [hacts]
        rcases hanswer with rfl | ⟨rdata, sw, rfl⟩
        · rfl
        · rfl
      rw [hstorage (by rw [show s.screen = some r from hscreen]; simp)]
      apply (ih r hscreen).carried hsilent
      · rw [rewritten_silent hsilent, hreqTurn, hreq]
      · exact hashedBytes_other (hreqTurn.trans hreq)
    | decided r confirm hreq =>
      intro r' hscreen
      rw [(reviewChoice_keeps dev _ r.kind confirm).2.1] at hscreen
      exact absurd hscreen (by simp)
    | pubkeyRefused display data p hreq =>
      intro r hscreen
      exact (ih r hscreen).after_getPublicKey (hreqTurn.trans hreq) (by rw [hacts]; rfl)
    | pubkeyThrew display data path err hreq =>
      intro r hscreen
      exact (ih r hscreen).after_getPublicKey (hreqTurn.trans hreq) (by rw [hacts]; rfl)
    | pubkeySent data path keypair hreq =>
      intro r hscreen
      exact (ih r hscreen).after_getPublicKey (hreqTurn.trans hreq) (by rw [hacts]; rfl)
    | pubkeyShown data path keypair hreq hpath hkey =>
      intro r hscreen
      injection hscreen with hscreen
      subst hscreen
      have hshown : shownKey dev (t :: log) = keypair.publicKey := by
        rw [shownKey_shows dev (by rw [hacts]; rfl), keyBytes, hreqTurn, hreq]
        dsimp only
        rw [requestedKey, hpath]
        dsimp only
        rw [hkey]
      exact .of_address (by rw [hshown])
    | firstRefused more data p hreq =>
      intro r hscreen
      exact (ih r hscreen).after_first (hreqTurn.trans hreq) (by rw [hacts]; rfl)
        (by rw [hacts]; exact Bool.or_true more)
    | firstEmpty more data hreq =>
      intro r hscreen
      exact (ih r hscreen).after_first (hreqTurn.trans hreq) (by rw [hacts]; rfl)
        (by rw [hacts]; exact Bool.or_true more)
    | nextRefused chunk more data hreq hchunk =>
      intro r hscreen
      exact (ih r hscreen).after_next (hreqTurn.trans hreq) hchunk (by rw [hacts]; rfl)
        (by rw [hacts, pathOrLengthError_continuation, Bool.or_true])
    | kept chunk data base body hreq hentry =>
      intro r hscreen
      by_cases hchunk : chunk = 0
      · subst hchunk
        exact (ih r hscreen).after_first (hreqTurn.trans hreq) (by rw [hacts]; rfl) rfl
      · exact (ih r hscreen).after_next (hreqTurn.trans hreq) hchunk (by rw [hacts]; rfl) rfl
    | shownClear chunk data base body hreq hentry haccept =>
      intro r hscreen
      injection hscreen with hscreen
      subst hscreen
      have hbytes : (base.appended body).received = accepted (t :: log) := hreceived
      rw [hbytes] at haccept ⊢
      exact .of_clear (by rw [hacts]; rfl) haccept
        (hashedBytes_final (hreqTurn.trans hreq) hacts)
    | shownBlind chunk data base body hreq hentry hreject hblind =>
      intro r hscreen
      injection hscreen with hscreen
      subst hscreen
      exact .of_blind (blindReview_kind ..) hblind
    | rejected chunk data base body hreq hentry hreject =>
      intro r hscreen
      have hbytes : (base.appended body).received = accepted (t :: log) := hreceived
      rw [hbytes] at hreject
      exact (ih r hscreen).after_rejected (hreqTurn.trans hreq) hacts (by rw [hacts]; rfl) hreject

/-! ## When what is approved is what was shown -/

/-- An approval of a clear review signs the digest of the shown bytes if the
context was not rewritten. -/
theorem signed_is_shown {dev : Device} {s : App} {log : Log} (hrun : (machine dev).Run s log)
    {e : Event} {r : Review} (hscreen : s.screen = some r) (hkind : r.kind = .clear)
    (hre : rewritten log = false) {subseed publicKey digest : List UInt8}
    (hmem : Action.sign subseed publicKey digest ∈ (step dev s e).2) :
    Parses (shownBytes log) ∧ hashedBytes log = some (shownBytes log) ∧
      digest = kangarooTwelve (shownBytes log) transactionDigestLen := by
  have hon := run_onScreen hrun r hscreen
  have hhash := hon.current hkind hre
  refine ⟨hon.parses hkind, hhash, ?_⟩
  rw [sign_digest (rawTxLen_le hrun) hmem]
  exact run_hashed hrun _ hhash

/-- One turn of a run approves what was shown exactly under the condition. -/
theorem turn_approvesShown_iff {dev : Device} {s : App} {log : Log} (e : Event)
    (hrun : (machine dev).Run s log) :
    ApprovesShown dev ((machine dev).turn s e) log
      ↔ Undisturbed dev ((machine dev).turn s e) log := by
  have hsign := sign_mem_step_iff dev (e := e) (rawTxLen_le hrun)
  constructor
  · intro h
    obtain ⟨hclear, haddress, -⟩ := h
    refine ⟨?_, ?_⟩
    · intro r hscreen hkind hsigns
      obtain ⟨subseed, publicKey, digest, hmem⟩ := hsign.mpr hsigns
      obtain ⟨-, -, -, hhash⟩ := hclear r hscreen hkind subseed publicKey digest hmem
      have hon := run_onScreen hrun r hscreen
      cases hre : rewritten log with
      | false => rfl
      | true => exact absurd (hon.parses hkind) (hon.outdated hkind hre _ hhash)
    · intro r hscreen hkind hlive hevent
      obtain rfl : e = .decide true := hevent
      obtain ⟨-, hr⟩ := haddress r hscreen hkind rfl s.ctx.rawPublicKey
        ((respond_mem_approve_address dev hscreen hkind).mpr ⟨hlive, rfl⟩)
      rw [run_keyBytes hrun, (run_onScreen hrun r hscreen).address hkind] at hr
      exact (addressReview_inj hr).symm
  · intro h
    obtain ⟨hclear, haddress⟩ := h
    refine ⟨?_, ?_, ?_⟩
    · intro r hscreen hkind subseed publicKey digest hmem
      have hre := hclear r hscreen hkind (hsign.mp ⟨subseed, publicKey, digest, hmem⟩)
      obtain ⟨hparse, hhash, hdigest⟩ := signed_is_shown hrun hscreen hkind hre hmem
      exact ⟨hparse.1, (run_onScreen hrun r hscreen).clear hkind, hdigest, hhash⟩
    · intro r hscreen hkind hevent rdata hmem
      obtain rfl : e = .decide true := hevent
      obtain ⟨hlive, hrdata⟩ := (respond_mem_approve_address dev hscreen hkind).mp hmem
      have hkey := haddress r hscreen hkind hlive rfl
      rw [Lib.Machine.turn_pre, run_keyBytes hrun, hkey] at hrdata
      rw [hrdata]
      exact ⟨FixedBuf.size_eq _, (run_onScreen hrun r hscreen).address hkind⟩
    · intro hblind subseed publicKey digest hmem
      obtain ⟨-, -, r, hscreen, hkind⟩ := approves_of_sign_mem (rawTxLen_le hrun) hmem
      -- with blind signing off no blind review can be on screen
      have hclearKind : r.kind = .clear := by
        cases hk : r.kind with
        | clear => rfl
        | address => exact absurd hk hkind
        | blind => exact absurd ((run_onScreen hrun r hscreen).blind hk) hblind
      have hre := hclear r hscreen hclearKind (hsign.mp ⟨subseed, publicKey, digest, hmem⟩)
      exact ⟨shownBytes log, signed_is_shown hrun hscreen hclearKind hre hmem⟩

/-- Along every run: whatever is approved is what the review showed, if and
only if no approval comes after the context was disturbed. -/
theorem approvesShown_iff {dev : Device} {s : App} {log : Log} (hrun : (machine dev).Run s log) :
    Lib.Machine.Throughout (ApprovesShown dev) log ↔
      Lib.Machine.Throughout (Undisturbed dev) log :=
  Lib.Machine.Run.throughout_congr (fun _ _ e hrun => turn_approvesShown_iff e hrun) hrun

/-- A transfer is put up for review; while it waits, one with amount zero from
the same key is sent and refused; then the review is approved. -/
def overtakenEvents : List Event :=
  [.apdu (signTxCommand 0 p2Last (transferChunk 1)),
   .apdu (signTxCommand 0 p2Last (transferChunk 0))]

theorem approvesShown_iff_sample :
    let log := ((machine (sampleDevice .nbgl)).exec (appMain .default) [] overtakenEvents).2
    Lib.Machine.Throughout (ApprovesShown (sampleDevice .nbgl)) log ↔
      Lib.Machine.Throughout (Undisturbed (sampleDevice .nbgl)) log :=
  approvesShown_iff (sample_run .nbgl overtakenEvents)

/-- The approval signs the digest of the refused transfer. -/
theorem not_approvesShown :
    ¬∀ (dev : Device) (s : App) (log : Log), (machine dev).Run s log →
      Lib.Machine.Throughout (ApprovesShown dev) log := by
  intro h
  have hrun := sample_run .nbgl overtakenEvents
  obtain ⟨⟨hclear, -⟩, -⟩ := h _ _ _ (hrun.step (.decide true))
  generalize hout : (machine (sampleDevice .nbgl)).exec (appMain .default) [] overtakenEvents = out
    at hrun hclear
  obtain ⟨r, hscreen, hkind⟩ := Option.map_eq_some_iff.mp
    (show out.1.screen.map Review.kind = some .clear by rw [← hout]; decide +kernel)
  obtain ⟨keypair, hkey, hpublic⟩ := derivedKeypair_sampleDevice .nbgl out.1.ctx
  have hsigns : Signs (sampleDevice .nbgl) out.1 (.decide true) := by
    refine ⟨⟨?_, rfl, r, hscreen, by rw [hkind]; decide⟩, keypair, hkey, Or.inr ?_⟩
    · rw [← hout]
      decide +kernel
    · rw [hpublic, ← hout]
      decide +kernel
  obtain ⟨subseed, publicKey, digest, hmem⟩ :=
    (sign_mem_step_iff (sampleDevice .nbgl) (rawTxLen_le hrun)).mpr hsigns
  obtain ⟨-, -, hdigest, -⟩ := hclear r hscreen hkind subseed publicKey digest hmem
  rw [sign_digest (rawTxLen_le hrun) hmem, ← hout] at hdigest
  exact absurd hdigest (by decide +kernel)

end QubicLedger
