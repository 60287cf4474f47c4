import QubicLedger.Session.Approval
import QubicLedger.Session.Split

/-!
# Which path a key is derived with

`derive_qubic_keypair` is called with whatever `bip32_path` and
`bip32_path_len` the context holds. The length byte gets there before it is
checked and stays there when the check fails, so what the two fields hold is
not always a path that a command carried.

`lastPath` says from the log which path the last path-carrying command
carried, `none` if it did not carry it in full; `run_storedPath` is the
invariant that connects it with the context. `derivesCarriedPath_iff` is the
account of the runs in which every derivation uses that path.
-/

namespace QubicLedger

open Lib (FixedBuf)

/-- The path of the last command with a path prefix, if it was carried in full. -/
def lastPath : Log → Option (List UInt32)
  | [] => none
  | t :: log =>
    match request t with
    | .other => lastPath log
    | .getPublicKey _ data => pathOf data
    | .signTx chunk _ data => if chunk = 0 then pathOf data else lastPath log

/-- Keys are derived with one to ten words, and these are exactly the ones the
last command with a path prefix carried. -/
def DerivesCarriedPath (t : Turn) (log : Log) : Prop :=
  ∀ path len, Action.derive path len ∈ t.actions →
    1 ≤ len.toNat ∧ len.toNat ≤ maxBip32Path ∧
      lastPath (t :: log) = some (path.cells.take len.toNat)

/-- The exact condition: no GET_PUBLIC_KEY carries the empty path, and
transactions are approved only while the last path prefix was a full path of
at least one word. -/
def UsesFullPath (t : Turn) (log : Log) : Prop :=
  (∀ display data, request t = .getPublicKey display data → pathOf data ≠ some []) ∧
  (Approves t.pre t.event → ∃ word words, lastPath log = some (word :: words))

theorem lastPath_other {t : Turn} {log : Log} (h : request t = .other) :
    lastPath (t :: log) = lastPath log := by
  rw [lastPath, h]

theorem lastPath_getPublicKey {t : Turn} {log : Log} {display : Bool} {data : List UInt8}
    (h : request t = .getPublicKey display data) : lastPath (t :: log) = pathOf data := by
  rw [lastPath, h]

theorem lastPath_signTx {t : Turn} {log : Log} {chunk : UInt8} {more : Bool} {data : List UInt8}
    (h : request t = .signTx chunk more data) :
    lastPath (t :: log) = if chunk = 0 then pathOf data else lastPath log := by
  rw [lastPath, h]

/-! ## The path in the context -/

/-- The context holds the path `words`. -/
structure Holds (ctx : GlobalCtx) (words : List UInt32) : Prop where
  path : ctx.bip32Path = storedPath words
  len : ctx.bip32PathLen = UInt8.ofNat words.length
  atMost : words.length ≤ maxBip32Path

theorem Holds.of_sameData {c c' : GlobalCtx} {words : List UInt32} (h : Holds c words)
    (hsame : SameData c c') : Holds c' words :=
  ⟨hsame.bip32Path.trans h.path, hsame.bip32PathLen.trans h.len, h.atMost⟩

theorem Holds.appended {ctx : GlobalCtx} {words : List UInt32} (h : Holds ctx words)
    (body : List UInt8) : Holds (ctx.appended body) words := ⟨h.path, h.len, h.atMost⟩

theorem Holds.finished {ctx : GlobalCtx} {words : List UInt32} (h : Holds ctx words) :
    Holds ctx.finished words := ⟨h.path, h.len, h.atMost⟩

/-- A path that was read in full. -/
theorem holds_of_pathOf {ctx : GlobalCtx} {data : List UInt8} {words : List UInt32}
    (h : pathOf data = some words) (hpath : ctx.bip32Path = storedPath words)
    (hlen : ctx.bip32PathLen = UInt8.ofNat words.length) : Holds ctx words :=
  ⟨hpath, hlen, (pathOf_eq_some h).2.1⟩

/-- The length of a stored path fits in its byte. -/
theorem toNat_storedLen {words : List UInt32} (h : words.length ≤ maxBip32Path) :
    (UInt8.ofNat words.length).toNat = words.length := by
  have hten : words.length ≤ 10 := h
  rw [UInt8.toNat_ofNat', Nat.mod_eq_of_lt (by omega)]

/-- A chunk that is let in leaves the path of its command, or the one before. -/
theorem holds_entry {ctx base : GlobalCtx} {chunk : UInt8} {data body : List UInt8}
    {before : Option (List UInt32)} (hentry : entry ctx chunk data = some (base, body))
    (ih : ∀ words, before = some words → Holds ctx words) {words : List UInt32}
    (hlast : (if chunk = 0 then pathOf data else before) = some words) : Holds base words := by
  by_cases hchunk : chunk = 0
  · subst hchunk
    obtain ⟨path, hpath, -, rfl, -⟩ := entry_first hentry
    rw [if_pos rfl, hpath] at hlast
    injection hlast with hwords
    subst hwords
    exact holds_of_pathOf hpath rfl rfl
  · obtain ⟨rfl, -⟩ := (entry_next_eq_some_iff hchunk).mp hentry
    rw [if_neg hchunk] at hlast
    exact ih words hlast

/-- In every run, a path carried in full is the one in the context. -/
theorem run_storedPath {dev : Device} {s : App} {log : Log} (hrun : (machine dev).Run s log) :
    ∀ words, lastPath log = some words → Holds s.ctx words := by
  refine run_induction (P := fun s log => ∀ words, lastPath log = some words →
    Holds s.ctx words) ?_ ?_ hrun
  · intro persisted words h
    exact absurd h (by simp [lastPath])
  · intro s log e t s' acts hturn ih words hlast
    obtain ⟨-, -, -, -, hreqTurn, -, heffect⟩ := hturn
    -- a refused prefix is no path
    have hnone : ∀ {data : List UInt8}, pathOf data = none → lastPath (t :: log) = pathOf data →
        Holds s'.ctx words := by
      intro data hpath hcarried
      rw [hcarried, hpath] at hlast
      exact absurd hlast (by simp)
    have hpubkey : ∀ {display data path}, s.request e = .getPublicKey display data →
        pathOf data = some path → path = words := by
      intro display data path hreq hpath
      rw [lastPath_getPublicKey (hreqTurn.trans hreq), hpath] at hlast
      exact Option.some.inj hlast
    have hlet : ∀ {chunk more data base body}, s.request e = .signTx chunk more data →
        entry s.ctx chunk data = some (base, body) → Holds base words := by
      intro chunk more data base body hreq hentry
      rw [lastPath_signTx (hreqTurn.trans hreq)] at hlast
      exact holds_entry hentry ih hlast
    cases heffect with
    | idle storage acts hreq =>
      rw [lastPath_other (hreqTurn.trans hreq)] at hlast
      exact ih words hlast
    | decided r confirm hreq =>
      rw [lastPath_other (hreqTurn.trans hreq)] at hlast
      exact (ih words hlast).of_sameData
        (reviewChoice_keeps dev { s with screen := none } r.kind confirm).1
    | pubkeyRefused display data p hreq hpath =>
      exact hnone hpath (lastPath_getPublicKey (hreqTurn.trans hreq))
    | pubkeyThrew display data path err hreq hpath =>
      obtain rfl := hpubkey hreq hpath
      exact holds_of_pathOf hpath rfl rfl
    | pubkeySent data path keypair hreq hpath =>
      obtain rfl := hpubkey hreq hpath
      exact holds_of_pathOf hpath rfl rfl
    | pubkeyShown data path keypair hreq hpath =>
      obtain rfl := hpubkey hreq hpath
      exact holds_of_pathOf hpath rfl rfl
    | firstRefused more data p hreq hpath =>
      apply hnone hpath
      rw [lastPath_signTx (hreqTurn.trans hreq), if_pos rfl]
    | firstEmpty more data hreq hpath =>
      rw [lastPath_signTx (hreqTurn.trans hreq), if_pos rfl, hpath] at hlast
      obtain rfl := Option.some.inj hlast
      exact holds_of_pathOf hpath rfl rfl
    | nextRefused chunk more data hreq hchunk =>
      rw [lastPath_signTx (hreqTurn.trans hreq), if_neg hchunk] at hlast
      exact ih words hlast
    | kept chunk data base body hreq hentry => exact (hlet hreq hentry).appended body
    | shownClear chunk data base body hreq hentry =>
      exact ((hlet hreq hentry).appended body).finished
    | shownBlind chunk data base body hreq hentry =>
      exact ((hlet hreq hentry).appended body).finished
    | rejected chunk data base body hreq hentry =>
      exact ((hlet hreq hentry).appended body).finished

/-! ## When the path used is the path carried -/

/-- What a derivation reads of a stored path of at least one word. -/
theorem read_storedPath {words : List UInt32} (hne : words ≠ [])
    (hmax : words.length ≤ maxBip32Path) :
    1 ≤ (UInt8.ofNat words.length).toNat ∧ (UInt8.ofNat words.length).toNat ≤ maxBip32Path ∧
      some words = some ((storedPath words).cells.take (UInt8.ofNat words.length).toNat) := by
  rw [toNat_storedLen hmax, take_storedPath hmax]
  exact ⟨List.length_pos_iff.mpr hne, hmax, rfl⟩

/-- An approval is no request. -/
theorem Approves.request {s : App} {e : Event} (h : Approves s e) : s.request e = .other := by
  unfold App.request
  rw [h.confirm, h.live]
  rfl

/-- One turn of a run derives with the carried path exactly under the condition. -/
theorem turn_derivesCarriedPath_iff {dev : Device} {s : App} {log : Log} (e : Event)
    (hrun : (machine dev).Run s log) :
    DerivesCarriedPath ((machine dev).turn s e) log
      ↔ UsesFullPath ((machine dev).turn s e) log := by
  have hreqTurn : request ((machine dev).turn s e) = s.request e := rfl
  constructor
  · intro h
    refine ⟨?_, ?_⟩
    · intro display data hreq hpath
      -- it would derive with length zero
      have hlen := (h _ _ (step_getPublicKey_derives dev (hreqTurn.symm.trans hreq) hpath)).1
      exact absurd hlen (by decide)
    · intro happrove
      obtain ⟨hpos, -, hlast⟩ := h _ _ (step_approve_derives dev happrove)
      rw [lastPath_other (hreqTurn.trans happrove.request)] at hlast
      have hheld := run_storedPath hrun _ hlast
      cases hwords : s.ctx.bip32Path.cells.take s.ctx.bip32PathLen.toNat with
      | cons word words =>
        rw [hwords] at hlast
        exact ⟨word, words, hlast⟩
      | nil =>
        have hlen := hheld.len
        rw [hwords] at hlen
        rw [hlen] at hpos
        exact absurd hpos (by decide)
  · intro h path len hmem
    rcases derive_mem_step (rawTxLen_le hrun) hmem with
      ⟨display, data, words, hreq, hpath, rfl, rfl⟩ | ⟨happrove, rfl, rfl⟩
    · have hne : words ≠ [] := by
        intro h0
        exact h.1 display data (hreqTurn.trans hreq) (h0 ▸ hpath)
      rw [lastPath_getPublicKey (hreqTurn.trans hreq), hpath]
      exact read_storedPath hne (pathOf_eq_some hpath).2.1
    · obtain ⟨word, words, hlast⟩ := h.2 happrove
      obtain ⟨hpath, hlen, hmax⟩ := run_storedPath hrun _ hlast
      rw [lastPath_other (hreqTurn.trans happrove.request), hlast, hpath, hlen]
      exact read_storedPath (List.cons_ne_nil word words) hmax

/-- Along every run: keys are derived with carried paths of one to ten words
only, if and only if every turn meets the condition. -/
theorem derivesCarriedPath_iff {dev : Device} {s : App} {log : Log}
    (hrun : (machine dev).Run s log) :
    Lib.Machine.Throughout DerivesCarriedPath log ↔ Lib.Machine.Throughout UsesFullPath log :=
  Lib.Machine.Run.throughout_congr (fun _ _ e hrun => turn_derivesCarriedPath_iff e hrun) hrun

/-- A first chunk with the length byte 11, which is refused; a continuation
with a whole transaction; and the approval of the review it puts up. -/
def overlongPathEvents : List Event :=
  [.apdu (signTxCommand 0 p2More ⟨[11], by decide⟩),
   .apdu (signTxCommand 1 p2Last ⟨sampleTransfer 1, by decide⟩),
   .decide true]

theorem derivesCarriedPath_iff_sample :
    let log := ((machine (sampleDevice .nbgl)).exec (appMain .default) [] overlongPathEvents).2
    Lib.Machine.Throughout DerivesCarriedPath log ↔ Lib.Machine.Throughout UsesFullPath log :=
  derivesCarriedPath_iff (sample_run .nbgl overlongPathEvents)

/-- It derives with length 11. -/
theorem not_derivesCarriedPath :
    ¬∀ (dev : Device) (s : App) (log : Log), (machine dev).Run s log →
      Lib.Machine.Throughout DerivesCarriedPath log := by
  intro h
  obtain ⟨hlast, -⟩ := h _ _ _ (sample_run .nbgl overlongPathEvents)
  have hbound := (hlast (.fill _ 0) 11 (by decide +kernel)).2.1
  exact absurd hbound (by decide)

end QubicLedger
