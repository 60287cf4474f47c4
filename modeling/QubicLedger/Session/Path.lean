import QubicLedger.Session
import Mathlib.Tactic.IntervalCases

/-!
# What a path prefix is, and what reading it does

`pathOf data` is the path a data field carries in full: a length byte of at
most ten and that many big-endian words behind it. `readPath` succeeds exactly
on these (`readPath_accept`, `readPath_refuse`). Either way the length byte is
in the context afterwards, and after a failure the path array holds whatever
the reader left there.
-/

namespace QubicLedger

open Lib (FixedBuf)

/-- The path carried in full by a data field. -/
def pathOf : List UInt8 → Option (List UInt32)
  | [] => none
  | n :: rest =>
    if n.toNat ≤ maxBip32Path ∧ 4 * n.toNat ≤ rest.length then some (bip32Words n.toNat rest)
    else none

/-- The length byte of a data field. -/
def pathLenOf (data : List UInt8) : UInt8 := data.headD 0

/-- The bytes behind the path prefix. -/
def bodyOf (data : List UInt8) : List UInt8 := data.drop (1 + 4 * (pathLenOf data).toNat)

/-- The path array after a complete read into zeroed memory. -/
def storedPath (path : List UInt32) : FixedBuf UInt32 maxBip32Path :=
  (FixedBuf.fill _ 0).write 0 path

/-- The context of a command that was reset and has read its length byte. -/
def GlobalCtx.opened (reqType : RequestType) (pathLen : UInt8)
    (path : FixedBuf UInt32 maxBip32Path) : GlobalCtx :=
  { GlobalCtx.reset reqType with bip32PathLen := pathLen, bip32Path := path }

/-- The context of a command whose path was read in full. -/
def GlobalCtx.openedAt (reqType : RequestType) (path : List UInt32) : GlobalCtx :=
  .opened reqType (UInt8.ofNat path.length) (storedPath path)

section Opened

variable (reqType : RequestType) (n : UInt8) (p : FixedBuf UInt32 maxBip32Path)

@[simp] theorem opened_bip32PathLen : (GlobalCtx.opened reqType n p).bip32PathLen = n := rfl
@[simp] theorem opened_bip32Path : (GlobalCtx.opened reqType n p).bip32Path = p := rfl
@[simp] theorem opened_txInfo :
    (GlobalCtx.opened reqType n p).txInfo = GlobalCtx.zero.txInfo := rfl

end Opened

/-- A path carried in full is the length byte's worth of words. -/
theorem pathOf_eq_some {data : List UInt8} {path : List UInt32} (h : pathOf data = some path) :
    path.length = (pathLenOf data).toNat ∧ path.length ≤ maxBip32Path ∧
    1 + 4 * path.length ≤ data.length ∧ path = bip32Words path.length (data.drop 1) := by
  cases data with
  | nil => exact absurd h (by simp [pathOf])
  | cons n rest =>
    rw [pathOf] at h
    split at h
    next hn =>
      injection h with h
      subst h
      rw [length_bip32Words, List.length_cons]
      refine ⟨rfl, hn.1, ?_, rfl⟩
      have := hn.2
      omega
    next => exact absurd h (by simp)

theorem pathLenOf_eq {data : List UInt8} {path : List UInt32} (h : pathOf data = some path) :
    pathLenOf data = UInt8.ofNat path.length := by
  rw [(pathOf_eq_some h).1, UInt8.ofNat_toNat]

theorem length_bodyOf {data : List UInt8} {path : List UInt32} (h : pathOf data = some path) :
    (bodyOf data).length + (1 + 4 * path.length) = data.length := by
  obtain ⟨hlen, -, hle, -⟩ := pathOf_eq_some h
  unfold bodyOf
  rw [List.length_drop, ← hlen]
  omega

/-- The stored words are read back from the array. -/
theorem take_storedPath {path : List UInt32} (h : path.length ≤ maxBip32Path) :
    (storedPath path).cells.take path.length = path := by
  have hread : ((FixedBuf.fill maxBip32Path (0 : UInt32)).write 0 path).cells.take
      (0 + path.length) = (FixedBuf.fill maxBip32Path (0 : UInt32)).cells.take 0 ++ path :=
    FixedBuf.take_write_append (by omega)
  simpa [storedPath] using hread

/-! ## Writing a path prefix -/

/-- A word as four big-endian bytes. -/
def bytesOfU32BE (word : UInt32) : List UInt8 :=
  [(word >>> 24).toUInt8, (word >>> 16).toUInt8, (word >>> 8).toUInt8, word.toUInt8]

theorem readU32BE_bytesOfU32BE (word : UInt32) : readU32BE (bytesOfU32BE word) = word := by
  refine UInt32.toBitVec_inj.mp (BitVec.eq_of_getLsbD_eq fun i hi => ?_)
  unfold readU32BE bytesOfU32BE
  simp only [UInt32.toBitVec_or, UInt32.toBitVec_shiftLeft, UInt8.toBitVec_toUInt32,
    UInt32.toBitVec_toUInt8, UInt32.toBitVec_shiftRight, BitVec.getLsbD_or]
  interval_cases i <;> simp

/-- The path prefix of a command: the length byte and the words. -/
def pathPrefix (path : List UInt32) : List UInt8 :=
  UInt8.ofNat path.length :: path.flatMap bytesOfU32BE

theorem length_flatMap_bytesOfU32BE (path : List UInt32) :
    (path.flatMap bytesOfU32BE).length = 4 * path.length := by
  induction path with
  | nil => rfl
  | cons word path ih =>
    rw [List.flatMap_cons, List.length_append, ih, List.length_cons]
    show 4 + _ = _
    omega

theorem length_pathPrefix (path : List UInt32) :
    (pathPrefix path).length = 1 + 4 * path.length := by
  rw [pathPrefix, List.length_cons, length_flatMap_bytesOfU32BE, Nat.add_comm]

/-- Words written big-endian are read back. -/
theorem bip32Words_flatMap (path : List UInt32) (tail : List UInt8) :
    bip32Words path.length (path.flatMap bytesOfU32BE ++ tail) = path := by
  induction path with
  | nil => rfl
  | cons word path ih =>
    have hlen : (bytesOfU32BE word).length = 4 := rfl
    rw [List.length_cons, bip32Words, List.flatMap_cons, List.append_assoc, List.take_left' hlen,
      List.drop_left' hlen, readU32BE_bytesOfU32BE, ih]

/-- A prefix carries its path in full, whatever follows. -/
theorem pathOf_pathPrefix {path : List UInt32} (h : path.length ≤ maxBip32Path)
    (tail : List UInt8) : pathOf (pathPrefix path ++ tail) = some path := by
  have hten : path.length ≤ 10 := h
  have hbyte : (UInt8.ofNat path.length).toNat = path.length := by
    rw [UInt8.toNat_ofNat', Nat.mod_eq_of_lt (by omega)]
  rw [pathPrefix, List.cons_append, pathOf, hbyte, if_pos, bip32Words_flatMap]
  refine ⟨h, ?_⟩
  rw [List.length_append, length_flatMap_bytesOfU32BE]
  omega

theorem bodyOf_pathPrefix {path : List UInt32} (h : path.length ≤ maxBip32Path)
    (tail : List UInt8) : bodyOf (pathPrefix path ++ tail) = tail := by
  have hlen := (pathOf_eq_some (pathOf_pathPrefix h tail)).1
  unfold bodyOf
  rw [← hlen, ← length_pathPrefix]
  exact List.drop_left' rfl
/-! ## `readPath` -/

section ReadPath

variable (sdk : Sdk) (reqType : RequestType)

/-- The length byte is stored before anything is checked. -/
private theorem readU8_ofData (n : UInt8) (rest : List UInt8) :
    sdk.bufferReadU8 (.ofData (n :: rest))
      = (true, n, { ptr := n :: rest, size := (n :: rest).length, offset := 1 }) := by
  rw [sdk.readU8_some (.ofData (n :: rest)) n (by rw [Buffer.rest_ofData]; rfl)]
  rfl

/-- A path carried in full is stored, and the buffer stands at the body. -/
theorem readPath_accept {data : List UInt8} {path : List UInt32} (h : pathOf data = some path) :
    readPath sdk (.reset reqType) (.ofData data)
      = (true, .openedAt reqType path,
          { ptr := data, size := data.length, offset := 1 + 4 * path.length }) := by
  obtain ⟨hlen, hmax, hle, hwords⟩ := pathOf_eq_some h
  have hpathLen := pathLenOf_eq h
  cases data with
  | nil => exact absurd h (by simp [pathOf])
  | cons n rest =>
    have hn : n.toNat = path.length := hlen.symm
    have hten : path.length ≤ 10 := hmax
    have hread := sdk.readPath_accept
      { ptr := n :: rest, size := (n :: rest).length, offset := 1 } (.fill _ 0) n.toNat
      (by rw [hn]; exact hmax)
      (by rw [Buffer.rest_advance, hn]; simp only [List.drop_succ_cons, List.drop_zero];
          rw [List.length_cons] at hle; omega)
    have hcheck : ¬(n :: rest).length < (UInt8.ofNat (n.toNat * 4 + 1)).toNat := by
      rw [UInt8.toNat_ofNat', Nat.mod_eq_of_lt (by omega)]
      omega
    rw [Buffer.rest_advance, hn, ← hwords] at hread
    unfold readPath
    dsimp only
    rw [readU8_ofData]
    dsimp only
    rw [if_neg (by simp), show (GlobalCtx.reset reqType).bip32Path = .fill _ 0 from rfl, hn, hread]
    dsimp only
    rw [if_neg (by simp), ← hn, decide_eq_true hcheck, hn]
    have hctx : n = UInt8.ofNat path.length := by
      rw [← hn, UInt8.ofNat_toNat]
    rw [GlobalCtx.openedAt, ← hctx]
    rfl

/-- Anything else is refused, with the length byte already in the context. -/
theorem readPath_refuse {data : List UInt8} (hne : data ≠ []) (h : pathOf data = none) :
    ∃ p, (readPath sdk (.reset reqType) (.ofData data)).1 = false ∧
      (readPath sdk (.reset reqType) (.ofData data)).2.1 = .opened reqType (pathLenOf data) p := by
  cases data with
  | nil => exact absurd rfl hne
  | cons n rest =>
    have hbad : ¬(n.toNat ≤ maxBip32Path ∧ 4 * n.toNat ≤ rest.length) := by
      intro hn
      rw [pathOf, if_pos hn] at h
      exact absurd h (by simp)
    have hread := sdk.readPath_refuse
      { ptr := n :: rest, size := (n :: rest).length, offset := 1 } (.fill _ 0) n.toNat
      (by rw [Buffer.rest_advance]; exact hbad)
    refine ⟨(sdk.bufferReadBip32Path
      { ptr := n :: rest, size := (n :: rest).length, offset := 1 } (.fill _ 0) n.toNat).2.1, ?_⟩
    unfold readPath
    dsimp only
    rw [readU8_ofData]
    dsimp only
    rw [if_neg (by simp), show (GlobalCtx.reset reqType).bip32Path = .fill _ 0 from rfl,
      if_pos (by rw [hread]; simp)]
    exact ⟨rfl, rfl⟩

end ReadPath

end QubicLedger
