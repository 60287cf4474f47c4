import QubicLedger.Display.Review
import QubicLedger.Parser

/-!
# What a review tells about the bytes

A clear review shows four of the six fields of `transaction_qubic`, the fourth
in expert mode only. Each of the four texts determines its field: identities
are 60 letters of which 56 spell the key, numbers are plain decimal numerals.
The four fields are the first 76 of the 80 bytes, so in expert mode two
accepted bodies get the same review exactly when they agree there
(`uiDisplayTransaction_eq_iff`). `inputType` and `inputSize`, the last four
bytes, are neither shown nor checked.
-/

namespace QubicLedger

open Lib (FixedBuf bytesLE_inj)

/-! ## Texts determine fields -/

theorem shownIdentity_inj {n : Nat} (hn : 60 < n) {k k' : FixedBuf UInt8 addressLen}
    (h : shownIdentity n k.cells = shownIdentity n k'.cells) : k = k' := by
  rw [shownIdentity_eq hn, shownIdentity_eq hn] at h
  exact FixedBuf.ext (getIdentityFromPublicKey_inj k.size_eq k'.size_eq h)

theorem shownNumber_inj {held held' : FixedBuf UInt8 30} {v v' : UInt64}
    (h : shownNumber held v = shownNumber held' v') : v = v' := by
  rw [shownNumber_eq, shownNumber_eq] at h
  exact UInt64.toNat_inj.mp (decimal_injective h)

/-- An address review shows one key only. -/
theorem addressReview_inj {k k' : FixedBuf UInt8 addressLen}
    (h : addressReview k.cells = addressReview k'.cells) : k = k' := by
  unfold addressReview at h
  injection h with _ hpairs
  injection hpairs with hpair
  injection hpair with _ htext
  exact shownIdentity_inj (by decide) htext

/-- Two transactions that agree in every field a review shows. -/
structure SameShown (settings : AppSettings) (tx tx' : TransactionQubic) : Prop where
  source : tx.sourcePublicKey = tx'.sourcePublicKey
  destination : tx.destinationPublicKey = tx'.destinationPublicKey
  amount : tx.amount = tx'.amount
  tick : settings.displayMode = displayModeExpert → tx.tick = tx'.tick

theorem toUInt64_inj {a b : UInt32} (h : a.toUInt64 = b.toUInt64) : a = b := by
  have hnat := congrArg UInt64.toNat h
  rw [UInt32.toNat_toUInt64, UInt32.toNat_toUInt64] at hnat
  exact UInt32.toNat_inj.mp hnat

section Pairs

variable {tx tx' : TransactionQubic}

theorem amountPair_eq_iff : amountPair tx = amountPair tx' ↔ tx.amount = tx'.amount := by
  constructor
  · intro h
    exact shownNumber_inj (Prod.ext_iff.mp h).2
  · intro h
    rw [amountPair, h]
    rfl

theorem fromPair_eq_iff :
    fromPair tx = fromPair tx' ↔ tx.sourcePublicKey = tx'.sourcePublicKey := by
  constructor
  · intro h
    exact shownIdentity_inj (by decide) (Prod.ext_iff.mp h).2
  · intro h
    rw [fromPair, h]
    rfl

theorem toPair_eq_iff :
    toPair tx = toPair tx' ↔ tx.destinationPublicKey = tx'.destinationPublicKey := by
  constructor
  · intro h
    exact shownIdentity_inj (by decide) (Prod.ext_iff.mp h).2
  · intro h
    rw [toPair, h]
    rfl

theorem expertPairs_eq_iff (settings : AppSettings) :
    expertPairs settings tx = expertPairs settings tx' ↔
      (settings.displayMode = displayModeExpert → tx.tick = tx'.tick) := by
  unfold expertPairs
  split
  next hexpert =>
    constructor
    · intro h _
      exact toUInt64_inj (shownNumber_inj (Prod.ext_iff.mp (List.head_eq_of_cons_eq h)).2)
    · intro h
      rw [tickPair, h hexpert]
      rfl
  next huser => exact ⟨fun _ hexpert => absurd hexpert huser, fun _ => rfl⟩

/-- The values an NBGL review shows. -/
def shownValues (settings : AppSettings) (tx : TransactionQubic) : List (String × List UInt8) :=
  [amountPair tx, fromPair tx, toPair tx] ++ expertPairs settings tx

theorem shownValues_eq_iff (settings : AppSettings) :
    shownValues settings tx = shownValues settings tx' ↔ SameShown settings tx tx' := by
  unfold shownValues
  simp only [List.cons_append, List.nil_append, List.cons.injEq, amountPair_eq_iff,
    fromPair_eq_iff, toPair_eq_iff, expertPairs_eq_iff]
  constructor
  · intro h
    exact ⟨h.2.1, h.2.2.1, h.1, h.2.2.2⟩
  · intro h
    exact ⟨h.amount, h.source, h.destination, h.tick⟩

/-- On either interface the clear review determines the shown fields and nothing else. -/
theorem clearReview_eq_iff (build : Build) (settings : AppSettings) :
    clearReview build settings tx = clearReview build settings tx' ↔ SameShown settings tx tx' := by
  cases build with
  | nbgl =>
    rw [← shownValues_eq_iff]
    constructor
    · intro h
      injection h
    · intro h
      exact congrArg (Review.mk .clear) h
  | bagl =>
    unfold clearReview uxTransactionFlow
    simp only [Review.mk.injEq, true_and, List.cons_append, List.nil_append, List.cons.injEq,
      amountPair_eq_iff, fromPair_eq_iff, toPair_eq_iff, expertPairs_eq_iff]
    constructor
    · intro h
      exact ⟨h.1, h.2.1, h.2.2.1, h.2.2.2⟩
    · intro h
      exact ⟨h.source, h.destination, h.amount, h.tick⟩

end Pairs

/-! ## Fields are bytes -/

/-- The first 76 bytes, field by field. -/
theorem take_76_eq_iff {a b : List UInt8} :
    a.take 76 = b.take 76 ↔
      a.take 32 = b.take 32 ∧ (a.drop 32).take 32 = (b.drop 32).take 32 ∧
      (a.drop 64).take 8 = (b.drop 64).take 8 ∧ (a.drop 72).take 4 = (b.drop 72).take 4 := by
  have hcut : ∀ bs : List UInt8, bs.take 76
      = bs.take 32 ++ (bs.drop 32).take 32 ++ (bs.drop 64).take 8 ++ (bs.drop 72).take 4 := by
    intro bs
    rw [← List.take_add, ← List.take_add, ← List.take_add]
  constructor
  · intro h
    have hpart : ∀ i n, i + n ≤ 76 → (a.drop i).take n = (b.drop i).take n := by
      intro i n hle
      have hdrop := congrArg (fun bs => (bs.drop i).take n) h
      simpa [List.drop_take, List.take_take, Nat.min_eq_left (Nat.le_sub_of_add_le'  hle)]
        using hdrop
    exact ⟨by simpa using hpart 0 32 (by omega), hpart 32 32 (by omega), hpart 64 8 (by omega),
      hpart 72 4 (by omega)⟩
  · intro h
    obtain ⟨hsource, hdest, hamount, htick⟩ := h
    rw [hcut a, hcut b, hsource, hdest, hamount, htick]

/-- The fields shown in expert mode are the first 76 bytes. -/
theorem sameShown_decode_iff {settings : AppSettings}
    (hexpert : settings.displayMode = displayModeExpert) {a b : List UInt8}
    (ha : a.length = sizeofTransactionQubic) (hb : b.length = sizeofTransactionQubic) :
    SameShown settings (decodeTransaction a) (decodeTransaction b) ↔ a.take 76 = b.take 76 := by
  have hfa := decodeTransaction_laidOut ha
  have hfb := decodeTransaction_laidOut hb
  have hlen : ∀ {i n : Nat}, i + n ≤ sizeofTransactionQubic →
      ((a.drop i).take n).length = ((b.drop i).take n).length := by
    intro i n hle
    rw [length_field ha hle, length_field hb hle]
  rw [take_76_eq_iff]
  constructor
  · intro h
    refine ⟨?_, ?_, ?_, ?_⟩
    · exact hfa.source.symm.trans ((congrArg FixedBuf.cells h.source).trans hfb.source)
    · exact hfa.destination.symm.trans
        ((congrArg FixedBuf.cells h.destination).trans hfb.destination)
    · apply bytesLE_inj (hlen (by decide))
      rw [← hfa.amount, ← hfb.amount, h.amount]
    · apply bytesLE_inj (hlen (by decide))
      rw [← hfa.tick, ← hfb.tick, h.tick hexpert]
  · intro h
    obtain ⟨hsource, hdest, hamount, htick⟩ := h
    unfold decodeTransaction
    exact ⟨by rw [hsource], by rw [hdest], by rw [hamount], fun _ => by rw [htick]⟩

/-- In expert mode, on either interface, two bodies the parser accepts are
shown the same values exactly when their first 76 bytes agree. -/
theorem uiDisplayTransaction_eq_iff (build : Build) (sdk : Sdk) {settings : AppSettings}
    (hexpert : settings.displayMode = displayModeExpert) {held held' : TransactionQubic}
    {a b : List UInt8} (ha : (deserializeTransaction held a).1 = .parsingOk)
    (hb : (deserializeTransaction held' b).1 = .parsingOk) :
    uiDisplayTransaction build sdk settings (deserializeTransaction held a).2
        = uiDisplayTransaction build sdk settings (deserializeTransaction held' b).2 ↔
      a.take 76 = b.take 76 := by
  have ha' := (deserializeTransaction_ok_iff held a).mp ha
  have hb' := (deserializeTransaction_ok_iff held' b).mp hb
  rw [ha'.deserialize, hb'.deserialize, uiDisplayTransaction_eq, uiDisplayTransaction_eq,
    ← sameShown_decode_iff hexpert ha'.1 hb'.1, ← clearReview_eq_iff build settings]
  constructor
  · intro h
    injection h
  · intro h
    rw [h]

/-- A transfer of one unit between two keys of ones, with a given low byte of `inputType`. -/
def transferWithInput (inputType : UInt8) : List UInt8 :=
  List.replicate 64 1 ++ [1, 0, 0, 0, 0, 0, 0, 0] ++ [2, 0, 0, 0] ++ [inputType, 0, 0, 0]

def expertSettings : AppSettings :=
  { allowBlindSign := blindSignDisabled
    pubkeyDisplay := pubkeyDisplayShort
    displayMode := displayModeExpert }

theorem uiDisplayTransaction_eq_iff_sample :
    let sdk : Sdk := .reference fun _ _ => .error 0
    let tx := fun inputType =>
      (deserializeTransaction .zero (transferWithInput inputType)).2
    uiDisplayTransaction .nbgl sdk expertSettings (tx 0)
        = uiDisplayTransaction .nbgl sdk expertSettings (tx 1) ↔
      (transferWithInput 0).take 76 = (transferWithInput 1).take 76 :=
  uiDisplayTransaction_eq_iff .nbgl _ rfl (by decide) (by decide)

/-- Transfers that differ in `inputType` alone look the same on both interfaces. -/
theorem not_review_determines_body :
    ¬∀ (sdk : Sdk) (settings : AppSettings) (held held' : TransactionQubic) (a b : List UInt8),
      settings.allowBlindSign = blindSignDisabled → settings.displayMode = displayModeExpert →
      (deserializeTransaction held a).1 = .parsingOk →
      (deserializeTransaction held' b).1 = .parsingOk →
      (∀ build, uiDisplayTransaction build sdk settings (deserializeTransaction held a).2
        = uiDisplayTransaction build sdk settings (deserializeTransaction held' b).2) →
      a = b := by
  intro h
  have hsame : SameShown expertSettings (deserializeTransaction .zero (transferWithInput 0)).2
      (deserializeTransaction .zero (transferWithInput 1)).2 :=
    ⟨by decide, by decide, by decide, fun _ => by decide⟩
  have heq := h (.reference fun _ _ => .error 0) expertSettings .zero .zero (transferWithInput 0)
    (transferWithInput 1) rfl rfl (by decide) (by decide) (fun build => by
      rw [uiDisplayTransaction_eq, uiDisplayTransaction_eq,
        (clearReview_eq_iff build _).mpr hsame])
  exact absurd heq (by decide)

end QubicLedger
