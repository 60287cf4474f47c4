import QubicLedger.Session.Split

/-!
# The path prologue of the two commands

GET_PUBLIC_KEY and SIGN_TX with P1 = 0 read their path with the same lines and
then part: SIGN_TX refuses the empty path, GET_PUBLIC_KEY does not look.
`derive_mem_getPublicKey_iff` and `append_mem_signTx_iff` say which data fields
get past the prologue of each and what they leave for the derivation. The two
agree on every data field that does not start with a zero
(`agreeOnPath_iff`).
-/

namespace QubicLedger

open Lib (FixedBuf)

/-! ## Agreement -/

/-- A data field with a path: a length byte of one to ten, and its words. -/
def CarriesPath (data : List UInt8) : Prop :=
  ∃ n rest, data = n :: rest ∧ 1 ≤ n.toNat ∧ n.toNat ≤ 10 ∧ 4 * n.toNat ≤ rest.length

/-- GET_PUBLIC_KEY goes on to derive, with these arguments. -/
def GetPublicKeyDerives (dev : Device) (app : App) (data : List UInt8) (display : Bool)
    (path : FixedBuf UInt32 maxBip32Path) (pathLen : UInt8) : Prop :=
  Action.derive path pathLen ∈ (handlerGetPublicKey dev app (.ofData data) display).2

/-- SIGN_TX with P1 = 0 gets past its path checks, to the copy of the body. -/
def SignTxPasses (dev : Device) (app : App) (data : List UInt8) (more : Bool) : Prop :=
  ∃ pos size offset,
    Action.append pos size offset ∈ (handlerSignTx dev app (.ofData data) 0 more).2

/-- `crypto_sign_message`, called on the context that command leaves, derives
with these arguments. -/
def SignTxDerives (dev : Device) (app : App) (data : List UInt8) (more : Bool)
    (path : FixedBuf UInt32 maxBip32Path) (pathLen : UInt8) : Prop :=
  ∀ settings, Action.derive path pathLen ∈
    (cryptoSignMessage dev settings (handlerSignTx dev app (.ofData data) 0 more).1.ctx).2.2

/-- The two commands agree on the path in a data field. -/
structure AgreeOnPath (dev : Device) (app : App) (data : List UInt8) (display more : Bool) :
    Prop where
  getPublicKey : (∃ path n, GetPublicKeyDerives dev app data display path n) ↔ CarriesPath data
  signTx : SignTxPasses dev app data more ↔ CarriesPath data
  words : CarriesPath data → ∃ path n, data.head? = some n ∧
    path.cells.take n.toNat = bip32Words n.toNat (data.drop 1) ∧
    (∀ path' n', GetPublicKeyDerives dev app data display path' n' ↔ path' = path ∧ n' = n) ∧
    ∀ path' n', SignTxDerives dev app data more path' n' ↔ path' = path ∧ n' = n

theorem carriesPath_iff {data : List UInt8} :
    CarriesPath data ↔ ∃ path, pathOf data = some path ∧ path ≠ [] := by
  constructor
  · intro h
    obtain ⟨n, rest, rfl, hpos, hten, hle⟩ := h
    refine ⟨bip32Words n.toNat rest, ?_, ?_⟩
    · rw [pathOf, if_pos ⟨hten, hle⟩]
    · intro hnil
      have hlen := length_bip32Words n.toNat rest
      rw [hnil, List.length_nil] at hlen
      omega
  · intro h
    obtain ⟨path, hpath, hne⟩ := h
    obtain ⟨hlen, hmax, hle, -⟩ := pathOf_eq_some hpath
    have hpos := List.length_pos_of_ne_nil hne
    cases data with
    | nil => exact absurd hpath (by simp [pathOf])
    | cons n rest =>
      have hn : path.length = n.toNat := hlen
      rw [List.length_cons] at hle
      refine ⟨n, rest, rfl, ?_, ?_, ?_⟩
      · omega
      · rw [← hn]
        exact hmax
      · omega

/-! ## GET_PUBLIC_KEY -/

section GetPublicKey

variable (dev : Device) (app : App) (display : Bool)

/-- Without a byte there is no length. -/
theorem readPath_nil (sdk : Sdk) (ctx : GlobalCtx) :
    (readPath sdk ctx (.ofData [])).1 = false := by
  unfold readPath
  dsimp only
  rw [if_pos (by rw [sdk.readU8_none (.ofData []) rfl]; exact Bool.false_ne_true)]

theorem handlerGetPublicKey_nil :
    (handlerGetPublicKey dev app (.ofData []) display).2 = [ioSendSw .wrongDataLength] := by
  unfold handlerGetPublicKey
  dsimp only
  rw [if_pos (by rw [readPath_nil]; exact Bool.false_ne_true)]

/-- It derives with the path it carries in full, the empty one included. -/
theorem getPublicKeyDerives_iff (data : List UInt8) (p : FixedBuf UInt32 maxBip32Path) (n : UInt8) :
    GetPublicKeyDerives dev app data display p n ↔
      ∃ path, pathOf data = some path ∧ p = storedPath path ∧ n = UInt8.ofNat path.length := by
  unfold GetPublicKeyDerives
  cases hpath : pathOf data with
  | none =>
    refine iff_of_false ?_ (by simp)
    by_cases hne : data = []
    · rw [hne, handlerGetPublicKey_nil]
      simp [ioSendSw]
    · obtain ⟨q, hout⟩ := handlerGetPublicKey_refused dev app display hne hpath
      rw [hout]
      simp [ioSendSw]
  | some path =>
    cases hkey : deriveQubicKeypair dev.sdk dev.fourQ (storedPath path)
        (UInt8.ofNat path.length) with
    | error err =>
      rw [handlerGetPublicKey_threw dev app display hpath hkey]
      simp
    | ok keypair =>
      rw [handlerGetPublicKey_derived dev app display hpath hkey]
      cases display with
      | true => simp
      | false => simp

end GetPublicKey

/-! ## SIGN_TX -/

section SignTx

variable (dev : Device) (app : App) (more : Bool)

theorem handlerSignTx_nil :
    (handlerSignTx dev app (.ofData []) 0 more).2 = [ioSendSw .wrongDataLength] := by
  unfold handlerSignTx
  rw [if_pos rfl]
  dsimp only
  rw [if_pos (by rw [readPath_nil]; exact Bool.false_ne_true)]

/-- A path that is let in goes into the context, and stays there. -/
theorem handlerSignTx_first {data : List UInt8} (hdata : data.length ≤ 255) {path : List UInt32}
    (hpath : pathOf data = some path) (hne : path ≠ []) :
    SignTxPasses dev app data more ∧
    (handlerSignTx dev app (.ofData data) 0 more).1.ctx.bip32Path = storedPath path ∧
    (handlerSignTx dev app (.ofData data) 0 more).1.ctx.bip32PathLen
      = UInt8.ofNat path.length := by
  have hentry : entry app.ctx 0 data = some (.openedAt .confirmTransaction path, bodyOf data) := by
    unfold entry
    rw [if_pos rfl, hpath]
    cases path with
    | nil => exact absurd rfl hne
    | cons word words => rfl
  unfold SignTxPasses
  rw [handlerSignTx_entry dev app more hdata hentry]
  cases more with
  | true => exact ⟨⟨_, _, _, List.mem_cons_self ..⟩, rfl, rfl⟩
  | false =>
    rw [if_neg Bool.false_ne_true]
    refine ⟨⟨_, _, _, List.mem_cons_self ..⟩, ?_⟩
    rw [(signTxFinish_ctx dev _).1]
    exact ⟨rfl, rfl⟩

/-- It gets past the prologue with a path of at least one word only. -/
theorem signTxPasses_iff {data : List UInt8} (hdata : data.length ≤ 255) :
    SignTxPasses dev app data more ↔ CarriesPath data := by
  rw [carriesPath_iff]
  cases hpath : pathOf data with
  | none =>
    refine iff_of_false ?_ (by simp)
    unfold SignTxPasses
    by_cases hne : data = []
    · rw [hne, handlerSignTx_nil]
      simp [ioSendSw]
    · obtain ⟨q, hout⟩ := handlerSignTx_first_refused dev app more hne hpath
      rw [hout]
      simp [ioSendSw]
  | some path =>
    by_cases hne : path = []
    · refine iff_of_false ?_ (by simp [hne])
      unfold SignTxPasses
      rw [handlerSignTx_first_empty dev app more (by rw [hpath, hne])]
      simp [ioSendSw]
    · exact iff_of_true (handlerSignTx_first dev app more hdata hpath hne).1 ⟨path, rfl, hne⟩

/-- `crypto_sign_message` derives once, with the path in the context. -/
theorem derive_mem_cryptoSignMessage_iff (settings : AppSettings) (ctx : GlobalCtx)
    (p : FixedBuf UInt32 maxBip32Path) (n : UInt8) :
    Action.derive p n ∈ (cryptoSignMessage dev settings ctx).2.2 ↔
      p = ctx.bip32Path ∧ n = ctx.bip32PathLen := by
  unfold cryptoSignMessage
  dsimp only
  split
  · simp
  · split
    · simp
    · split
      · simp
      · simp

end SignTx

/-! ## Where they agree -/

/-- A data field that starts with a zero carries the empty path. -/
theorem pathOf_zero {data : List UInt8} (h : data.head? = some 0) : pathOf data = some [] := by
  cases data with
  | nil => exact absurd h (by simp)
  | cons n rest =>
    obtain rfl : n = 0 := Option.some.inj h
    rw [pathOf, if_pos ⟨Nat.zero_le _, Nat.zero_le _⟩]
    rfl

/-- Where the length byte is not zero no carried path is empty. -/
theorem pathOf_ne_nil {data : List UInt8} (h : data.head? ≠ some 0) {path : List UInt32}
    (hpath : pathOf data = some path) : path ≠ [] := by
  rintro rfl
  have hzero : pathLenOf data = 0 := pathLenOf_eq hpath
  cases data with
  | nil => exact absurd hpath (by simp [pathOf])
  | cons n rest => exact h (congrArg some hzero)

/-- Both commands hand the carried words to the derivation. -/
theorem agree_words (dev : Device) (app : App) {data : List UInt8} (hdata : data.length ≤ 255)
    (display more : Bool) {path : List UInt32} (hpath : pathOf data = some path)
    (hne : path ≠ []) :
    ∃ p n, data.head? = some n ∧ p.cells.take n.toNat = bip32Words n.toNat (data.drop 1) ∧
      (∀ p' n', GetPublicKeyDerives dev app data display p' n' ↔ p' = p ∧ n' = n) ∧
      ∀ p' n', SignTxDerives dev app data more p' n' ↔ p' = p ∧ n' = n := by
  obtain ⟨hlen, hmax, -, hwords⟩ := pathOf_eq_some hpath
  obtain ⟨-, hstored, hstoredLen⟩ := handlerSignTx_first dev app more hdata hpath hne
  have hhead : data.head? = some (pathLenOf data) := by
    cases data with
    | nil => exact absurd hpath (by simp [pathOf])
    | cons n rest => rfl
  refine ⟨storedPath path, pathLenOf data, hhead, ?_, ?_, ?_⟩
  · rw [← hlen, take_storedPath hmax]
    exact hwords
  · intro p' n'
    rw [getPublicKeyDerives_iff, hpath, pathLenOf_eq hpath]
    simp
  · intro p' n'
    unfold SignTxDerives
    simp only [derive_mem_cryptoSignMessage_iff, hstored, hstoredLen, pathLenOf_eq hpath]
    -- the settings do not matter
    exact ⟨fun h => h app.storage.settings, fun h _ => h⟩

/-- On every data field of a command: the two agree unless it starts with the
length byte zero. -/
theorem agreeOnPath_iff (dev : Device) (app : App) (field : Chunk) (display more : Bool) :
    AgreeOnPath dev app field.data display more ↔ field.data.head? ≠ some 0 := by
  constructor
  · intro hagree hzero
    -- GET_PUBLIC_KEY derives with the empty path
    have hderives := (getPublicKeyDerives_iff dev app display field.data (storedPath []) 0).mpr
      ⟨[], pathOf_zero hzero, rfl, rfl⟩
    obtain ⟨path, hpath, hne⟩ := carriesPath_iff.mp (hagree.getPublicKey.mp ⟨_, _, hderives⟩)
    rw [pathOf_zero hzero] at hpath
    exact hne (Option.some.inj hpath).symm
  · intro hfirst
    refine ⟨?_, signTxPasses_iff dev app more field.length_le, ?_⟩
    · simp only [getPublicKeyDerives_iff, carriesPath_iff]
      constructor
      · intro h
        obtain ⟨-, -, path, hpath, -⟩ := h
        exact ⟨path, hpath, pathOf_ne_nil hfirst hpath⟩
      · intro h
        obtain ⟨path, hpath, -⟩ := h
        exact ⟨_, _, path, hpath, rfl, rfl⟩
    · intro hcarries
      obtain ⟨path, hpath, hne⟩ := carriesPath_iff.mp hcarries
      exact agree_words dev app field.length_le display more hpath hne

/-- GET_PUBLIC_KEY with the single data byte 00 derives a key. -/
theorem not_agreeOnPath :
    ¬∀ (dev : Device) (app : App) (field : Chunk) (display more : Bool),
      AgreeOnPath dev app field.data display more := by
  intro h
  have hagree := h (sampleDevice .nbgl) (appMain .default) ⟨[0], by decide⟩ false false
  obtain ⟨n, rest, hdata, hpos, -⟩ := hagree.getPublicKey.mp ⟨storedPath [], 0, by
    unfold GetPublicKeyDerives
    decide +kernel⟩
  injection hdata with hn
  subst hn
  exact absurd hpos (by decide)

end QubicLedger
