import QubicLedger.Sdk
import QubicLedger.Display.Identity
import QubicLedger.Display.Printer

/-!
# The reviews (`ui/display_address_*.c`, `ui/display_transaction_*.c`)

The app has two user interfaces, chosen when it is built. A transaction review
renders `transaction_qubic` into static buffers (`g_amount`, `g_address`,
`g_public_key`, `g_tick`) and hands their addresses to the SDK; a review value
holds the strings, up to their NUL, as they are at that moment.

* NBGL shows Amount, From, To and, in expert mode, Tick, in both kinds of
  review; it first asks the SDK to format the amount and reports an error if
  that fails, though the formatted text is not used.
* BAGL shows From, To, Amount and, in expert mode, Tick for a clear review;
  its blind review is a fixed warning with no value of the transaction.

`clearReview_eq` says what the strings are. It also covers what the buffers
held before: identities overwrite the same 60 cells every time and numbers end
in a NUL (`shownNumber_eq`), so nothing of an earlier text is left in view.
-/

namespace QubicLedger

open Lib (FixedBuf OutMem numeral)

/-- `HAVE_NBGL` or `HAVE_BAGL`. -/
inductive Build
  | nbgl
  | bagl
deriving DecidableEq

/-- What a display call shows of a `char` array. -/
def cString (cells : List UInt8) : List UInt8 := cells.takeWhile (· ≠ 0)

/-- A literal text of the source. -/
def asciiText (s : String) : List UInt8 := s.toList.map fun c => UInt8.ofNat c.toNat

/-- The text of an address buffer of `n` cells after `get_identity_from_public_key`. -/
def shownIdentity (n : Nat) (publicKey : List UInt8) : List UInt8 :=
  cString ((FixedBuf.fill n 0).write 0 (getIdentityFromPublicKey publicKey false)).cells

/-- The text of `g_amount` or `g_tick` after `print_u64`, over what it held. -/
def shownNumber (held : FixedBuf UInt8 30) (value : UInt64) : List UInt8 :=
  cString (printU64 value ⟨held, []⟩).2.buf.cells

/-- The titled values of `transaction_qubic`. -/
def amountPair (tx : TransactionQubic) : String × List UInt8 :=
  ("Amount", shownNumber (.fill _ 0) tx.amount)

def fromPair (tx : TransactionQubic) : String × List UInt8 :=
  ("From address", shownIdentity 65 tx.sourcePublicKey.cells)

def toPair (tx : TransactionQubic) : String × List UInt8 :=
  ("To address", shownIdentity 65 tx.destinationPublicKey.cells)

def tickPair (tx : TransactionQubic) : String × List UInt8 :=
  ("Tick", shownNumber (.fill _ 0) tx.tick.toUInt64)

/-- The fourth pair, present in expert mode. -/
def expertPairs (settings : AppSettings) (tx : TransactionQubic) : List (String × List UInt8) :=
  if settings.displayMode = displayModeExpert then [tickPair tx] else []

/-- `ui_display_transaction_bs_choice` (NBGL). -/
def uiDisplayTransactionBsChoice (sdk : Sdk) (settings : AppSettings) (tx : TransactionQubic)
    (isBlindSigned : Bool) : Except StatusWord Review :=
  if ¬sdk.formatFpu64 30 tx.amount exponentSmallestUnit then .error .displayAmountFail
  else
    .ok { kind := if isBlindSigned then .blind else .clear
          pairs := [amountPair tx, fromPair tx, toPair tx] ++ expertPairs settings tx }

/-- `ux_display_transaction_flow` and its expert variant (BAGL). -/
def uxTransactionFlow (settings : AppSettings) (tx : TransactionQubic) : Review :=
  { kind := .clear
    pairs := [fromPair tx, toPair tx, amountPair tx] ++ expertPairs settings tx }

/-- `ux_display_blind_sign_transaction_flow` (BAGL). -/
def uxBlindSignTransactionFlow : Review :=
  { kind := .blind
    pairs := [("Blind sign ahead",
      asciiText ("The details of this transaction or message are not fully verifiable. "
        ++ "If you sign it, you could lose all your assets."))] }

/-- `ui_display_transaction`. -/
def uiDisplayTransaction (build : Build) (sdk : Sdk) (settings : AppSettings)
    (tx : TransactionQubic) : Except StatusWord Review :=
  match build with
  | .nbgl => uiDisplayTransactionBsChoice sdk settings tx false
  | .bagl => .ok (uxTransactionFlow settings tx)

/-- `ui_display_blind_signed_transaction`. -/
def uiDisplayBlindSignedTransaction (build : Build) (sdk : Sdk) (settings : AppSettings)
    (tx : TransactionQubic) : Except StatusWord Review :=
  match build with
  | .nbgl => uiDisplayTransactionBsChoice sdk settings tx true
  | .bagl => .ok uxBlindSignTransactionFlow

/-- The review `ui_display_address` puts up for a key. -/
def addressReview (rawPublicKey : List UInt8) : Review :=
  { kind := .address, pairs := [("Address", shownIdentity 61 rawPublicKey)] }

/-! ## The shown texts -/

/-- A text without NUL is shown up to its terminator. -/
theorem cString_append {s : List UInt8} (h : ∀ c ∈ s, c ≠ 0) (tail : List UInt8) :
    cString (s ++ 0 :: tail) = s := by
  unfold cString
  rw [List.takeWhile_append_of_pos (by simpa using h), List.takeWhile_cons]
  simp

/-- A 64-bit number has at most 20 digits. -/
theorem length_decimal_le (v : UInt64) : (decimal v.toNat).length ≤ 20 := by
  rw [length_decimal]
  refine (Lib.numeral_length_le_iff (by omega) (by omega)).mpr ?_
  calc v.toNat < 2 ^ 64 := v.toNat_lt
    _ ≤ 10 ^ 20 := by norm_num

/-- Numbers are shown as their decimal numeral, whatever the buffer held. -/
theorem shownNumber_eq (held : FixedBuf UInt8 30) (v : UInt64) :
    shownNumber held v = decimal v.toNat := by
  have hlen := length_decimal_le v
  have hspec := (printU64_spec v ⟨held, []⟩ (by decide) (by omega)).2
  unfold shownNumber
  rw [hspec, FixedBuf.cells_write (by rw [List.length_append, List.length_singleton]; omega)]
  simp only [List.take_zero, List.nil_append, List.append_assoc, List.singleton_append]
  exact cString_append (decimal_ne_zero _) _

/-- Identities are shown whole. -/
theorem shownIdentity_eq {n : Nat} (hn : 60 < n) (publicKey : List UInt8) :
    shownIdentity n publicKey = getIdentityFromPublicKey publicKey false := by
  have hlen := length_getIdentityFromPublicKey publicKey false
  unfold shownIdentity
  rw [FixedBuf.cells_write (by omega), FixedBuf.cells_fill, List.take_zero, List.nil_append,
    List.drop_replicate, show n - (0 + (getIdentityFromPublicKey publicKey false).length)
      = (n - 61) + 1 by omega, List.replicate_succ]
  exact cString_append (getIdentityFromPublicKey_ne_zero publicKey false) _

/-- The documented amount buffer is large enough, so NBGL always shows the review. -/
theorem uiDisplayTransactionBsChoice_eq (sdk : Sdk) (settings : AppSettings)
    (tx : TransactionQubic) (isBlindSigned : Bool) :
    uiDisplayTransactionBsChoice sdk settings tx isBlindSigned
      = .ok { kind := if isBlindSigned then .blind else .clear
              pairs := [amountPair tx, fromPair tx, toPair tx] ++ expertPairs settings tx } := by
  unfold uiDisplayTransactionBsChoice
  rw [if_neg (by rw [sdk.formatFpu64_amount]; decide)]

/-! ## The review of each build -/

/-- The clear review of a transaction. -/
def clearReview (build : Build) (settings : AppSettings) (tx : TransactionQubic) : Review :=
  match build with
  | .nbgl =>
    { kind := .clear
      pairs := [amountPair tx, fromPair tx, toPair tx] ++ expertPairs settings tx }
  | .bagl => uxTransactionFlow settings tx

/-- The blind review shown while `transaction_qubic` holds `tx`. -/
def blindReview (build : Build) (settings : AppSettings) (tx : TransactionQubic) : Review :=
  match build with
  | .nbgl =>
    { kind := .blind
      pairs := [amountPair tx, fromPair tx, toPair tx] ++ expertPairs settings tx }
  | .bagl => uxBlindSignTransactionFlow

theorem uiDisplayTransaction_eq (build : Build) (sdk : Sdk) (settings : AppSettings)
    (tx : TransactionQubic) :
    uiDisplayTransaction build sdk settings tx = .ok (clearReview build settings tx) := by
  cases build with
  | nbgl => exact uiDisplayTransactionBsChoice_eq sdk settings tx false
  | bagl => rfl

theorem uiDisplayBlindSignedTransaction_eq (build : Build) (sdk : Sdk) (settings : AppSettings)
    (tx : TransactionQubic) :
    uiDisplayBlindSignedTransaction build sdk settings tx
      = .ok (blindReview build settings tx) := by
  cases build with
  | nbgl => exact uiDisplayTransactionBsChoice_eq sdk settings tx true
  | bagl => rfl

@[simp] theorem clearReview_kind (build : Build) (settings : AppSettings)
    (tx : TransactionQubic) : (clearReview build settings tx).kind = .clear := by
  cases build <;> rfl

@[simp] theorem blindReview_kind (build : Build) (settings : AppSettings)
    (tx : TransactionQubic) : (blindReview build settings tx).kind = .blind := by
  cases build <;> rfl

end QubicLedger
