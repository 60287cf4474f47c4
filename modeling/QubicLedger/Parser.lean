import QubicLedger.Types
import QubicLedger.Lib.Bytes

/-!
# The transaction parser (`transaction/deserialize.c`)

`deserialize_transaction` copies an 80-byte body over `transaction_qubic` and
then refuses zero destinations, zero sources and zero amounts. A body of any
other length is refused before the copy, so `transaction_qubic` keeps what it
held (`deserializeTransaction_length_error`); a body refused after the copy
has already replaced it.
-/

namespace QubicLedger

open Lib (FixedBuf bytesLE bytesLE_mod)

/-- `parser_status_e`. -/
inductive ParserStatus
  | parsingOk
  | valueParsingError
  | wrongLengthError
  | wrongDestinationAddressError
  | wrongSourceAddressError
deriving DecidableEq

/-- `memcpy` into a field of `n` bytes. -/
def copyBytes (n : Nat) (bs : List UInt8) : FixedBuf UInt8 n := (FixedBuf.fill n 0).write 0 bs

theorem cells_copyBytes {n : Nat} {bs : List UInt8} (h : bs.length = n) :
    (copyBytes n bs).cells = bs := FixedBuf.cells_write_full h

/-- The field layout of `transaction_qubic_t` on the little-endian target. -/
def decodeTransaction (bs : List UInt8) : TransactionQubic :=
  { sourcePublicKey := copyBytes _ (bs.take 32)
    destinationPublicKey := copyBytes _ ((bs.drop 32).take 32)
    amount := UInt64.ofNat (bytesLE ((bs.drop 64).take 8))
    tick := UInt32.ofNat (bytesLE ((bs.drop 72).take 4))
    inputType := UInt16.ofNat (bytesLE ((bs.drop 76).take 2))
    inputSize := UInt16.ofNat (bytesLE ((bs.drop 78).take 2)) }

/-- A field inside the structure is as long as its type. -/
theorem length_field {buf : List UInt8} (h : buf.length = sizeofTransactionQubic) {i n : Nat}
    (hle : i + n ≤ sizeofTransactionQubic) : ((buf.drop i).take n).length = n := by
  rw [List.length_take, List.length_drop, h]
  exact Nat.min_eq_left (Nat.le_sub_of_add_le' hle)

/-- Every field of `tx` is what `buf` holds at its place. -/
structure LaidOut (tx : TransactionQubic) (buf : List UInt8) : Prop where
  source : tx.sourcePublicKey.cells = buf.take 32
  destination : tx.destinationPublicKey.cells = (buf.drop 32).take 32
  amount : tx.amount.toNat = bytesLE ((buf.drop 64).take 8)
  tick : tx.tick.toNat = bytesLE ((buf.drop 72).take 4)
  inputType : tx.inputType.toNat = bytesLE ((buf.drop 76).take 2)
  inputSize : tx.inputSize.toNat = bytesLE ((buf.drop 78).take 2)

theorem decodeTransaction_laidOut {buf : List UInt8} (h : buf.length = sizeofTransactionQubic) :
    LaidOut (decodeTransaction buf) buf := by
  have hlen : ∀ i n : Nat, i + n ≤ 80 → ((buf.drop i).take n).length = n :=
    fun i n hle => length_field h hle
  refine ⟨?_, ?_, ?_, ?_, ?_, ?_⟩
  · exact cells_copyBytes (hlen 0 32 (by omega))
  · exact cells_copyBytes (hlen 32 32 (by omega))
  · exact (UInt64.toNat_ofNat' ..).trans (bytesLE_mod (k := 8) rfl (hlen 64 8 (by omega)))
  · exact (UInt32.toNat_ofNat' ..).trans (bytesLE_mod (k := 4) rfl (hlen 72 4 (by omega)))
  · exact (UInt16.toNat_ofNat' ..).trans (bytesLE_mod (k := 2) rfl (hlen 76 2 (by omega)))
  · exact (UInt16.toNat_ofNat' ..).trans (bytesLE_mod (k := 2) rfl (hlen 78 2 (by omega)))

/-- The checks made on the copied structure, in the source's order. -/
def checkTransaction (tx : TransactionQubic) : ParserStatus :=
  if tx.destinationPublicKey.cells = List.replicate addressLen 0 then
    .wrongDestinationAddressError
  else if tx.sourcePublicKey.cells = List.replicate addressLen 0 then .wrongSourceAddressError
  else if tx.amount = 0 then .valueParsingError
  else .parsingOk

/-- `deserialize_transaction` on the received bytes (`buf->offset` is zero):
the status and `G_context.tx_info.transaction_qubic` afterwards. -/
def deserializeTransaction (tx : TransactionQubic) (buf : List UInt8) :
    ParserStatus × TransactionQubic :=
  if buf.length > maxTxLen ∨ buf.length ≠ sizeofTransactionQubic then (.wrongLengthError, tx)
  else (checkTransaction (decodeTransaction buf), decodeTransaction buf)

/-- What the parser accepts, as a predicate on the bytes alone. -/
def Parses (buf : List UInt8) : Prop :=
  buf.length = sizeofTransactionQubic ∧ checkTransaction (decodeTransaction buf) = .parsingOk

instance (buf : List UInt8) : Decidable (Parses buf) := inferInstanceAs (Decidable (_ ∧ _))

theorem deserializeTransaction_length_error (tx : TransactionQubic) {buf : List UInt8}
    (h : buf.length ≠ sizeofTransactionQubic) :
    deserializeTransaction tx buf = (.wrongLengthError, tx) := if_pos (Or.inr h)

theorem deserializeTransaction_of_length (tx : TransactionQubic) {buf : List UInt8}
    (h : buf.length = sizeofTransactionQubic) :
    deserializeTransaction tx buf
      = (checkTransaction (decodeTransaction buf), decodeTransaction buf) := by
  unfold deserializeTransaction
  rw [if_neg]
  rintro (hlong | hne)
  · rw [h] at hlong
    exact absurd hlong (by decide)
  · exact hne h

/-- The status depends on the bytes only, not on what the structure held. -/
theorem deserializeTransaction_ok_iff (tx : TransactionQubic) (buf : List UInt8) :
    (deserializeTransaction tx buf).1 = .parsingOk ↔ Parses buf := by
  by_cases h : buf.length = sizeofTransactionQubic
  · rw [deserializeTransaction_of_length tx h]
    exact ⟨fun hs => ⟨h, hs⟩, fun ha => ha.2⟩
  · rw [deserializeTransaction_length_error tx h]
    constructor
    · intro hs
      exact absurd (show ParserStatus.wrongLengthError = .parsingOk from hs) (by decide)
    · intro ha
      exact absurd ha.1 h

theorem Parses.deserialize {buf : List UInt8} (h : Parses buf) (tx : TransactionQubic) :
    deserializeTransaction tx buf = (.parsingOk, decodeTransaction buf) := by
  rw [deserializeTransaction_of_length tx h.1, h.2]

end QubicLedger
