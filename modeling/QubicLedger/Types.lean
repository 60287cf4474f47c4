import QubicLedger.Lib.FixedBuf

/-!
# The app's data: constants, context, settings, what can be observed

The types of `types.h`, `transaction/types.h`, `globals.h`, `constants.h` and
`sw.h`, field by field.

`global_ctx_t` holds a union of `pk_info` and `tx_info`. Both members start at
the same address and `pubkey_ctx_t` (64 bytes) is shorter than `raw_tx` (1024
bytes, the first member of `transaction_ctx_t`), so the union is modelled by
`tx_info` alone and `pk_info.raw_public_key` is bytes 0..31 of `raw_tx`
(`GlobalCtx.rawPublicKey`, `GlobalCtx.setRawPublicKey`). Writing a public key
overwrites the head of the transaction buffer and the other way round, as on
the device. `chain_code` (bytes 32..63) is only ever cleared with the whole
context.

Everything the outside can see of a step is an `Action`: responses to the
host, reviews and status pages on the screen. Calls whose arguments matter to
the user's security (`derive_qubic_keypair`, `SchnorrQ_Sign`, the copy into
`raw_tx`) are recorded as actions too.
-/

namespace QubicLedger

open Lib (FixedBuf)

/-! ## Constants -/

/-- `CLA`. -/
def cla : UInt8 := 0xE0

/-- `MAX_TRANSACTION_LEN`: the size of `raw_tx`. -/
abbrev maxTransactionLen : Nat := 1024

/-- `MAX_TX_LEN`: the parser's limit. -/
abbrev maxTxLen : Nat := 510

/-- `ADDRESS_LEN`, `PUBKEY_LENGTH`. -/
abbrev addressLen : Nat := 32

/-- `TRANSACTION_DIGEST_LEN`. -/
abbrev transactionDigestLen : Nat := 32

/-- `MAX_DER_SIG_LEN`. -/
abbrev maxDerSigLen : Nat := 64

/-- `SUBSEED_LENGTH`. -/
abbrev subseedLength : Nat := 32

/-- `EXPONENT_SMALLEST_UNIT`. -/
def exponentSmallestUnit : UInt8 := 3

/-- The SDK's `MAX_BIP32_PATH`: the size of `bip32_path`. -/
abbrev maxBip32Path : Nat := 10

/-- `P2_LAST`, `P2_MORE`, `P1_MAX`. -/
def p2Last : UInt8 := 0x00
def p2More : UInt8 := 0x80
def p1Max : UInt8 := 0x03

/-- `command_e`. -/
def insGetVersion : UInt8 := 0x03
def insGetAppName : UInt8 := 0x04
def insGetPublicKey : UInt8 := 0x05
def insSignTx : UInt8 := 0x06

/-- One past the largest `size_t` of the 32-bit target. -/
def sizeTModulus : Nat := 0x100000000

/-- `a - b` in `size_t`: wraps below zero. -/
def subSizeT (a b : Nat) : Nat := (a + (sizeTModulus - b % sizeTModulus)) % sizeTModulus

/-- A subtraction that does not underflow is the subtraction of `Nat`. -/
theorem subSizeT_eq {a b : Nat} (h : b ≤ a) (ha : a < sizeTModulus) : subSizeT a b = a - b := by
  have hb : b % sizeTModulus = b := Nat.mod_eq_of_lt (Nat.lt_of_le_of_lt h ha)
  unfold subSizeT
  rw [hb, show a + (sizeTModulus - b) = (a - b) + sizeTModulus by omega, Nat.add_mod_right,
    Nat.mod_eq_of_lt (by omega)]

/-- `a + b` in `size_t`. -/
def addSizeT (a b : Nat) : Nat := (a + b) % sizeTModulus

theorem addSizeT_eq {a b : Nat} (h : a + b < sizeTModulus) : addSizeT a b = a + b :=
  Nat.mod_eq_of_lt h

/-! ## Status words (`sw.h`) -/

/-- The status words the app answers with. -/
inductive StatusWord
  | ok
  | deny
  | wrongP1P2
  | wrongDataLength
  | insNotSupported
  | claNotSupported
  | displayAmountFail
  | wrongTxLength
  | txParsingFail
  | badState
  | signatureFail
  | wrongBip32PathLength
deriving DecidableEq

/-- The two bytes sent for a status word. -/
def StatusWord.code : StatusWord → UInt16
  | .ok => 0x9000
  | .deny => 0x6985
  | .wrongP1P2 => 0x6A86
  | .wrongDataLength => 0x6A87
  | .insNotSupported => 0x6D00
  | .claNotSupported => 0x6E00
  | .displayAmountFail => 0xB003
  | .wrongTxLength => 0xB004
  | .txParsingFail => 0xB005
  | .badState => 0xB007
  | .signatureFail => 0xB008
  | .wrongBip32PathLength => 0xC001

/-- The host can tell the status words apart. -/
theorem StatusWord.code_injective : Function.Injective StatusWord.code := by
  intro a b
  cases a <;> cases b <;> decide

/-! ## The context (`types.h`, `transaction/types.h`) -/

/-- `state_e`. -/
inductive CtxState
  | none
  | parsed
  | approved
deriving DecidableEq

/-- `request_type_e`. -/
inductive RequestType
  | confirmAddress
  | confirmTransaction
deriving DecidableEq

/-- `transaction_qubic_t`: 80 bytes, no padding. -/
@[ext]
structure TransactionQubic where
  sourcePublicKey : FixedBuf UInt8 addressLen
  destinationPublicKey : FixedBuf UInt8 addressLen
  amount : UInt64
  tick : UInt32
  inputType : UInt16
  inputSize : UInt16
deriving DecidableEq

/-- `sizeof(transaction_qubic_t)`. -/
abbrev sizeofTransactionQubic : Nat := 80

/-- The all-zero structure left by `explicit_bzero`. -/
def TransactionQubic.zero : TransactionQubic :=
  { sourcePublicKey := .fill _ 0
    destinationPublicKey := .fill _ 0
    amount := 0
    tick := 0
    inputType := 0
    inputSize := 0 }

/-- `transaction_ctx_t`. -/
structure TransactionCtx where
  rawTx : FixedBuf UInt8 maxTransactionLen
  rawTxLen : Nat
  transactionQubic : TransactionQubic
  mHash : FixedBuf UInt8 transactionDigestLen
  signature : FixedBuf UInt8 maxDerSigLen
  signatureLen : UInt8
deriving DecidableEq

/-- `global_ctx_t`, with the union represented by its longer member. -/
structure GlobalCtx where
  state : CtxState
  txInfo : TransactionCtx
  reqType : RequestType
  bip32Path : FixedBuf UInt32 maxBip32Path
  bip32PathLen : UInt8
deriving DecidableEq

/-- `explicit_bzero(&G_context, sizeof(G_context))`. -/
def GlobalCtx.zero : GlobalCtx :=
  { state := .none
    txInfo :=
      { rawTx := .fill _ 0
        rawTxLen := 0
        transactionQubic := .zero
        mHash := .fill _ 0
        signature := .fill _ 0
        signatureLen := 0 }
    reqType := .confirmAddress
    bip32Path := .fill _ 0
    bip32PathLen := 0 }

/-- The transaction bytes received so far: `raw_tx[0 .. raw_tx_len)`. -/
def GlobalCtx.received (ctx : GlobalCtx) : List UInt8 :=
  ctx.txInfo.rawTx.cells.take ctx.txInfo.rawTxLen

/-- `pk_info.raw_public_key`, the first 32 bytes of the union. -/
def GlobalCtx.rawPublicKey (ctx : GlobalCtx) : List UInt8 :=
  ctx.txInfo.rawTx.cells.take addressLen

/-- `memcpy(G_context.pk_info.raw_public_key, key, PUBKEY_LENGTH)`. -/
def GlobalCtx.setRawPublicKey (ctx : GlobalCtx) (key : FixedBuf UInt8 addressLen) : GlobalCtx :=
  { ctx with txInfo := { ctx.txInfo with rawTx := ctx.txInfo.rawTx.write 0 key.cells } }

/-- The key copied into the union is read back from it. -/
theorem GlobalCtx.rawPublicKey_setRawPublicKey (ctx : GlobalCtx)
    (key : FixedBuf UInt8 addressLen) : (ctx.setRawPublicKey key).rawPublicKey = key.cells := by
  have hfit : 0 + key.cells.length ≤ maxTransactionLen := by
    rw [key.size_eq]
    decide
  have hread := FixedBuf.take_write_append (b := ctx.txInfo.rawTx) hfit
  rw [key.size_eq] at hread
  simpa [GlobalCtx.rawPublicKey, GlobalCtx.setRawPublicKey] using hread

/-! ## Settings (`globals.h`) -/

def blindSignDisabled : UInt8 := 0
def blindSignEnabled : UInt8 := 1
def pubkeyDisplayLong : UInt8 := 0
def pubkeyDisplayShort : UInt8 := 1
def displayModeUser : UInt8 := 0
def displayModeExpert : UInt8 := 1

/-- `AppSettings`. -/
structure AppSettings where
  allowBlindSign : UInt8
  pubkeyDisplay : UInt8
  displayMode : UInt8
deriving DecidableEq

/-- `internal_storage_t`, kept in non-volatile memory. -/
structure InternalStorage where
  settings : AppSettings
  initialized : UInt8
deriving DecidableEq

/-! ## Commands -/

/-- `command_t` as `apdu_parser` fills it: `lc` is the number of data bytes,
at most 255, and `data` is NULL exactly when `lc` is zero (here: `[]`). -/
structure Command where
  cla : UInt8
  ins : UInt8
  p1 : UInt8
  p2 : UInt8
  data : List UInt8
  lc_le : data.length ≤ 255 := by decide

/-! ## What can be observed -/

/-- The three kinds of review the app puts on screen. -/
inductive ReviewKind
  | address
  | clear
  | blind
deriving DecidableEq

/-- A review on screen: its kind and the titled values it shows, copied from
the display buffers up to their NUL. -/
structure Review where
  kind : ReviewKind
  pairs : List (String × List UInt8)
deriving DecidableEq

/-- The closing page of an NBGL review. -/
inductive StatusPage
  | addressVerified
  | addressRejected
  | transactionSigned
  | transactionRejected
deriving DecidableEq

/-- One observable action. -/
inductive Action
  /-- `io_send_response_pointer(rdata, .., sw)`; `io_send_sw` sends no data. -/
  | respond (rdata : List UInt8) (sw : StatusWord)
  /-- `buffer_move` of `size - offset` bytes to `raw_tx + at`. -/
  | append (pos size offset : Nat)
  /-- `derive_qubic_keypair` with the path stored in the context. -/
  | derive (path : FixedBuf UInt32 maxBip32Path) (len : UInt8)
  /-- `SchnorrQ_Sign(subseed, public_key, digest, ..)`. -/
  | sign (subseed publicKey digest : List UInt8)
  /-- A review replaces what was on screen. -/
  | review (r : Review)
  /-- `nbgl_useCaseReviewStatus`. -/
  | status (page : StatusPage)
  /-- `THROW`: the app ends. -/
  | throw (err : UInt32)
deriving DecidableEq

/-- `io_send_sw`. -/
def ioSendSw (sw : StatusWord) : Action := .respond [] sw

end QubicLedger
