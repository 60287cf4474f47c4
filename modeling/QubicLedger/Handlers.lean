import QubicLedger.Parser
import QubicLedger.Keygen
import QubicLedger.Display.Review

/-!
# The command handlers

`handler/get_public_key.c`, `handler/sign_tx.c`, `ui/action/validate.c`,
`helper/send_reponse.c` and `apdu/dispatcher.c`, each as a function from the
app's state to the state it leaves and the actions it took, in order.

`G_context` is one global: every handler receives it as the last command or
callback left it. A review that is put on screen stays in `screen` until the
user decides or another review replaces it; no handler looks at it.

Both handlers that take a path read it with the same lines, which are one
definition here (`readPath`). `handler_sign_tx` is cut where the source's
early returns are: `signTxAppend` from the `bip32_path_len` check on,
`signTxFinish` from the parser call on.
-/

namespace QubicLedger

open Lib (FixedBuf)

/-- What the app is built with and runs on. -/
structure Device where
  sdk : Sdk
  fourQ : FourQ
  build : Build

/-- The whole state of the app. -/
structure App where
  ctx : GlobalCtx
  storage : InternalStorage
  screen : Option Review
  exited : Bool
deriving DecidableEq

/-- `explicit_bzero(&G_context, ..); G_context.req_type = ..; G_context.state = STATE_NONE`. -/
def GlobalCtx.reset (reqType : RequestType) : GlobalCtx :=
  { GlobalCtx.zero with reqType := reqType, state := .none }

/-- Put a review on screen, or report why not. -/
def App.show (app : App) : Except StatusWord Review → App × List Action
  | .ok r => ({ app with screen := some r }, [.review r])
  | .error sw => (app, [ioSendSw sw])

/-! ## The path prefix -/

/-- `buffer_read_u8`, `buffer_read_bip32_path` and the length check after them:
whether the handler goes on, the context and the buffer. -/
def readPath (sdk : Sdk) (ctx : GlobalCtx) (cdata : Buffer) : Bool × GlobalCtx × Buffer :=
  let len := sdk.bufferReadU8 cdata
  let ctx := { ctx with bip32PathLen := len.2.1 }
  if ¬len.1 then (false, ctx, len.2.2)
  else
    let path := sdk.bufferReadBip32Path len.2.2 ctx.bip32Path ctx.bip32PathLen.toNat
    let ctx := { ctx with bip32Path := path.2.1 }
    if ¬path.1 then (false, ctx, path.2.2)
    else
      let derivationPathLength := UInt8.ofNat (ctx.bip32PathLen.toNat * 4 + 1)
      (¬path.2.2.size < derivationPathLength.toNat, ctx, path.2.2)

/-! ## `get_public_key.c`, `send_reponse.c`, `display_address_*.c` -/

/-- `helper_send_response_pubkey`. -/
def helperSendResponsePubkey (app : App) : App × List Action :=
  (app, [.respond app.ctx.rawPublicKey .ok])

/-- `ui_display_address`. -/
def uiDisplayAddress (app : App) : App × List Action :=
  if app.ctx.reqType ≠ .confirmAddress ∨ app.ctx.state ≠ .none then
    ({ app with ctx := { app.ctx with state := .none } }, [ioSendSw .badState])
  else app.show (.ok (addressReview app.ctx.rawPublicKey))

/-- `handler_get_public_key`. -/
def handlerGetPublicKey (dev : Device) (app : App) (cdata : Buffer) (display : Bool) :
    App × List Action :=
  let path := readPath dev.sdk (.reset .confirmAddress) cdata
  let ctx := path.2.1
  if ¬path.1 then ({ app with ctx := ctx }, [ioSendSw .wrongDataLength])
  else
    let derived := Action.derive ctx.bip32Path ctx.bip32PathLen
    match deriveQubicKeypair dev.sdk dev.fourQ ctx.bip32Path ctx.bip32PathLen with
    | .error err => ({ app with ctx := ctx, exited := true }, [derived, .throw err])
    | .ok keypair =>
      let app := { app with ctx := ctx.setRawPublicKey keypair.publicKey }
      let answer := if display then uiDisplayAddress app else helperSendResponsePubkey app
      (answer.1, derived :: answer.2)

/-! ## `sign_tx.c` -/

/-- The end of `handler_sign_tx`: parse, hash, show or refuse. -/
def signTxFinish (dev : Device) (app : App) : App × List Action :=
  let parsed := deserializeTransaction app.ctx.txInfo.transactionQubic app.ctx.received
  let digest := kangarooTwelve app.ctx.received transactionDigestLen
  let ctx := { app.ctx with txInfo := { app.ctx.txInfo with
    transactionQubic := parsed.2
    mHash := app.ctx.txInfo.mHash.write 0 digest } }
  if parsed.1 ≠ .parsingOk then
    if app.storage.settings.allowBlindSign = blindSignEnabled then
      App.show { app with ctx := ctx }
        (uiDisplayBlindSignedTransaction dev.build dev.sdk app.storage.settings parsed.2)
    else ({ app with ctx := ctx }, [ioSendSw .txParsingFail])
  else
    App.show { app with ctx := { ctx with state := .parsed } }
      (uiDisplayTransaction dev.build dev.sdk app.storage.settings parsed.2)

/-- The middle of `handler_sign_tx`: check, append, and finish on the last chunk. -/
def signTxAppend (dev : Device) (app : App) (cdata : Buffer) (more : Bool) : App × List Action :=
  let tx := app.ctx.txInfo
  if app.ctx.bip32PathLen = 0 then (app, [ioSendSw .wrongBip32PathLength])
  else if addSizeT tx.rawTxLen cdata.size > maxTransactionLen then
    (app, [ioSendSw .wrongTxLength])
  else
    let remaining := subSizeT cdata.size cdata.offset
    let moved := dev.sdk.bufferMove cdata remaining
    let append := Action.append tx.rawTxLen cdata.size cdata.offset
    let tx := { tx with rawTx := tx.rawTx.write tx.rawTxLen moved.2.1 }
    if ¬moved.1 then
      ({ app with ctx := { app.ctx with txInfo := tx } }, [append, ioSendSw .txParsingFail])
    else
      let tx := { tx with rawTxLen := addSizeT tx.rawTxLen remaining }
      let app := { app with ctx := { app.ctx with txInfo := tx } }
      if more then (app, [append, ioSendSw .ok])
      else
        let answer := signTxFinish dev app
        (answer.1, append :: answer.2)

/-- `handler_sign_tx`. -/
def handlerSignTx (dev : Device) (app : App) (cdata : Buffer) (chunk : UInt8) (more : Bool) :
    App × List Action :=
  if chunk = 0 then
    let path := readPath dev.sdk (.reset .confirmTransaction) cdata
    if ¬path.1 then ({ app with ctx := path.2.1 }, [ioSendSw .wrongDataLength])
    else signTxAppend dev { app with ctx := path.2.1 } path.2.2 more
  else signTxAppend dev app cdata more

/-! ## `validate.c` -/

/-- `helper_send_response_sig`. -/
def helperSendResponseSig (app : App) : App × List Action :=
  let tx := app.ctx.txInfo
  (app, [.respond (tx.signatureLen :: tx.signature.cells.take tx.signatureLen.toNat) .ok])

/-- How `crypto_sign_message` ends. -/
inductive SignResult
  | signed
  | failed
  | threw (err : UInt32)
deriving DecidableEq

/-- `crypto_sign_message`: how it ends, the context, and the calls it makes. -/
def cryptoSignMessage (dev : Device) (settings : AppSettings) (ctx : GlobalCtx) :
    SignResult × GlobalCtx × List Action :=
  let derived := Action.derive ctx.bip32Path ctx.bip32PathLen
  match deriveQubicKeypair dev.sdk dev.fourQ ctx.bip32Path ctx.bip32PathLen with
  | .error err => (.threw err, ctx, [derived, .throw err])
  | .ok keypair =>
    if settings.allowBlindSign ≠ blindSignEnabled ∧
        keypair.publicKey ≠ ctx.txInfo.transactionQubic.sourcePublicKey then
      (.failed, ctx, [derived])
    else
      let sign := Action.sign keypair.subseed.cells keypair.publicKey.cells ctx.txInfo.mHash.cells
      match schnorrQSign dev.fourQ keypair.subseed.cells keypair.publicKey.cells
          ctx.txInfo.mHash.cells with
      | none => (.failed, ctx, [derived, sign])
      | some signature =>
        (.signed, { ctx with txInfo := { ctx.txInfo with
          signature := signature
          signatureLen := UInt8.ofNat maxDerSigLen } }, [derived, sign])

/-- `validate_pubkey`. -/
def validatePubkey (app : App) (choice : Bool) : App × List Action :=
  if choice then helperSendResponsePubkey app else (app, [ioSendSw .deny])

/-- `validate_transaction`. -/
def validateTransaction (dev : Device) (app : App) (choice : Bool) : App × List Action :=
  if choice then
    let r := cryptoSignMessage dev app.storage.settings { app.ctx with state := .approved }
    match r.1 with
    | .threw _ => ({ app with ctx := r.2.1, exited := true }, r.2.2)
    | .failed =>
      ({ app with ctx := { r.2.1 with state := .none } }, r.2.2 ++ [ioSendSw .signatureFail])
    | .signed =>
      let answer := helperSendResponseSig { app with ctx := r.2.1 }
      (answer.1, r.2.2 ++ answer.2)
  else ({ app with ctx := { app.ctx with state := .none } }, [ioSendSw .deny])

/-! ## `dispatcher.c` -/

/-- `APPVERSION` and `APPNAME` of the Makefile. -/
def appVersion : List UInt8 := [0, 1, 5]
def appName : List UInt8 := asciiText "Qubic"

/-- `handler_get_version`, `handler_get_app_name`. -/
def handlerGetVersion (app : App) : App × List Action := (app, [.respond appVersion .ok])
def handlerGetAppName (app : App) : App × List Action := (app, [.respond appName .ok])

/-- `apdu_dispatcher`. -/
def apduDispatcher (dev : Device) (app : App) (cmd : Command) : App × List Action :=
  if cmd.cla ≠ cla then (app, [ioSendSw .claNotSupported])
  else if cmd.ins = insGetVersion then
    if cmd.p1 ≠ 0 ∨ cmd.p2 ≠ 0 then (app, [ioSendSw .wrongP1P2]) else handlerGetVersion app
  else if cmd.ins = insGetAppName then
    if cmd.p1 ≠ 0 ∨ cmd.p2 ≠ 0 then (app, [ioSendSw .wrongP1P2]) else handlerGetAppName app
  else if cmd.ins = insGetPublicKey then
    if cmd.p1 > 1 ∨ cmd.p2 > 0 then (app, [ioSendSw .wrongP1P2])
    else if cmd.data = [] then (app, [ioSendSw .wrongDataLength])
    else handlerGetPublicKey dev app (.ofData cmd.data) (cmd.p1 ≠ 0)
  else if cmd.ins = insSignTx then
    if cmd.p1 > p1Max ∨ (cmd.p2 ≠ p2Last ∧ cmd.p2 ≠ p2More) then (app, [ioSendSw .wrongP1P2])
    else if cmd.data = [] then (app, [ioSendSw .wrongDataLength])
    else handlerSignTx dev app (.ofData cmd.data) cmd.p1 (cmd.p2 &&& p2More ≠ 0)
  else (app, [ioSendSw .insNotSupported])

end QubicLedger
