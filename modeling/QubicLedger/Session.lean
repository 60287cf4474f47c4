import QubicLedger.Handlers
import QubicLedger.Lib.EventLog

/-!
# The running app (`app_main.c`, `ui/menu_*.c`, the review callbacks)

The main loop is a machine: it takes an APDU, a user's decision on the review
on screen or a change of a setting, in any order and number, and answers with
actions. Three facts of the platform are part of it.

* The loop returns to `io_recv_command` as soon as a handler has put a review
  on screen, and no code asks whether one is pending. So commands arrive, and
  are handled, while a review waits.
* A decision is only possible while a review is on screen, and the settings
  menu only while none is.
* `THROW` ends the app; nothing happens after it.

`Command.request` is the dispatcher's verdict as data: which of the two
handlers that touch the context a command reaches, and with what.
-/

namespace QubicLedger

open Lib (FixedBuf)

/-! ## Start-up -/

/-- The settings written when the storage was never initialised. -/
def InternalStorage.default : InternalStorage :=
  { settings :=
      { allowBlindSign := blindSignDisabled
        pubkeyDisplay := pubkeyDisplayShort
        displayMode := displayModeUser }
    initialized := 1 }

/-- `app_main` up to its loop, over what the non-volatile memory holds. -/
def appMain (persisted : InternalStorage) : App :=
  { ctx := .zero
    storage := if persisted.initialized ≠ 1 then .default else persisted
    screen := none
    exited := false }

/-! ## Settings -/

/-- The entries of the settings menus. -/
inductive Setting
  | blindSign
  | pubkeyDisplay
  | displayMode
deriving DecidableEq

/-- `settings_controls_callback`: a switch is on unless the setting is zero. -/
def flipSwitch (held : UInt8) : UInt8 := if held = 0 then 1 else 0

/-- The new value of a setting: NBGL flips its switch, BAGL stores the entry chosen. -/
def newSetting (build : Build) (held : UInt8) (on : Bool) : UInt8 :=
  match build with
  | .nbgl => flipSwitch held
  | .bagl => if on then 1 else 0

/-- One use of the settings menu; BAGL does not offer the public key length. -/
def changeSetting (build : Build) (held : AppSettings) (setting : Setting) (on : Bool) :
    AppSettings :=
  match setting with
  | .blindSign => { held with allowBlindSign := newSetting build held.allowBlindSign on }
  | .displayMode => { held with displayMode := newSetting build held.displayMode on }
  | .pubkeyDisplay =>
    match build with
    | .nbgl => { held with pubkeyDisplay := flipSwitch held.pubkeyDisplay }
    | .bagl => held

/-! ## Decisions -/

/-- The closing page of an NBGL review; BAGL returns to its menu. -/
def closingPage (build : Build) (page : StatusPage) : List Action :=
  match build with
  | .nbgl => [.status page]
  | .bagl => []

/-- `review_choice` and `ui_action_validate_*`: the callback of the review on screen. -/
def reviewChoice (dev : Device) (app : App) (kind : ReviewKind) (confirm : Bool) :
    App × List Action :=
  match kind with
  | .address =>
    let answer := validatePubkey app confirm
    (answer.1, answer.2
      ++ closingPage dev.build (if confirm then .addressVerified else .addressRejected))
  | _ =>
    let answer := validateTransaction dev app confirm
    if answer.1.exited then answer
    else
      (answer.1, answer.2
        ++ closingPage dev.build (if confirm then .transactionSigned else .transactionRejected))

/-! ## The machine -/

/-- What can happen to the app. -/
inductive Event
  /-- A command that `apdu_parser` accepts. -/
  | apdu (cmd : Command)
  /-- Bytes that `apdu_parser` refuses. -/
  | badApdu
  | decide (confirm : Bool)
  | setting (setting : Setting) (on : Bool)

/-- One event. -/
def step (dev : Device) (app : App) (e : Event) : App × List Action :=
  if app.exited then (app, [])
  else
    match e with
    | .apdu cmd => apduDispatcher dev app cmd
    | .badApdu => (app, [ioSendSw .wrongDataLength])
    | .decide confirm =>
      match app.screen with
      | none => (app, [])
      | some r => reviewChoice dev { app with screen := none } r.kind confirm
    | .setting setting on =>
      match app.screen with
      | some _ => (app, [])
      | none =>
        ({ app with storage := { app.storage with
            settings := changeSetting dev.build app.storage.settings setting on } }, [])

/-- The app as a machine. -/
def machine (dev : Device) : Lib.Machine App Event Action :=
  { start := fun app => ∃ persisted, app = appMain persisted
    step := step dev }

@[simp] theorem machine_step (dev : Device) (app : App) (e : Event) :
    (machine dev).step app e = step dev app e := rfl

abbrev Turn := Lib.Turn App Event Action
abbrev Log := List Turn

/-! ## Which commands reach the context -/

/-- A command as the two context handlers see it. -/
inductive Request
  /-- Answered without reaching either handler. -/
  | other
  | getPublicKey (display : Bool) (data : List UInt8)
  | signTx (chunk : UInt8) (more : Bool) (data : List UInt8)
deriving DecidableEq

/-- The dispatcher's verdict on a command. -/
def Command.request (cmd : Command) : Request :=
  if cmd.cla ≠ QubicLedger.cla then .other
  else if cmd.ins = insGetPublicKey then
    if cmd.p1 > 1 ∨ cmd.p2 > 0 ∨ cmd.data = [] then .other
    else .getPublicKey (cmd.p1 ≠ 0) cmd.data
  else if cmd.ins = insSignTx then
    if cmd.p1 > p1Max ∨ (cmd.p2 ≠ p2Last ∧ cmd.p2 ≠ p2More) ∨ cmd.data = [] then .other
    else .signTx cmd.p1 (cmd.p2 &&& p2More ≠ 0) cmd.data
  else .other

/-- What an event asks of the app in a given state. -/
def App.request (app : App) (e : Event) : Request :=
  if app.exited then .other
  else
    match e with
    | .apdu cmd => cmd.request
    | _ => .other

/-- What a turn's event asked of the app. -/
def request (t : Turn) : Request := t.pre.request t.event

/-! ## A device to run scenarios on

The key of `unit-tests/test_internal_key_to_seed.c`, the path and public key of
the tests and the signature of the example in `doc/APDUSPEC.md`. -/

/-- `m/44'/83293'/0'/0/0`. -/
def samplePath : List UInt32 := [0x8000002C, 0x8001455D, 0x80000000, 0, 0]

def samplePrivateKey : FixedBuf UInt8 32 :=
  ⟨[0x4F, 0xD5, 0x54, 0x70, 0x26, 0xD2, 0x4A, 0x12, 0x0A, 0x26, 0x8D, 0x24, 0x6E, 0x90, 0xDD, 0x23,
    0x56, 0x84, 0x59, 0xA1, 0x6B, 0xCF, 0xCB, 0x54, 0xFC, 0xEE, 0x86, 0xEB, 0xCD, 0x18, 0x34, 0xFA],
    rfl⟩

def samplePublicKey : FixedBuf UInt8 32 :=
  ⟨[0x9F, 0x8C, 0x8F, 0x91, 0x0A, 0xA2, 0xBB, 0x32, 0xAF, 0xFC, 0x3E, 0x6F, 0x07, 0x78, 0x49, 0x0C,
    0xD3, 0x72, 0x2F, 0x5D, 0x90, 0x99, 0x59, 0x90, 0x91, 0x57, 0x90, 0xC7, 0x19, 0x93, 0x85, 0x2C],
    rfl⟩

def sampleSignatureR : FixedBuf UInt8 32 :=
  ⟨[0xEE, 0x0C, 0x7C, 0xA4, 0x38, 0x19, 0x28, 0x8C, 0x31, 0x91, 0x90, 0x52, 0x80, 0x7E, 0xCF, 0x6E,
    0x42, 0x5D, 0xA2, 0x74, 0x00, 0xA0, 0xAB, 0xD6, 0xB3, 0xDF, 0x50, 0xCB, 0x4A, 0x2B, 0xA7, 0xE7],
    rfl⟩

def sampleSignatureS : FixedBuf UInt8 32 :=
  ⟨[0x7D, 0x33, 0x9A, 0xD8, 0x9B, 0x15, 0xC2, 0x45, 0x28, 0x4B, 0x4F, 0xA3, 0xA4, 0x3A, 0xD8, 0xE1,
    0x92, 0x25, 0x6A, 0xEB, 0x4D, 0x0C, 0x24, 0x4A, 0x4A, 0x3D, 0xAA, 0x99, 0xC9, 0x43, 0x06, 0x00],
    rfl⟩

/-- A transfer from the sample key to itself, with a given low byte of the amount. -/
def sampleTransfer (amount : UInt8) : List UInt8 :=
  samplePublicKey.cells ++ samplePublicKey.cells ++ [amount, 0, 0, 0, 0, 0, 0, 0]
    ++ [0x40, 0xE2, 0x01, 0] ++ [0, 0, 0, 0]

/-- The reference SDK with the sample key behind every path, and the curve at
the points the example needs: a 32-byte scalar is the sample key's. -/
def sampleDevice (build : Build) : Device :=
  { sdk := .reference fun _ _ => .ok samplePrivateKey
    fourQ :=
      { mulFixedEncode := fun k => if k.length = 32 then samplePublicKey else sampleSignatureR
        scalarS := fun _ _ _ => sampleSignatureS }
    build := build }

/-- Scenarios start with nothing in non-volatile memory. -/
theorem sample_run (build : Build) (events : List Event) :
    let out := (machine (sampleDevice build)).exec (appMain .default) [] events
    (machine (sampleDevice build)).Run out.1 out.2 := by
  intro out
  exact Lib.Machine.Run.exec events (.start (M := machine (sampleDevice build)) ⟨.default, rfl⟩)

end QubicLedger
