import QubicLedger.Session
import QubicLedger.Lib.Refinement

/-!
# The settings menus (`ui/menu_nbgl.c`, `ui/menu_bagl.c`)

The two builds keep the settings in the same storage and change them in two
ways. The NBGL home page has three switches, whose state `ui_menu_main` copies
from the storage; a touch flips the copy and stores it. The BAGL menus are
lists of entries, one list for each of two settings, and choosing an entry
stores it.

Both are machines here, and `changeSetting` is the abstract account of what a
use of a menu does to the settings. The BAGL menus refine it
(`bagl_refines`). The switches do as long as they show what is stored, and that
is not so from the start: `app_main` calls `ui_menu_main` before it initialises
the storage. `nbgl_mirrors_iff` says in which states of which runs a switch is
right, and `nbgl_refines` what the touches of a run come to.
-/

namespace QubicLedger

/-! ## The settings by name -/

namespace AppSettings

/-- The value of a setting. -/
def held (settings : AppSettings) : Setting → UInt8
  | .blindSign => settings.allowBlindSign
  | .pubkeyDisplay => settings.pubkeyDisplay
  | .displayMode => settings.displayMode

/-- `nvm_write` of one setting. -/
def store (settings : AppSettings) (setting : Setting) (value : UInt8) : AppSettings :=
  match setting with
  | .blindSign => { settings with allowBlindSign := value }
  | .pubkeyDisplay => { settings with pubkeyDisplay := value }
  | .displayMode => { settings with displayMode := value }

@[simp] theorem held_store (settings : AppSettings) (x y : Setting) (value : UInt8) :
    (settings.store x value).held y = if y = x then value else settings.held y := by
  cases x <;> cases y <;> rfl

end AppSettings

/-- The value with which a switch is off. -/
def offValue : Setting → UInt8
  | .blindSign => blindSignDisabled
  | .pubkeyDisplay => pubkeyDisplayLong
  | .displayMode => displayModeUser

@[simp] theorem offValue_eq (x : Setting) : offValue x = 0 := by cases x <;> rfl

/-- One use of a menu, as `changeSetting` has it. -/
structure MenuUse where
  setting : Setting
  on : Bool
deriving DecidableEq

/-- A use of the menu of a build. -/
def useMenu (build : Build) (settings : AppSettings) (use : MenuUse) : AppSettings :=
  changeSetting build settings use.setting use.on

/-! ## The switches (NBGL) -/

/-- The storage and the `initState` of `G_switches`: whether it is `ON_STATE`. -/
structure NbglMenu where
  storage : InternalStorage
  switches : Setting → Bool

/-- `new_setting`: `OFF_STATE` is 0 and `ON_STATE` is 1. -/
def switchByte (on : Bool) : UInt8 := if on then 1 else 0

/-- The `initState` that `ui_menu_main` gives each switch. -/
def switchesOf (settings : AppSettings) (x : Setting) : Bool := settings.held x ≠ offValue x

/-- `ui_menu_main`. -/
def NbglMenu.uiMenuMain (m : NbglMenu) : NbglMenu :=
  { m with switches := switchesOf m.storage.settings }

/-- `settings_controls_callback`. -/
def NbglMenu.settingsControlsCallback (m : NbglMenu) (x : Setting) : NbglMenu :=
  let new := !m.switches x
  { switches := fun y => if y = x then new else m.switches y
    storage := { m.storage with settings := m.storage.settings.store x (switchByte new) } }

/-- `app_main` up to its loop: the home page first, then the storage. -/
def NbglMenu.appMain (persisted : InternalStorage) : NbglMenu :=
  { switches := switchesOf persisted.settings
    storage := (QubicLedger.appMain persisted).storage }

/-- What can happen to the home page. -/
inductive NbglEvent
  /-- The app goes back to its home page, as after every review. -/
  | home
  | touch (x : Setting)
deriving DecidableEq

/-- The home page as a machine; what it writes is in its state. -/
def nbglMachine : Lib.Machine NbglMenu NbglEvent Empty where
  start m := ∃ persisted, m = .appMain persisted
  step m
    | .home => (m.uiMenuMain, [])
    | .touch x => (m.settingsControlsCallback x, [])

/-- A switch shows what is stored. -/
def NbglMenu.Mirrors (m : NbglMenu) (x : Setting) : Prop :=
  m.switches x = switchesOf m.storage.settings x

instance (m : NbglMenu) (x : Setting) : Decidable (m.Mirrors x) :=
  inferInstanceAs (Decidable (_ = _))

/-- An event after which a switch is right. -/
def NbglEvent.corrects (e : NbglEvent) (x : Setting) : Bool := e = .home || e = .touch x

/-! ### When a switch is right -/

/-- A touch leaves the switch that was touched right, and the others as they were. -/
theorem NbglMenu.mirrors_touch (m : NbglMenu) (x y : Setting) :
    (m.settingsControlsCallback x).Mirrors y ↔ y = x ∨ m.Mirrors y := by
  unfold Mirrors settingsControlsCallback switchesOf
  dsimp only
  rw [AppSettings.held_store, offValue_eq]
  by_cases h : y = x
  · rw [if_pos h, if_pos h]
    refine iff_of_true ?_ (Or.inl h)
    cases m.switches x <;> rfl
  · rw [if_neg h, if_neg h, or_iff_right h]

theorem NbglMenu.mirrors_step (m : NbglMenu) (e : NbglEvent) (x : Setting) :
    (nbglMachine.step m e).1.Mirrors x ↔ e.corrects x = true ∨ m.Mirrors x := by
  cases e with
  | home => exact iff_of_true rfl (Or.inl rfl)
  | touch y =>
    refine (m.mirrors_touch y x).trans (or_congr_left ?_)
    simp [NbglEvent.corrects, eq_comm]

variable {m : NbglMenu} {log : List (Lib.Turn NbglMenu NbglEvent Empty)}

/-- In every run: a switch is right if and only if it was right at the start,
or the home page came back, or the switch was touched. -/
theorem nbgl_mirrors_iff (hrun : nbglMachine.Run m log) (x : Setting) :
    m.Mirrors x ↔ (Lib.Machine.origin m log).Mirrors x ∨ ∃ t ∈ log, t.event.corrects x = true := by
  induction hrun with
  | start => simp [Lib.Machine.origin]
  | @step m log e hrun ih =>
    have hevent : (nbglMachine.turn m e).event = e := rfl
    have horigin : Lib.Machine.origin (nbglMachine.step m e).1 (nbglMachine.turn m e :: log)
        = Lib.Machine.origin m log := rfl
    rw [m.mirrors_step e x, ih, horigin, List.exists_mem_cons_iff, hevent, or_left_comm]

/-- The storage of a new device. -/
def newStorage : InternalStorage := ⟨⟨0, 0, 0⟩, 0⟩

/-- Runs of the home page, from any storage. -/
theorem nbgl_run (persisted : InternalStorage) (events : List NbglEvent) :
    let out := nbglMachine.exec (.appMain persisted) [] events
    nbglMachine.Run out.1 out.2 := by
  intro out
  exact Lib.Machine.Run.exec events (.start (M := nbglMachine) ⟨persisted, rfl⟩)

/-- On a new device, a touch of the blind signing switch leaves that of the public
key length wrong. -/
theorem nbgl_mirrors_iff_new :
    let out := nbglMachine.exec (.appMain newStorage) [] [.touch .blindSign]
    ¬out.1.Mirrors .pubkeyDisplay := by
  intro out hmirrors
  rcases (nbgl_mirrors_iff (nbgl_run newStorage [.touch .blindSign]) _).mp hmirrors with
    hstart | ⟨t, ht, hcorrects⟩
  · exact absurd hstart (by decide)
  · -- the one event of the run is of another switch
    rw [List.mem_singleton.mp ht] at hcorrects
    exact absurd hcorrects (by decide)

/-- The public key length switch of a new device is off although the setting is on. -/
example (x : Setting) : (NbglMenu.appMain newStorage).Mirrors x ↔ x ≠ .pubkeyDisplay := by
  cases x <;> decide

/-- The home page of an app that was started before shows what is stored. -/
theorem mirrors_appMain {persisted : InternalStorage} (h : persisted.initialized = 1)
    (x : Setting) : (NbglMenu.appMain persisted).Mirrors x := by
  have hkept : (appMain persisted).storage = persisted := if_neg (not_not.mpr h)
  show switchesOf persisted.settings x = switchesOf (appMain persisted).storage.settings x
  rw [hkept]

/-! ### What touches do -/

/-- The uses of the menu that an event comes to: a touch of a switch that is
wrong only sets the switch right. -/
def nbglUses (m : NbglMenu) : NbglEvent → List MenuUse
  | .home => []
  | .touch x => if m.Mirrors x then [⟨x, m.switches x⟩] else []

/-- A setting whose switch is wrong has its initial value. -/
theorem held_of_not_mirrors (hrun : nbglMachine.Run m log) {x : Setting} (h : ¬m.Mirrors x) :
    m.storage.settings.held x = InternalStorage.default.settings.held x := by
  induction hrun with
  | start hstart =>
    obtain ⟨persisted, rfl⟩ := hstart
    have huninit : persisted.initialized ≠ 1 := fun hinit => h (mirrors_appMain hinit x)
    show (appMain persisted).storage.settings.held x = _
    rw [appMain, if_pos huninit]
  | @step m log e hrun ih =>
    rw [m.mirrors_step e x, not_or] at h
    obtain ⟨hcorrects, hwrong⟩ := h
    cases e with
    | home => exact ih hwrong
    | touch y =>
      -- another switch was touched
      have hother : x ≠ y := by
        rintro rfl
        exact hcorrects (by simp [NbglEvent.corrects])
      rw [← ih hwrong]
      exact (AppSettings.held_store ..).trans (if_neg hother)

theorem AppSettings.store_held (settings : AppSettings) (x : Setting) :
    settings.store x (settings.held x) = settings := by cases x <;> rfl

/-- A use of the NBGL menu flips the setting. -/
theorem useMenu_nbgl (settings : AppSettings) (x : Setting) (on : Bool) :
    useMenu .nbgl settings ⟨x, on⟩ = settings.store x (flipSwitch (settings.held x)) := by
  cases x <;> rfl

/-- The value that a touch stores. -/
theorem switchByte_touch {m : NbglMenu} (hrun : nbglMachine.Run m log) (x : Setting) :
    switchByte (!m.switches x)
      = if m.Mirrors x then flipSwitch (m.storage.settings.held x) else m.storage.settings.held x := by
  by_cases h : m.Mirrors x
  · rw [if_pos h, h, switchesOf, offValue_eq, flipSwitch]
    by_cases hzero : m.storage.settings.held x = 0
    · simp [hzero, switchByte]
    · simp [hzero, switchByte]
  · rw [if_neg h, held_of_not_mirrors hrun h]
    have hwrong : m.switches x = !switchesOf m.storage.settings x := Bool.eq_not.mpr h
    rw [hwrong, switchesOf, held_of_not_mirrors hrun h]
    cases x <;> rfl

/-- In every run the settings are what the uses that the touches come to have
made of the initial ones. -/
theorem nbgl_refines (hrun : nbglMachine.Run m log) :
    m.storage.settings
      = (Lib.Machine.abstractEvents nbglUses log).foldl (useMenu .nbgl)
        (Lib.Machine.origin m log).storage.settings := by
  refine Lib.Machine.Run.refines (fun m => m.storage.settings) ?_ hrun
  intro m log e hrun
  cases e with
  | home => rfl
  | touch x =>
    show m.storage.settings.store x (switchByte (!m.switches x)) = _
    rw [switchByte_touch hrun x, nbglUses]
    by_cases h : m.Mirrors x
    · rw [if_pos h, if_pos h, List.foldl_cons, List.foldl_nil, useMenu_nbgl]
    · rw [if_neg h, if_neg h, AppSettings.store_held]
      rfl

/-- On a new device the first touch of the public key length switch is lost. -/
theorem nbgl_refines_new :
    let out := nbglMachine.exec (.appMain newStorage) [] [.touch .pubkeyDisplay]
    out.1.storage.settings = InternalStorage.default.settings :=
  nbgl_refines (nbgl_run newStorage [.touch .pubkeyDisplay])

/-! ## The lists (BAGL) -/

/-- What is on screen: the idle flow, or a list with one of its entries selected. -/
inductive BaglScreen
  | idle
  | settingsSubmenu (selected : Nat)
  | allowBlindSign (selected : Nat)
  | displayMode (selected : Nat)
deriving DecidableEq

structure BaglMenu where
  storage : InternalStorage
  screen : BaglScreen
deriving DecidableEq

/-- `settings_submenu_getter`, `allow_blind_sign_data_getter`, `display_mode_data_getter`. -/
def settingsSubmenuGetter (idx : Nat) : Option String :=
  ["Allow blind sign", "Display mode", "Back"][idx]?
def allowBlindSignDataGetter (idx : Nat) : Option String := ["No", "Yes", "Back"][idx]?
def displayModeDataGetter (idx : Nat) : Option String := ["User", "Expert", "Back"][idx]?

/-- The text of the selected entry; the idle flow has none to select. -/
def BaglScreen.entry : BaglScreen → Option String
  | .idle => some ""
  | .settingsSubmenu selected => settingsSubmenuGetter selected
  | .allowBlindSign selected => allowBlindSignDataGetter selected
  | .displayMode selected => displayModeDataGetter selected

namespace BaglMenu

/-- `settings_submenu_selector`. -/
def settingsSubmenuSelector (m : BaglMenu) (idx : Nat) : BaglMenu :=
  match idx with
  | 0 => { m with screen := .allowBlindSign m.storage.settings.allowBlindSign.toNat }
  | 1 => { m with screen := .displayMode m.storage.settings.displayMode.toNat }
  | _ => { m with screen := .idle }

/-- The selectors of the two settings: store the value of the entry, if it has
one, and go back to the list of settings. -/
def dataSelector (setting : Setting) (values : List UInt8) (item : Nat) (m : BaglMenu) (idx : Nat) :
    BaglMenu :=
  { screen := .settingsSubmenu item
    storage :=
      match values[idx]? with
      | some value => { m.storage with settings := m.storage.settings.store setting value }
      | none => m.storage }

/-- `allow_blind_sign_data_selector`. -/
def allowBlindSignDataSelector : BaglMenu → Nat → BaglMenu :=
  dataSelector .blindSign [blindSignDisabled, blindSignEnabled] 0

/-- `display_mode_data_selector`. -/
def displayModeDataSelector : BaglMenu → Nat → BaglMenu :=
  dataSelector .displayMode [displayModeUser, displayModeExpert] 1

/-- `app_main` up to its loop. -/
def appMain (persisted : InternalStorage) : BaglMenu :=
  { storage := (QubicLedger.appMain persisted).storage, screen := .idle }

end BaglMenu

/-- What the buttons can do. -/
inductive BaglEvent
  /-- Both buttons at "Settings" in the idle flow. -/
  | openSettings
  /-- Move to an entry of the list; there is none where the getter returns NULL. -/
  | select (idx : Nat)
  /-- Both buttons at the selected entry. -/
  | press
deriving DecidableEq

def baglStep (m : BaglMenu) (e : BaglEvent) : BaglMenu :=
  match e, m.screen with
  | .openSettings, .idle => { m with screen := .settingsSubmenu 0 }
  | .select idx, .settingsSubmenu _ =>
    if (settingsSubmenuGetter idx).isSome then { m with screen := .settingsSubmenu idx } else m
  | .select idx, .allowBlindSign _ =>
    if (allowBlindSignDataGetter idx).isSome then { m with screen := .allowBlindSign idx } else m
  | .select idx, .displayMode _ =>
    if (displayModeDataGetter idx).isSome then { m with screen := .displayMode idx } else m
  | .press, .settingsSubmenu selected => m.settingsSubmenuSelector selected
  | .press, .allowBlindSign selected => m.allowBlindSignDataSelector selected
  | .press, .displayMode selected => m.displayModeDataSelector selected
  | _, _ => m

/-- The menus as a machine; what they write is in their state. -/
def baglMachine : Lib.Machine BaglMenu BaglEvent Empty where
  start m := ∃ persisted, m = .appMain persisted
  step m e := (baglStep m e, [])

/-- The uses of the menu that an event comes to: pressing an entry with a value. -/
def baglUses (m : BaglMenu) : BaglEvent → List MenuUse
  | .press =>
    match m.screen with
    | .allowBlindSign 0 => [⟨.blindSign, false⟩]
    | .allowBlindSign 1 => [⟨.blindSign, true⟩]
    | .displayMode 0 => [⟨.displayMode, false⟩]
    | .displayMode 1 => [⟨.displayMode, true⟩]
    | _ => []
  | _ => []

theorem baglStep_settings (m : BaglMenu) (e : BaglEvent) :
    (baglStep m e).storage.settings
      = (baglUses m e).foldl (useMenu .bagl) m.storage.settings := by
  obtain ⟨storage, screen⟩ := m
  cases e with
  | openSettings => cases screen <;> rfl
  | select idx =>
    -- moving writes nothing, whether the entry exists or not
    cases screen with
    | idle => rfl
    | settingsSubmenu _ | allowBlindSign _ | displayMode _ =>
      simp only [baglStep]
      split <;> rfl
  | press =>
    cases screen with
    | idle => rfl
    | settingsSubmenu selected =>
      match selected with
      | 0 | 1 | _ + 2 => rfl
    | allowBlindSign selected | displayMode selected =>
      match selected with
      | 0 | 1 | _ + 2 => rfl

/-- Runs of the menus, from any storage. -/
theorem bagl_run (persisted : InternalStorage) (events : List BaglEvent) :
    let out := baglMachine.exec (.appMain persisted) [] events
    baglMachine.Run out.1 out.2 := by
  intro out
  exact Lib.Machine.Run.exec events (.start (M := baglMachine) ⟨persisted, rfl⟩)

variable {b : BaglMenu} {blog : List (Lib.Turn BaglMenu BaglEvent Empty)}

/-- In every run the settings are what the entries that were pressed have made
of the initial ones. -/
theorem bagl_refines (hrun : baglMachine.Run b blog) :
    b.storage.settings
      = (Lib.Machine.abstractEvents baglUses blog).foldl (useMenu .bagl)
        (Lib.Machine.origin b blog).storage.settings :=
  Lib.Machine.Run.refines (fun m => m.storage.settings)
    (fun m _ e _ => baglStep_settings m e) hrun

/-- Blind signing is switched on. -/
def enableEvents : List BaglEvent := [.openSettings, .press, .select 1, .press]

theorem bagl_refines_enable :
    let out := baglMachine.exec (.appMain newStorage) [] enableEvents
    out.1.storage.settings = { InternalStorage.default.settings with allowBlindSign := 1 } :=
  bagl_refines (bagl_run newStorage enableEvents)

/-- Both settings of the BAGL menus have one of their two values. -/
structure TwoValued (settings : AppSettings) : Prop where
  blindSign : settings.allowBlindSign = 0 ∨ settings.allowBlindSign = 1
  displayMode : settings.displayMode = 0 ∨ settings.displayMode = 1

/-- The lists never point behind their last entry. -/
structure BaglMenu.Sound (m : BaglMenu) : Prop where
  settings : TwoValued m.storage.settings
  entry : m.screen.entry.isSome = true

theorem TwoValued.of_use {settings : AppSettings} (h : TwoValued settings) (use : MenuUse) :
    TwoValued (useMenu .bagl settings use) := by
  obtain ⟨hblind, hmode⟩ := h
  obtain ⟨x, on⟩ := use
  have hbyte : newSetting .bagl 0 on = 0 ∨ newSetting .bagl 0 on = 1 := by
    cases on
    · exact Or.inl rfl
    · exact Or.inr rfl
  cases x with
  | blindSign => exact ⟨hbyte, hmode⟩
  | pubkeyDisplay => exact ⟨hblind, hmode⟩
  | displayMode => exact ⟨hblind, hbyte⟩

theorem TwoValued.of_uses {settings : AppSettings} (h : TwoValued settings) (uses : List MenuUse) :
    TwoValued (uses.foldl (useMenu .bagl) settings) := by
  induction uses generalizing settings with
  | nil => exact h
  | cons use uses ih => exact ih (h.of_use use)

theorem BaglMenu.Sound.step {m : BaglMenu} (h : m.Sound) (e : BaglEvent) : (baglStep m e).Sound := by
  have hsettings : TwoValued (baglStep m e).storage.settings := by
    rw [baglStep_settings]
    exact h.settings.of_uses _
  refine ⟨hsettings, ?_⟩
  have hentry := h.entry
  obtain ⟨storage, screen⟩ := m
  cases e with
  | openSettings =>
    cases screen with
    | idle => rfl
    | settingsSubmenu _ | allowBlindSign _ | displayMode _ => exact hentry
  | select idx =>
    cases screen with
    | idle => rfl
    | settingsSubmenu _ | allowBlindSign _ | displayMode _ =>
      simp only [baglStep]
      split
      next hsome => exact hsome
      next => exact hentry
  | press =>
    cases screen with
    | idle => rfl
    | settingsSubmenu selected =>
      match selected with
      | 0 =>
        show (allowBlindSignDataGetter storage.settings.allowBlindSign.toNat).isSome = true
        rcases h.settings.blindSign with hv | hv <;> rw [hv] <;> rfl
      | 1 =>
        show (displayModeDataGetter storage.settings.displayMode.toNat).isSome = true
        rcases h.settings.displayMode with hv | hv <;> rw [hv] <;> rfl
      | _ + 2 => rfl
    | allowBlindSign selected | displayMode selected => rfl

/-- In every run from stored values of 0 and 1 the selected entry exists, and
each list opens at the entry that stands for the stored value. -/
theorem bagl_entries (hrun : baglMachine.Run b blog)
    (hstart : TwoValued (Lib.Machine.origin b blog).storage.settings) :
    b.screen.entry.isSome = true ∧
    (b.screen = .settingsSubmenu 0 → (baglStep b .press).screen.entry
      = some (if b.storage.settings.allowBlindSign = blindSignEnabled then "Yes" else "No")) ∧
    (b.screen = .settingsSubmenu 1 → (baglStep b .press).screen.entry
      = some (if b.storage.settings.displayMode = displayModeExpert then "Expert" else "User")) := by
  have hsound : b.Sound := by
    induction hrun with
    | start h =>
      obtain ⟨persisted, rfl⟩ := h
      exact ⟨hstart, rfl⟩
    | step e hrun ih => exact (ih hstart).step e
  have hpress : ∀ {n}, b.screen = .settingsSubmenu n → baglStep b .press = b.settingsSubmenuSelector n := by
    intro n hscreen
    unfold baglStep
    rw [hscreen]
  refine ⟨hsound.entry, fun hscreen => ?_, fun hscreen => ?_⟩
  · rw [hpress hscreen]
    show allowBlindSignDataGetter b.storage.settings.allowBlindSign.toNat = _
    rcases hsound.settings.blindSign with h | h <;> rw [h] <;> rfl
  · rw [hpress hscreen]
    show displayModeDataGetter b.storage.settings.displayMode.toNat = _
    rcases hsound.settings.displayMode with h | h <;> rw [h] <;> rfl

theorem bagl_entries_enable :
    let out := baglMachine.exec (.appMain newStorage) [] enableEvents
    (baglStep out.1 .press).screen.entry = some "Yes" :=
  (bagl_entries (bagl_run newStorage enableEvents) ⟨Or.inl rfl, Or.inl rfl⟩).2.1 rfl

end QubicLedger
