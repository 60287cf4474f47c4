/-!
# Event-driven machines and the logs of their runs

A machine answers each event with a new state and a list of observable
actions. A run is recorded turn by turn, newest turn first, so a statement
about "what has happened so far" is a recursion on the log and a proof about
every run is one induction.

* `Run M s log`: `log` is a complete record of a run of `M` that ends in `s`.
* `Run.invariant`: what holds at the start and survives one step holds of
  every state a run reaches, together with its log.
* `Throughout C log`: every turn meets `C`, which may look at the turn and at
  everything before it. `Run.invariant_of` is the invariant rule for runs all
  of whose turns meet a condition; `Run.throughout`, `Run.throughout_of` and
  `Run.throughout_congr` turn a fact about one turn taken from a reachable
  state into a fact about every turn of every run, which `Throughout.of_split`
  reads off again.
* `exec`: the executable run from a given state, for concrete scenarios
  (`Run.exec`).
-/

namespace Lib

variable {S E A : Type}

/-- A machine: its start states and its reaction to one event. -/
structure Machine (S E A : Type) where
  start : S → Prop
  step : S → E → S × List A

/-- What one step of a run looked like. -/
structure Turn (S E A : Type) where
  pre : S
  event : E
  actions : List A
  post : S

namespace Machine

variable {M : Machine S E A}

/-- The turn `M` takes from `s` on event `e`. -/
def turn (M : Machine S E A) (s : S) (e : E) : Turn S E A :=
  ⟨s, e, (M.step s e).2, (M.step s e).1⟩

@[simp] theorem turn_pre (s : S) (e : E) : (M.turn s e).pre = s := rfl
@[simp] theorem turn_event (s : S) (e : E) : (M.turn s e).event = e := rfl
@[simp] theorem turn_actions (s : S) (e : E) : (M.turn s e).actions = (M.step s e).2 := rfl
@[simp] theorem turn_post (s : S) (e : E) : (M.turn s e).post = (M.step s e).1 := rfl

/-- A run ending in `s`, recorded newest turn first. -/
inductive Run (M : Machine S E A) : S → List (Turn S E A) → Prop
  | start {s : S} (h : M.start s) : Run M s []
  | step {s : S} {log : List (Turn S E A)} (e : E) (h : Run M s log) :
      Run M (M.step s e).1 (M.turn s e :: log)

/-- Every turn of the log meets `C`, given the part of the log before it. -/
def Throughout (C : Turn S E A → List (Turn S E A) → Prop) : List (Turn S E A) → Prop
  | [] => True
  | t :: log => C t log ∧ Throughout C log

/-! ## The induction rules -/

/-- The invariant rule for runs whose turns all meet `C`. -/
theorem Run.invariant_of {C : Turn S E A → List (Turn S E A) → Prop}
    {P : S → List (Turn S E A) → Prop} (hstart : ∀ s, M.start s → P s [])
    (hstep : ∀ s log e, Run M s log → C (M.turn s e) log → P s log →
      P (M.step s e).1 (M.turn s e :: log))
    {s : S} {log : List (Turn S E A)} (hrun : Run M s log) (hC : Throughout C log) :
    P s log := by
  induction hrun with
  | start h => exact hstart _ h
  | step e hrun ih => exact hstep _ _ e hrun hC.1 (ih hC.2)

/-- The invariant rule for all runs. -/
theorem Run.invariant {P : S → List (Turn S E A) → Prop} (hstart : ∀ s, M.start s → P s [])
    (hstep : ∀ s log e, Run M s log → P s log → P (M.step s e).1 (M.turn s e :: log))
    {s : S} {log : List (Turn S E A)} (hrun : Run M s log) : P s log := by
  induction hrun with
  | start h => exact hstart _ h
  | step e hrun ih => exact hstep _ _ e hrun ih

/-- A fact about one turn from a reachable state is a fact about every turn of a run. -/
theorem Run.throughout {C : Turn S E A → List (Turn S E A) → Prop}
    (h : ∀ s log e, Run M s log → C (M.turn s e) log)
    {s : S} {log : List (Turn S E A)} (hrun : Run M s log) : Throughout C log := by
  induction hrun with
  | start => trivial
  | step e hrun ih => exact ⟨h _ _ e hrun, ih⟩

/-- The same for runs whose turns all meet a condition. -/
theorem Run.throughout_of {C D : Turn S E A → List (Turn S E A) → Prop}
    (h : ∀ s log e, Run M s log → Throughout C log → C (M.turn s e) log → D (M.turn s e) log)
    {s : S} {log : List (Turn S E A)} (hrun : Run M s log) (hC : Throughout C log) :
    Throughout D log := by
  induction hrun with
  | start => trivial
  | step e hrun ih => exact ⟨h _ _ e hrun hC.2 hC.1, ih hC.2⟩

/-- A turn of the log, with the part of the log before it. -/
theorem Throughout.of_split {C : Turn S E A → List (Turn S E A) → Prop}
    {newer older : List (Turn S E A)} {t : Turn S E A} (h : Throughout C (newer ++ t :: older)) :
    C t older := by
  induction newer with
  | nil => exact h.1
  | cons u newer ih => exact ih h.2

/-- Two per-turn properties that agree at reachable states agree along runs. -/
theorem Run.throughout_congr {P Q : Turn S E A → List (Turn S E A) → Prop}
    (h : ∀ s log e, Run M s log → (P (M.turn s e) log ↔ Q (M.turn s e) log))
    {s : S} {log : List (Turn S E A)} (hrun : Run M s log) :
    Throughout P log ↔ Throughout Q log := by
  induction hrun with
  | start => exact Iff.rfl
  | step e hrun ih => exact and_congr (h _ _ e hrun) ih

/-! ## Executable runs -/

/-- Feed a list of events to the machine, recording each turn. -/
def exec (M : Machine S E A) : S → List (Turn S E A) → List E → S × List (Turn S E A)
  | s, log, [] => (s, log)
  | s, log, e :: es => exec M (M.step s e).1 (M.turn s e :: log) es

theorem exec_cons (s : S) (log : List (Turn S E A)) (e : E) (es : List E) :
    M.exec s log (e :: es) = M.exec (M.step s e).1 (M.turn s e :: log) es := rfl

/-- The events of the log, newest first. -/
theorem exec_events (es : List E) (s : S) (log : List (Turn S E A)) :
    (M.exec s log es).2.map Turn.event = es.reverse ++ log.map Turn.event := by
  induction es generalizing s log with
  | nil => rfl
  | cons e es ih =>
    rw [exec_cons, ih, List.map_cons, turn_event, List.reverse_cons, List.append_assoc]
    rfl

/-- Executing events continues a run. -/
theorem Run.exec (es : List E) {s : S} {log : List (Turn S E A)} (hrun : Run M s log) :
    Run M (M.exec s log es).1 (M.exec s log es).2 := by
  induction es generalizing s log with
  | nil => exact hrun
  | cons e es ih => exact ih (hrun.step e)

end Machine

end Lib
