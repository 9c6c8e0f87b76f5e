import Reckon.Session

/-!
# Session — Report

What is reported of a turn: its outcome, the code it generated, and for an expression what running
it gives.
-/

namespace Reckon

/-- A turn as it is reported. -/
structure Report where
  outcome : Outcome
  /-- the function in the module, if it is there -/
  code : Option Decl := none
  /-- the run of an expression -/
  execution : Option Execution := none

namespace Session

variable {σ : Type} [ItemStream σ]

/-- The report of an outcome, in the session behind it. -/
def report (s : Session σ) (outcome : Outcome) : Report :=
  match outcome with
  | .error _ => { outcome }
  | .ok { kind, function } =>
    { outcome
      code := s.module.find? function.name
      execution := if kind = .expression then some (s.module.execute function.name []) else none }

/-- The report of a turn. -/
def Turn.report (t : Turn σ) : Report := t.after.report t.outcome

end Session

/-- What a run notes: the functions it enters. -/
def Execution.events (e : Execution) : List Event :=
  e.acts.toList.filterMap fun
    | .entered name depth => some (.entered name depth)
    | .native _ _ => none

/-- What running the reported expression notes. -/
def Report.events (r : Report) : List Event :=
  match r.execution with
  | some e => e.events
  | none => []

end Reckon
