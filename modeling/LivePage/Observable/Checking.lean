import LivePage.Observable.Emission
import LivePage.Script.Eval

/-!
# States

A state is an observable whose updates pass through checkers. An update first asks the checkers
in the order of their registration, up to the first that refuses; if all accept, the candidate is
assigned and emitted. Setting a state bypasses the checkers and tells nobody.
-/

namespace LivePage

open LivePage.Script

/-- The new value that a change asks for, where `current` is the one held now. -/
def Script.Change.eval (call : Respond) (current : Value) : Change → Eval Value
  | .value e => evalExpr call [] e
  | .compute e => calledExpr call [("v", current)] e

/-- Asks one checker whether `next` may follow `current`. -/
def Script.Checker.accepts (call : Respond) (current next : Value) (checker : Checker) :
    Run Bool := do
  let v ← calledExpr call [("cur", current), ("next", next)] checker.condition
  match checker.label with
  | some label => logEntry (.object [("check", .text label), ("ok", .bool v.isTrue)])
  | none => pure ()
  return v.isTrue

/-- Do all checkers accept? Those behind the first that refuses are not asked. -/
def allAccept (call : Respond) (current next : Value) : List Checker → Run Bool
  | [] => return true
  | checker :: rest => do
    if ← checker.accepts call current next then allAccept call current next rest else return false

/-- The checkers of an observable; only states have some. -/
def Cell.checkers (cell : Cell) : List Checker :=
  match cell.flavour with
  | .state checkers => checkers
  | _ => []

/-- Appends a checker to a state. -/
def Cell.addChecker (checker : Checker) (cell : Cell) : Cell :=
  { cell with flavour := .state (cell.checkers ++ [checker]) }

/-- Updates a state to what `candidate` asks for. The answer says whether it was accepted. -/
def updateState (call : Respond) (c : CellId) (candidate : Held) : Run Bool := do
  let w ← get
  let cell := w.cell c
  if ← allAccept call (w.shown cell.held) (w.shown candidate) cell.checkers then
    holdAndEmit call c candidate
    return true
  else return false

end LivePage
