import LivePage.Observable.Emission

/-!
# Results that come later

An observable that waits for a result holds nothing until the result comes, and is settled at
most once: resolved with a value, which is assigned and emitted, or rejected with a message, which
goes to what was registered for failures and is forgotten otherwise. What was registered for
either outcome runs last. Both are looked up when they are about to run.
-/

namespace LivePage

/-- Where an observable stands that waits for a result; the others never settle. -/
def Cell.settlement (cell : Cell) : Settlement :=
  match cell.flavour with
  | .later s => s
  | _ => {}

/-- Changes the settlement of an observable that waits for a result. -/
def Cell.modifySettlement (f : Settlement → Settlement) (cell : Cell) : Cell :=
  match cell.flavour with
  | .later s => { cell with flavour := .later (f s) }
  | _ => cell

/-- Runs what was registered for either outcome. -/
def runOnEither (call : Respond) (c : CellId) : Run Unit := do
  match ((← get).cell c).settlement.onEither with
  | some (name, program) => do
    logEntry (.object [("finally", .text name)])
    program.run call
  | none => pure ()

/-- Runs what was registered for a failure. -/
def runOnFailure (call : Respond) (c : CellId) (message : String) : Run Unit := do
  match ((← get).cell c).settlement.onFailure with
  | some (name, program) => do
    logEntry (.object [("catch", .text name), ("message", .text message)])
    program.run call
  | none => pure ()

/-- Settles with a value, unless settled before. -/
def resolve (call : Respond) (c : CellId) (v : Value) : Run Unit := do
  if ((← get).cell c).settlement.settled then pure ()
  else
    modifyCell c (·.modifySettlement fun s => { s with settled := true, ok := true })
    holdAndEmit call c (.value v)
    runOnEither call c

/-- Settles with a failure, unless settled before. -/
def reject (call : Respond) (c : CellId) (message : String) : Run Unit := do
  if ((← get).cell c).settlement.settled then pure ()
  else
    modifyCell c (·.modifySettlement fun s => { s with settled := true })
    runOnFailure call c message
    runOnEither call c

/-- Changes the tasks of a script. -/
def modifyTasks (f : Entries Task → Entries Task) : Run Unit :=
  modify fun w => { w with names := { w.names with tasks := f w.names.tasks } }

/-- Drives a task once: it waits, or settles its observable. The answer says whether it is done. -/
def Task.poll (call : Respond) (name : String) (t : Task) : Run Bool := do
  match t.polls with
  | k + 1 => do
    modifyTasks (Entries.set name { t with polls := k })
    return false
  | 0 => do
    modifyTasks (Entries.erase name)
    let values := match t.outcome with
      | .ok v => v.holds
      | .error _ => []
    holding (.cell t.later :: values) do
      match t.outcome with
      | .ok v => resolve call t.later v
      | .error message => reject call t.later message
    return true

end LivePage
