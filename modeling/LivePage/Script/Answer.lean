import LivePage.Live.Realization
import LivePage.Script.Eval
import LivePage.Script.Shown

/-!
# Answers of steps

A step of a script answers with a report. A fault of a template, of a page operation or of a
realization is an answer too, and the script goes on.
-/

namespace LivePage

open LivePage.Script

/-- A step, which gives an answer or a fault in place of one. -/
abbrev Answering := ExceptT Report Run

/-- A fault of a page operation as a report. -/
def pageFault (e : PageError) : Report := .fault e.kind e.message

/-- A fault of a realization as a report. -/
def realizationFault (e : RealizationError) : Report := .fault e.kind e.message

/-- Takes the result of something that can fail; `fault` words its faults. -/
def answering {ε α : Type} (fault : ε → Report) (act : Run (Except ε α)) : Answering α :=
  ExceptT.mk do
    match ← act with
    | .ok a => return .ok a
    | .error e => return .error (fault e)

/-- The value of an expression of a step. -/
def stepValue (call : Respond) (e : Expr) : Answering Value :=
  answering parseFault (evalExpr call [] e)

/-- The values of expressions of a step, as they can be inserted. -/
def stepArguments (call : Respond) (es : List Expr) : Answering (List Value) := do
  let values ← answering parseFault (evalAll call [] es)
  return values.map (← get).insertable

/-- The node of a template of a step. -/
def stepNode (call : Respond) (t : Template) : Answering Node :=
  answering parseFault (evalTemplate call [] t)

/-- Does something for its effect and answers nothing. -/
def silently (act : Run Unit) : Answering Report := do
  act
  return .null

/-- Does something on a page and answers nothing. -/
def edited (act : Run Edited) : Answering Report := do
  answering pageFault act
  return .null

/-- The observable of a name. -/
def stepCell (name : String) : Answering CellId := lookupCell name

/-- Does something with the observable of a name, which stays alive meanwhile. -/
def withCell (name : String) (act : CellId → Answering Report) : Answering Report := do
  let c ← stepCell name
  ExceptT.mk (holding [.cell c] (act c).run)

/-- Gives an observable a name. -/
def nameCell (name : String) (c : CellId) : Run Unit :=
  modifyNames fun n => { n with observables := Entries.set name c n.observables }

/-- Stores a node under a name, if there is one, and answers with it. -/
def storeNode (as : Option String) (node : Node) : Answering Report := do
  match as with
  | some name => modifyNames fun n => { n with nodes := Entries.set name node n.nodes }
  | none => pure ()
  return node.report (← get)

/-- The number of subscriptions of an observable. -/
def subscriberCount (c : CellId) : Run Nat := return ((← get).cell c).registry.length

end LivePage
