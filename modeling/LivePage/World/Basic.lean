import LivePage.Page.Basic
import LivePage.Report
import LivePage.Value.Basic

/-!
# The world of a page script

Everything that lives while a script runs is kept in one value: the observables with what they
hold and who is subscribed to them, the pages, the teardown records of what has been put on them,
and the tables of names. Shared things stand in arrays and are known by their position, so an
identity is never used twice; what nobody holds any more stays where it is and is found dead by
its owners (see `World.Ownership`).

A subscription is data as well: a `Reaction` says what is done with each emitted value.
-/

namespace LivePage

open LivePage.Script

/-- What an observable holds: a value, for a reference the element it is attached to, or, where
the value is optional, nothing. -/
inductive Held where
  | value (v : Value)
  | element (e : PageNode)
  | absent
deriving Inhabited

/-- Is something there? -/
def Held.isPresent : Held → Bool
  | value _ | element _ => true
  | absent => false

/-- How the value of a derived observable comes from those of its sources. -/
inductive Generator where
  /-- An expression of the variables `v0`, `v1` and so on. -/
  | program (body : Expr) (label : Option String) (type : ValueType)
  /-- Literal segments with the texts of the arguments between them. -/
  | template (segments : List String) (arguments : List Value)
  /-- A node for a value, or another for its absence. -/
  | branch (render fallback : Template) (label : Option String)
  /-- A node for each item of a list. -/
  | each (render : Template) (label : Option String)
  /-- A node while a condition holds, kept as long as it does. -/
  | gated (render : Template) (label : Option String) (memo : MemoId)

/-- What a subscription does with an emitted value. Derived observables are told of their sources
without being held by them. -/
inductive Reaction where
  /-- Logs the value under a name and runs a program. -/
  | subscriber (name : String) (program : CallbackId)
  /-- Logs the value as it can be inserted, and runs a program. -/
  | watch (name : String) (program : CallbackId)
  /-- Regenerates `target` from the value. -/
  | derive (target : CellId) (generator : Generator)
  /-- Regenerates `target` from the value and what `second` holds. -/
  | combineFirst (target second : CellId) (generator : Generator)
  /-- Regenerates `target` from what `first` holds and the value. -/
  | combineSecond (target first : CellId) (generator : Generator)
  /-- Regenerates `target` from what all `sources` hold. -/
  | combineAll (target : CellId) (sources : List CellId) (generator : Generator)
  /-- Regenerates `target`; the generator reads what it needs. -/
  | recompute (target : CellId) (generator : Generator)
  /-- Rebuilds the contents of a place on a page. -/
  | rebuild (site : SiteId)
  /-- Applies the value to an attribute. -/
  | attribute (element : PageNode) (name : String) (source : CellId)
  /-- Applies the value to a style property. -/
  | styleProperty (element : PageNode) (property : String) (source : CellId)
  /-- Tells a boundary that an awaited value has come. -/
  | awaited (boundary : BoundaryId)

/-- The state of an observable that waits for a result. -/
structure Settlement where
  ok : Bool := false
  settled : Bool := false
  /-- What runs after a failure, and its name. -/
  onFailure : Option (String × CallbackId) := none
  /-- What runs after either outcome, and its name. -/
  onEither : Option (String × CallbackId) := none

/-- A part of a record: how it is read, and how the record is written with a new one. -/
structure Part where
  read : Value → Value
  write : Value → Value → Value

/-- The fields of a store. -/
structure Fields where
  /-- Every field that was made, in order: each is told of updates of the store. -/
  synced : List CellId := []
  /-- The field that a name stands for now. -/
  named : Entries CellId := []

/-- The flavours of observables, each with what it has beyond a value and subscriptions. -/
inductive Flavour where
  | plain
  | state (checkers : List Checker)
  | derived
  | ref
  | later (settlement : Settlement)
  | store (fields : Fields)
  | field (store : CellId) (part : Part)
deriving Inhabited

/-- The name of a flavour; a field counts as a store. -/
def Flavour.name : Flavour → String
  | plain => "Plain"
  | state _ => "State"
  | derived => "Derived"
  | ref => "Ref"
  | later _ => "Later"
  | store _ | field .. => "Store"

/-- An observable. Subscriptions are known by a key, and kept in the order in which they came. -/
structure Cell where
  flavour : Flavour
  type : ValueType
  held : Held
  registry : List (Nat × Reaction) := []
deriving Inhabited

/-- What realization has attached to the page for one node. -/
structure Teardown where
  element : Option PageNode := none
  driving : Option CellId := none
  refs : List CellId := []
  observables : List CellId := []
  listeners : List Listener := []
  /-- The records of the node's children. -/
  children : RecordsId

/-- A span of siblings between two comments. `parent` is the node that held them at the last
splice. -/
structure Region where
  start : PageNode
  finish : PageNode
  parent : PageNode
deriving Inhabited

/-- Where and how nodes are realized. -/
structure Surface where
  page : PageId
  /-- Are the comments around a region labelled? -/
  labelled : Bool
deriving Inhabited

/-- Where rebuilt contents go. -/
inductive Target where
  | region (r : RegionId)
  | contents (element : PageNode)
deriving Inhabited

/-- A place on a page whose contents follow an observable. An emission that arrives while the
place is being rebuilt is queued; a later one takes its place in the queue. -/
structure Site where
  surface : Surface
  source : CellId
  records : RecordsId
  target : Target
  busy : Bool := false
  queued : Option Value := none
deriving Inhabited

/-- The lifecycle of a suspense boundary. -/
inductive BoundaryState where
  | pending (outstanding : Nat)
  | settled
deriving DecidableEq, Inhabited

/-- A suspense boundary: what it waits for, the content it will show, and what it shows now. -/
structure Boundary where
  state : BoundaryState := .pending 0
  content : Option Node := none
  display : CellId
deriving Inhabited

/-- What a conditional remembers: the branch rendered last, and whether it was shown last. -/
structure Memo where
  branch : Option Node
  shown : Bool
deriving Inhabited

/-- A program that is called back: the steps it runs, and on how many more calls it runs them. -/
structure Callback where
  acts : List Step
  remaining : Nat
deriving Inhabited

/-- What an event handler does. -/
inductive HandlerBody where
  /-- Logs the event, marks it as asked, and runs a program. -/
  | program (name : String) (stop prevent : Bool) (program : CallbackId)
  /-- Calls a render function and forgets what it gives. -/
  | render (r : Render)
deriving Inhabited

/-- A component: a template of the variables `props` and `children`. -/
structure Component where
  name : String
  template : Template
deriving Inhabited

/-- A result that is not there yet. -/
structure Task where
  later : CellId
  polls : Nat
  outcome : Except String Value

/-- The names of a script, one table for each sort of thing. -/
structure Names where
  observables : Entries CellId := []
  /-- Subscribers, by key and reaction. -/
  subscribers : Entries (Nat × Reaction) := []
  /-- Watches, by the observable and the key of the subscription. -/
  watches : Entries (CellId × Nat) := []
  weaks : Entries CellId := []
  tasks : Entries Task := []
  nodes : Entries Node := []
  handlers : Entries HandlerId := []
  components : Entries ComponentId := []
  documents : Entries PageId := []
  pageNodes : Entries PageNode := []
  teardowns : Entries Teardown := []
  boundaries : Entries BoundaryId := []
  regions : Entries RegionId := []

/-- Things that hold others or are held. -/
inductive Entity where
  | cell (c : CellId)
  | records (r : RecordsId)
  | region (r : RegionId)
  | site (s : SiteId)
  | boundary (b : BoundaryId)
  | handler (h : HandlerId)
  | slot (n : PageNode)
deriving DecidableEq, Repr

/-- Everything that lives while a script runs. -/
structure World where
  cells : Array Cell := #[]
  pages : Array Page := #[]
  /-- The pages that have been entered and not left, the last one first. -/
  entered : List PageId := []
  records : Array (List Teardown) := #[]
  regions : Array Region := #[]
  sites : Array Site := #[]
  boundaries : Array Boundary := #[]
  memos : Array Memo := #[]
  callbacks : Array Callback := #[]
  handlers : Array HandlerBody := #[]
  components : Array Component := #[]
  /-- The key of the next subscription. -/
  nextKey : Nat := 0
  names : Names := {}
  /-- What the operations that are under way hold, the innermost first. -/
  pins : List (List Entity) := []
  /-- What has been logged since the log was last taken, the last entry first. -/
  log : List Report := []

/-- Why a run stops before its end. -/
inductive Stop where
  /-- An emission could not be carried out, and there is nobody to tell. -/
  | panic (message : String)
  /-- The script names something that is not there, or not of the right sort. -/
  | unknown (what : String)
  /-- The run nests deeper than it was allowed to. -/
  | tooDeep
deriving DecidableEq, Repr

/-- A run: it changes the world and gives a result, or stops and leaves the world as it is. -/
abbrev Run := EStateM Stop World

namespace World

/-- The observable of an identity. -/
def cell (w : World) (c : CellId) : Cell := w.cells.getD c.index default

/-- The page of an identity. -/
def page (w : World) (p : PageId) : Page := w.pages.getD p.index default

/-- The slot of a page node. -/
def slot (w : World) (n : PageNode) : Slot := (w.page n.page).slot n.slot

/-- The innermost page that has been entered. -/
def activePage (w : World) : Option PageId := w.entered.head?

/-- Enters a page. It is active until the guard is dropped that this gives. -/
def enterPage (w : World) (p : PageId) : World := { w with entered := p :: w.entered }

/-- Drops a guard. Guards are all alike: whichever it is, the page entered last is left. -/
def dropGuard (w : World) : World := { w with entered := w.entered.tail }

end World

/-- Adds an entry to the log. -/
def logEntry (r : Report) : Run Unit := modify fun w => { w with log := r :: w.log }

/-- Logs a warning. -/
def warn (text : String) : Run Unit := logEntry (.object [("warn", .text text)])

/-- Logs an entry under a label, if there is one. -/
def logLabel (what : String) : Option String → Run Unit
  | some label => logEntry (.object [(what, .text label)])
  | none => pure ()

/-- Runs `act` while `held` cannot be reclaimed. -/
def holding {α : Type} (held : List Entity) (act : Run α) : Run α := do
  modify fun w => { w with pins := held :: w.pins }
  let a ← act
  modify fun w => { w with pins := w.pins.tail }
  return a

end LivePage
