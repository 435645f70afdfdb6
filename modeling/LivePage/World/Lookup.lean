import LivePage.World.Basic

/-!
# Looking things up

A script names things; a name that is not there stops the run. So does a thing of the wrong sort.
-/

namespace LivePage

open LivePage.Script

/-- Stops the run because of something that the script should not have named. -/
def unknown {α : Type} (what : String) : Run α := throw (.unknown what)

/-- The thing of a name in one of the tables. -/
def lookup {α : Type} (table : Names → Entries α) (name : String) : Run α := do
  match Entries.get? name (table (← get).names) with
  | some a => return a
  | none => unknown name

/-- Changes the tables of names. -/
def modifyNames (f : Names → Names) : Run Unit := modify fun w => { w with names := f w.names }

/-- The observable of a name. -/
def lookupCell (name : String) : Run CellId := lookup Names.observables name

/-- The handler of a name. -/
def lookupHandler (name : String) : Run HandlerId := lookup Names.handlers name

/-- The component of a name. -/
def lookupComponent (name : String) : Run ComponentId := lookup Names.components name

/-- The node of a name. -/
def lookupNode (name : String) : Run Node := lookup Names.nodes name

/-- The observable of a name that need not be there. -/
def World.cellNamed? (w : World) (name : String) : Option CellId :=
  Entries.get? name w.names.observables

/-- The page node that a step names. A node without a name on the way is found by the numbers of
children that lead to it. -/
def lookupPageNode : NodePath → Run PageNode
  | .named name => lookup Names.pageNodes name
  | .inside name path => do
    let start ← lookup Names.pageNodes name
    let w ← get
    let step (n : Option Nat) (k : Nat) : Option Nat :=
      n.bind fun i => ((w.page start.page).slot i).children[k]?
    match path.foldl step (some start.slot) with
    | some i => return ⟨start.page, i⟩
    | none => unknown name
  | .ofRef name => do
    let c ← lookupCell name
    match ((← get).cell c).held with
    | .element n => return n
    | _ => unknown name

end LivePage
