import LivePage.Observable.Derivation

/-!
# Branches and lists

Nodes that follow an observable: one of two branches by whether a value is there, a branch while a
condition holds, and a node for every item of a list. Each is a fragment driven by a derived
observable that holds the node to show. The same for fixed values gives plain fragments.
-/

namespace LivePage

open LivePage.Script

/-- A fragment of one node. -/
def fragmentOf (n : Node) (driving : Option CellId) : Node := .wrap [n] driving

/-- The node that an observable holds. -/
def World.heldNode (w : World) (c : CellId) : Node :=
  match (w.cell c).held with
  | .value (.node n) => n
  | _ => .empty

/-- A node that shows what an observable of nodes holds. -/
def followNode (c : CellId) : Run Node := return fragmentOf ((← get).heldNode c) (some c)

/-- Renders a value of `source` while there is one, and the fallback while there is none. -/
def showWhen (call : Respond) (source : CellId) (render fallback : Template)
    (label : Option String) : Run Node := do
  followNode (← deriveFrom call .node source (.branch render fallback label))

/-- Renders every item of a list, and the whole list again when it is emitted. -/
def forEach (call : Respond) (source : CellId) (render : Template) (label : Option String) :
    Run Node := do
  followNode (← deriveFrom call .node source (.each render label))

/-- Renders a branch while a condition holds; the branch is kept until the condition has been
false. -/
def conditional (call : Respond) (source : CellId) (render : Template) (label : Option String) :
    Run Node := do
  let shown := ((← get).shownCurrent source).isTrue
  let initial ← if shown then gatedBranch call render label else pure Node.empty
  let w ← get
  let branch := if shown then some initial else none
  set { w with memos := w.memos.push { branch, shown } }
  let c ← deriveWithInitial .node source (.gated render label ⟨w.memos.size⟩)
    (.value (.node initial))
  return fragmentOf initial (some c)

/-! ## Fixed values -/

/-- Renders a value, or the fallback for nothing. -/
def showFixed (call : Respond) (held : Held) (render fallback : Template) : Run Node := do
  return fragmentOf (← branchNode call render fallback none held) none

/-- Renders a node for every value. -/
def forEachFixed (call : Respond) (render : Template) : List Value → Run (List Node)
  | [] => return []
  | v :: rest => do
    let n ← calledTemplate call [("v", v)] render
    return n :: (← forEachFixed call render rest)

/-- Renders a branch if the condition holds. -/
def conditionalFixed (call : Respond) (shown : Bool) (render : Template) : Run Node := do
  return fragmentOf (← if shown then gatedBranch call render none else pure Node.empty) none

end LivePage
