import LivePage.World.Ownership
import LivePage.World.View
import LivePage.Page.Error

/-!
# Calling back

Most of what a page does is to call something that was handed over earlier: a subscription, a
render function, a component, a program of a script. What is called may call again, and nothing in
the data says how deep that goes. So the operations of the library do not call each other in a
circle. Each takes the way to answer a `Request` as an argument, and `Script.Run` ties the knot
once, with a bound on the depth.
-/

namespace LivePage

open LivePage.Script

/-- Why a node cannot be realized. -/
inductive RealizationError where
  /-- No page has been entered. -/
  | noDocument
  /-- A render function gave another function. -/
  | unresolvableRender (variant : String)
  /-- A page operation failed. -/
  | page (e : PageError)
deriving DecidableEq, Repr

/-- The name of the kind of fault. -/
def RealizationError.kind : RealizationError → String
  | noDocument => "NoDocument"
  | unresolvableRender _ => "UnresolvableRender"
  | page e => "Dom:" ++ e.kind

/-- The wording of a fault. -/
def RealizationError.message : RealizationError → String
  | noDocument => "no document is active; enter one with Document::enter"
  | unresolvableRender variant =>
    "a deferred render returned a " ++ variant ++ ", which cannot be realized"
  | page e => e.message

/-- An event on its way up from the node that it was dispatched on. -/
structure Event where
  type : String
  target : PageNode
  prevented : Bool := false
  stopped : Bool := false
deriving Repr, Inhabited

/-- Something to be called, with what it is called on. -/
inductive Request where
  /-- A subscription, on an emitted value. -/
  | react (r : Reaction) (held : Held)
  /-- A render function. -/
  | render (r : Render)
  /-- A component, on its props and the children written in its tag. -/
  | invoke (c : ComponentId) (props : Value) (children : Option Node)
  /-- The steps of a program. -/
  | perform (acts : List Step)
  /-- The markup of a node. -/
  | html (n : Node)
  /-- The text of a value inside a text template. -/
  | insertedText (v : Value)
  /-- A node, realized behind the children of a page node. -/
  | realize (r : Surface) (n : Node) (parent : PageNode)
  /-- The contents of a place on a page, rebuilt from a value and from those queued meanwhile. -/
  | rebuild (s : SiteId) (v : Value)
  /-- A teardown record, released with all records below it. -/
  | kill (m : Teardown)
  /-- The handlers of an event, from a node upwards. -/
  | bubble (e : Event) (n : PageNode)

/-- What answering a request gives. -/
abbrev Request.Answer : Request → Type
  | .react .. | .perform _ | .rebuild .. | .kill _ => Unit
  | .render _ => Value
  | .invoke .. => Node
  | .html _ | .insertedText _ => String
  | .realize .. => Except RealizationError Teardown
  | .bubble .. => Event

/-- A way to answer requests. -/
abbrev Respond := (q : Request) → Run q.Answer

end LivePage
