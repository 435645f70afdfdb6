import LivePage.Flow.Awaiting
import LivePage.Live.Event
import LivePage.Node.Html
import LivePage.Script.Answer

/-!
# Steps on nodes, components and boundaries
-/

namespace LivePage

open LivePage.Script

/-! ## Nodes -/

/-- Reads a template and stores its node. -/
def stepParse (call : Respond) (segments : List String) (arguments : List Expr)
    (as : Option String) : Answering Report := do
  let values ← stepArguments call arguments
  let n ← answering parseFault (Node.parse call segments values)
  storeNode as n

/-- Reads a template and answers with its markup, and with its node if `full`. -/
def stepMarkup (call : Respond) (full : Bool) (segments : List String) (arguments : List Expr) :
    Answering Report := do
  let values ← stepArguments call arguments
  let n ← answering parseFault (Node.parse call segments values)
  let html ← n.html call
  let node := n.report (← get)
  return .object (("html", .text html) :: if full then [("node", node)] else [])

/-- The markup of a node. -/
def stepHtml (call : Respond) (template : Template) : Answering Report := do
  let n ← stepNode call template
  return .text (← n.html call)

/-- All that tells one sort of values from another. -/
def classify (call : Respond) (v : Value) : Answering Report := do
  let w ← get
  let v := w.insertable v
  let n ← childNode v
  let html ← n.html call
  return .object [("kind", .text v.kind.name), ("variant", .text v.variant),
    ("text", Report.ofText? (w.text? v)), ("node", n.report w), ("tag", .text n.tag.name),
    ("html", .text html)]

/-- The value of an expression. -/
def stepEval (call : Respond) (value : Expr) : Answering Report := do
  let v ← stepValue call value
  return (← get).report v

/-- The attributes of an element; other nodes have none. -/
def Node.attributes? : Node → Option (List (String × AttributeValue))
  | .element _ attributes _ _ _ => some attributes
  | _ => none

/-- Is this an element of a tag name? -/
def Node.hasTag (name : String) : Node → Bool
  | .element tag .. => tag = name
  | _ => false

/-- What can be asked of a node directly. -/
def stepShape (call : Respond) (template : Template) (name : String) : Answering Report := do
  let n ← stepNode call template
  let w ← get
  let tags : List NodeForm := [.empty, .text, .element, .fragment, .deferred]
  let statics := match n.attributes? with
    | some attributes =>
      Report.pairs ((Node.fixedAttributes attributes).map fun (key, s) => (key, .text s))
    | none => .null
  let current := do
    let value ← Entries.get? name (← n.attributes?)
    w.attributeText? value
  return .object [("tag", .text n.tag.name), ("driven", .bool n.driving.isSome),
    ("children", .count n.children.length), ("is", .list (tags.map fun t => .bool (n.tag = t))),
    ("named", .bool (n.hasTag name)), ("statics", statics),
    ("attribute", Report.ofText? current)]

/-! ## Components and handlers -/

/-- Makes a component. -/
def stepComponent (as : String) (template : Template) : Answering Report := do
  let w ← get
  let c : ComponentId := ⟨w.components.size⟩
  set { w with components := w.components.push ⟨as, template⟩ }
  modifyNames fun n => { n with components := Entries.set as c n.components }
  return .text c.name

/-- Renders a component. -/
def stepCall (call : Respond) (component : String) (form : CallForm) (props : Expr)
    (children : Option Template) (as : Option String) : Answering Report := do
  let c ← lookupComponent component
  let props ← stepValue call props
  let children ← match children with
    | some t => do
      let n ← stepNode call t
      pure (some n)
    | none => pure none
  let props := match form with
    | .pointer => Value.empty
    | .direct | .instanceOf => props
  let n ← c.invoke call props children
  storeNode as n

/-- Makes an event handler. -/
def stepHandler (as : String) (stop prevent : Bool) (acts : List Step) (times : Nat) :
    Answering Report := do
  let program ← newCallback acts times
  let h ← newHandler (.program as stop prevent program)
  silently (modifyNames fun n => { n with handlers := Entries.set as h n.handlers })

/-- Are two handlers the same one? -/
def stepSameHandler (a b : String) : Answering Report := do
  let same := (← lookupHandler a) = (← lookupHandler b)
  return .list [.bool same, .bool same]

/-! ## Control flow -/

/-- Stores a node that follows an observable. -/
def stepFollow (as : String) (make : Run Node) : Answering Report := do
  let n ← make
  storeNode (some as) n

/-- Answers with a node that follows nothing. -/
def stepFixed (make : Run Node) : Answering Report := do
  let n ← make
  return n.report (← get)

/-- Renders a value or its absence. -/
def stepShowFixed (call : Respond) (value : Expr) (render fallback : Template) :
    Answering Report := do
  let v ← stepValue call value
  let held := ValueType.opt.conform (← get) v
  stepFixed (showFixed call held render fallback)

/-- Renders a node for every value. -/
def stepForEachFixed (call : Respond) (items : List Expr) (render : Template) :
    Answering Report := do
  let values ← answering parseFault (evalAll call [] items)
  stepFixed do return .wrap (← forEachFixed call render values) none

/-- Renders a branch if a condition holds. -/
def stepConditionalFixed (call : Respond) (value : Expr) (render : Template) :
    Answering Report := do
  let v ← stepValue call value
  stepFixed (conditionalFixed call v.isTrue render)

/-! ## Boundaries -/

/-- The boundary of a name. -/
def stepBoundaryId (name : String) : Answering BoundaryId :=
  (lookup Names.boundaries name : Run BoundaryId)

/-- Makes a boundary. -/
def stepSuspense (call : Respond) (as : String) (fallback : Template) : Answering Report := do
  let n ← stepNode call fallback
  let b ← newBoundary n
  silently (modifyNames fun names => { names with boundaries := Entries.set as b names.boundaries })

/-- Registers an awaited observable. -/
def stepPending (suspense as : String) (c : CellId) : Answering Report := do
  let b ← stepBoundaryId suspense
  let n ← awaitIn b c
  storeNode (some as) n

/-- Gives a boundary its content. -/
def stepFinish (call : Respond) (suspense : String) (template : Template) (as : String) :
    Answering Report := do
  let b ← stepBoundaryId suspense
  let n ← stepNode call template
  let n ← finishBoundary b n
  storeNode (some as) n

/-- What a boundary waits for. -/
def stepBoundary (suspense : String) : Answering Report := do
  let b ← stepBoundaryId suspense
  match ((← get).boundary b).state with
  | .pending k => return .count k
  | .settled => return .text "settled"

end LivePage
