import LivePage.Live.Region
import LivePage.Observable.Settling
import LivePage.Observable.Checking
import LivePage.Observable.Fields
import LivePage.Text.Quoted

/-!
# Inspections

The text in which the parts of a thing are shown for debugging: a name with its fields between
braces, a form with its content between parentheses, lists between brackets, and texts quoted.
Functions show nothing of themselves.
-/

namespace LivePage

open LivePage.Script LivePage.Text

namespace Inspect

/-- Named fields between braces. -/
def fields (name : String) (parts : List (String × String)) : String :=
  name ++ " \x7b " ++ ", ".intercalate (parts.map fun (key, text) => key ++ ": " ++ text) ++ " \x7d"

/-- Content between parentheses. -/
def form (name content : String) : String := name ++ "(" ++ content ++ ")"

/-- Items between brackets. -/
def list (items : List String) : String := "[" ++ ", ".intercalate items ++ "]"

/-- Quoted keys with their values, between braces. -/
def table (entries : List (String × String)) : String :=
  "\x7b" ++ ", ".intercalate (entries.map fun (key, text) => quoted key ++ ": " ++ text) ++ "\x7d"

/-- Something that may be missing. -/
def optional : Option String → String
  | some text => form "Some" text
  | none => "None"

/-- A truth value. -/
def flag (b : Bool) : String := if b then "true" else "false"

/-- Texts between brackets. -/
def texts (items : List String) : String := list (items.map quoted)

/-- An event handler. -/
def handler : String := "EventHandler(<closure>)"

/-- A listener. -/
def listener (l : Listener) : String :=
  fields "Listener" [("event", quoted l.event), ("handler", handler)]

/-- The identity of an observable. -/
def cellId (c : CellId) : String := form "ObservableId" (toString c.number)

/-- The identity of a component. -/
def componentId (c : ComponentId) : String := form "ComponentId" (toString c.number)

/-- A component that is called with props. -/
def componentCall (c : ComponentId) (pointer : Bool) : String :=
  fields "ComponentCall"
    [("id", componentId c), ("kind", if pointer then "Pointer" else "Instance")]

/-- A component. -/
def component (c : ComponentId) : String := fields "Component" [("id", componentId c)]

end Inspect

open Inspect

/-- A scalar as inspections show it. -/
def Scalar.inspect : Scalar → String
  | .str s => form "Str" (quoted s)
  | .int n => form "Int" (Scalar.int n).text
  | .uint n => form "UInt" (Scalar.uint n).text
  | .wide n => form "BigInt" (Scalar.wide n).text
  | .float x => form "Float" (Number.Style.inspected.write x)
  | .bool b => form "Bool" (flag b)

/-- The shape of a page node as inspections show it. -/
def NodeType.inspect : NodeType → String
  | element => "Element"
  | text => "Text"
  | comment => "Comment"
  | fragment => "Fragment"

namespace World

/-- An observable as inspections show it where it is used. -/
def inspectDynamic (w : World) (c : CellId) : String :=
  fields "Dynamic" [("id", cellId c), ("kind", w.flavourName c),
    ("subscribers", toString (w.cell c).registry.length)]

/-- What drives a node. -/
def inspectDriving (w : World) (driving : Option CellId) : String :=
  optional (driving.map w.inspectDynamic)

/-- A reference. -/
def inspectRef (w : World) (c : CellId) : String :=
  fields "NodeRef" [("id", cellId c), ("attached", flag (w.isAttached c))]

/-- A style. -/
def inspectStyle (w : World) (style : Style) : String :=
  fields "StyleDeclaration" [("properties", table (style.map fun (key, value) =>
    (key, match value with
      | .text s => form "Text" (quoted s)
      | .observable c => form "Observable" (w.inspectDynamic c))))]

/-- An attribute of a node. -/
def inspectAttribute (w : World) : AttributeValue → String
  | .text s => form "Text" (quoted s)
  | .observable c => form "Observable" (w.inspectDynamic c)
  | .ref c => form "Ref" (w.inspectRef c)
  | .list items => form "List" (texts items)
  | .style style => form "Style" (w.inspectStyle style)

end World

mutual

/-- A node as inspections show it. -/
def Node.inspect (w : World) : Node → String
  | .empty => "Empty"
  | .text data driving =>
    form "Text" (fields "TextNode" [("data", quoted data), ("driving", w.inspectDriving driving)])
  | .element tag attributes listeners children driving =>
    form "Element" (fields "ElementNode" [("tag", quoted tag),
      ("attributes", table (attributes.map fun (name, value) => (name, w.inspectAttribute value))),
      ("children", list (inspectNodes w children)),
      ("listeners", list (listeners.map listener)),
      ("driving", w.inspectDriving driving)])
  | .fragment children driving =>
    form "Fragment" (fields "FragmentNode" [("children", list (inspectNodes w children)),
      ("driving", w.inspectDriving driving)])
  | .deferred _ => "Deferred(DeferredRender(<closure>))"

/-- Nodes as inspections show them. -/
def inspectNodes (w : World) : List Node → List String
  | [] => []
  | n :: rest => n.inspect w :: inspectNodes w rest

end

mutual

/-- A value as inspections show it. A record is a list of pairs. -/
def Value.inspect (w : World) : Value → String
  | .empty => "Empty"
  | .scalar s => form "Text" s.inspect
  | .observable c => form "Observable" (w.inspectDynamic c)
  | .ref c => form "Ref" (w.inspectRef c)
  | .node n => form "Node" (n.inspect w)
  | .handler _ => form "Handler" handler
  | .render _ => "Render(<closure>)"
  | .component c pointer _ => form "Component" (componentCall c pointer)
  | .list items => form "List" (texts items)
  | .style style => form "Style" (w.inspectStyle style)
  | .record named => list (inspectRecord w named)

/-- The fields of a record as pairs. -/
def inspectRecord (w : World) : List (String × Value) → List String
  | [] => []
  | (name, v) :: rest => form "" (quoted name ++ ", " ++ v.inspect w) :: inspectRecord w rest

end

namespace World

/-- What an observable of a type holds. -/
def inspectHeld (w : World) (type : ValueType) (held : Held) : String :=
  match type, held with
  | .opt, .value v => optional (some (v.inspect w))
  | _, .absent => optional none
  | .bool, .value v => flag v.isTrue
  | .str, .value v => quoted (w.textOf v)
  | .list, .value v => texts v.items
  | .node, .value (.node n) => n.inspect w
  | _, .value v => v.inspect w
  | _, .element _ => ""

/-- The value and the subscriptions of an observable. -/
def inspectCell (w : World) (c : CellId) : String :=
  let cell := w.cell c
  fields "Observable" [("id", cellId c), ("value", w.inspectHeld cell.type cell.held),
    ("subscribers", toString cell.registry.length)]

/-- An observable with all that its flavour adds. -/
def inspectObservable (w : World) (c : CellId) : String :=
  let inner := ("observable", w.inspectCell c)
  match (w.cell c).flavour with
  | .plain => w.inspectCell c
  | .state checkers => fields "State" [inner, ("checkers", toString checkers.length)]
  | .derived => fields "Derived" [inner]
  | .ref => w.inspectRef c
  | .later s => fields "Later" [inner, ("ok", flag s.ok), ("settled", flag s.settled)]
  | .store parts => fields "Store" [inner, ("fields", toString parts.named.length)]
  | .field .. => fields "StoreField" [inner]

/-- A page node, by its slot. -/
def inspectPageNode (w : World) (n : PageNode) : String :=
  fields "DomNode" [("id", toString n.slot), ("type", (w.slot n).content.type.inspect)]

/-- A page, with the number of its occupied slots. -/
def inspectPage (w : World) (p : PageId) : String :=
  fields "Document" [("nodes", toString (w.page p).live)]

/-- The records in a list. -/
def recordsIn (w : World) (r : RecordsId) : List Teardown := w.records.getD r.index []

/-- A teardown record, with the numbers of what it stands for. -/
def inspectTeardown (w : World) (m : Teardown) : String :=
  fields "Mounted" [("element", optional (m.element.map w.inspectPageNode)),
    ("driven", flag m.driving.isSome), ("refs", toString m.refs.length),
    ("observables", toString m.observables.length), ("listeners", toString m.listeners.length),
    ("children", toString (w.recordsIn m.children).length)]

/-- A region. -/
def inspectRegion (w : World) (r : RegionId) : String :=
  let region := w.region r
  fields "AnchoredRegion" [("start", w.inspectPageNode region.start),
    ("end", w.inspectPageNode region.finish),
    ("parent", fields "RefCell" [("value", w.inspectPageNode region.parent)])]

/-- An event. -/
def inspectEvent (w : World) (type : String) (target : PageNode) (prevented : Bool) : String :=
  fields "Event" [("event_type", quoted type), ("target", w.inspectPageNode target),
    ("default_prevented", flag prevented)]

end World

/-- A subscription, which shows nothing of itself. -/
def inspectSubscription : String := "Subscription \x7b .. \x7d"

end LivePage
