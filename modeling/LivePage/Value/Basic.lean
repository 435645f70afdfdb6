import LivePage.Identity
import LivePage.Entries
import LivePage.Script.Syntax
import LivePage.Text.Names

/-!
# Values and nodes

A `Value` is what a template can insert: a scalar, an observable, a node, a function of some sort,
a list of texts or a style declaration. A `Node` describes content of a page. It can be driven by
an observable, and is then rebuilt from that observable's value whenever it is emitted.

Functions are kept as data: a `Render` says what is rendered when it is called. Records are values
of stores only; where a value is inserted, a record counts as the list of its fields.
-/

namespace LivePage

open LivePage.Script (Expr)

/-- A property of an inline style. -/
inductive StyleValue where
  | text (s : String)
  | observable (c : CellId)
deriving DecidableEq, Repr, Inhabited

/-- An inline style: properties in the order of declaration. -/
abbrev Style := Entries StyleValue

/-- The value of an attribute of a node. -/
inductive AttributeValue where
  | text (s : String)
  /-- Applied again whenever the observable is emitted. -/
  | observable (c : CellId)
  /-- A reference to the element that the node becomes. -/
  | ref (c : CellId)
  /-- Texts, written with blanks between them. -/
  | list (items : List String)
  | style (s : Style)
deriving Repr, Inhabited

/-- An event type and the handler for it. -/
structure Listener where
  event : String
  handler : HandlerId
deriving DecidableEq, Repr, Inhabited

mutual

/-- A value that can be inserted. -/
inductive Value where
  | empty
  | scalar (s : Scalar)
  | observable (c : CellId)
  | ref (c : CellId)
  | node (n : Node)
  | handler (h : HandlerId)
  | render (r : Render)
  /-- A component with its props: the component itself, or an instance of it. -/
  | component (c : ComponentId) (pointer : Bool) (props : Value)
  | list (items : List String)
  | style (s : Style)
  | record (fields : List (String × Value))

/-- A description of content. -/
inductive Node where
  | empty
  | text (data : String) (driving : Option CellId)
  | element (tag : String) (attributes : List (String × AttributeValue))
      (listeners : List Listener) (children : List Node) (driving : Option CellId)
  | fragment (children : List Node) (driving : Option CellId)
  | deferred (r : Render)

/-- What a render function gives when it is called. -/
inductive Render where
  /-- The value of an expression, after the label has been logged. -/
  | program (body : Expr) (label : Option String) (context : List (String × Value))
  /-- A handler, which cannot be rendered. -/
  | handler (h : HandlerId)
  /-- The node that a component renders without children. -/
  | component (c : ComponentId) (props : Value)
  /-- An observable that a boundary waits for. -/
  | pending (c : CellId)

end

instance : Inhabited Value := ⟨.empty⟩
instance : Inhabited Node := ⟨.empty⟩
instance : Inhabited Render := ⟨.handler default⟩

/-- Variables and their values. -/
abbrev Context := List (String × Value)

/-- The sorts of values that a template tells apart. -/
inductive ValueKind where
  | empty
  | text
  | observable
  | node
  | function
deriving DecidableEq, Repr

/-- The name of a sort. -/
def ValueKind.name : ValueKind → String
  | empty => "Empty"
  | text => "Text"
  | observable => "Observable"
  | node => "Node"
  | function => "Function"

namespace Value

/-- The sort of a value. Observables and references are known by their form, never by what they
hold. -/
def kind : Value → ValueKind
  | empty => .empty
  | scalar _ => .text
  | observable _ | ref _ => .observable
  | handler _ | render _ | component .. => .function
  | node _ | list _ | style _ | record _ => .node

/-- The name of the form of a value, for messages. -/
def variant : Value → String
  | empty => "empty"
  | scalar _ => "text"
  | observable _ => "observable"
  | ref _ => "ref"
  | node _ => "node"
  | handler _ => "event handler"
  | render _ => "render function"
  | component .. => "component"
  | list _ | record _ => "list"
  | style _ => "style declaration"

/-- A text as a value. -/
def str (s : String) : Value := .scalar (.str s)

/-- A truth value as a value. -/
def bool (b : Bool) : Value := .scalar (.bool b)

/-- Is this the truth value true? -/
def isTrue : Value → Bool
  | .scalar (.bool true) => true
  | _ => false

/-- Is there nothing? -/
def isEmpty : Value → Bool
  | .empty => true
  | _ => false

end Value

/-- The forms of nodes. -/
inductive NodeForm where
  | empty
  | text
  | element
  | fragment
  | deferred
deriving DecidableEq, Repr

/-- The name of a form. -/
def NodeForm.name : NodeForm → String
  | empty => "Empty"
  | text => "Text"
  | element => "Element"
  | fragment => "Fragment"
  | deferred => "Deferred"

namespace Node

/-- The form of a node. -/
def tag : Node → NodeForm
  | empty => .empty
  | text .. => .text
  | element .. => .element
  | fragment .. => .fragment
  | deferred _ => .deferred

/-- Is this the empty node? -/
def isEmpty : Node → Bool
  | empty => true
  | _ => false

/-- The observable that drives a node. -/
def driving : Node → Option CellId
  | text _ d | element _ _ _ _ d | fragment _ d => d
  | empty | deferred _ => none

/-- The children of an element or a fragment. -/
def children : Node → List Node
  | element _ _ _ cs _ | fragment cs _ => cs
  | empty | text .. | deferred _ => []

/-- A fragment of nodes. When the only one is itself a fragment, its children are taken over, and
an observable that drives it wins; if both are driven, nothing is collapsed. -/
def wrap (children : List Node) (driving : Option CellId) : Node :=
  match children with
  | [fragment inner none] => fragment inner driving
  | [fragment inner (some d)] =>
    match driving with
    | none => fragment inner (some d)
    | some o => fragment [fragment inner (some d)] (some o)
  | children => fragment children driving

/-- The texts of a list as a fragment of text nodes. -/
def ofTexts (items : List String) : Node := wrap (items.map (text · none)) none

/-- Attributes whose value is fixed text, a list with blanks between its texts. -/
def fixedAttributes (attributes : List (String × AttributeValue)) : List (String × String) :=
  attributes.filterMap fun (name, value) =>
    match value with
    | .text s => some (name, s)
    | .list items => some (name, " ".intercalate items)
    | .observable _ | .ref _ | .style _ => none

end Node

end LivePage
