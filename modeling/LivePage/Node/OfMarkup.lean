import LivePage.World.Request
import LivePage.Markup.Reader

/-!
# Nodes from templates

A template that has been read becomes a node by putting the inserted values into their places.
That can warn about a value that has no use at its place, and it calls the components whose tags
the template holds, an inner one before the one around it. If the template cannot be read, all
this is still done for the part before the fault.
-/

namespace LivePage

open LivePage.Markup

/-- What the reader has to know about a value. -/
def World.insertion (w : World) (v : Value) : Insertion where
  variant := v.variant
  hasText := (w.text? v).isSome
  component? := match v with
    | .component c pointer _ => some (c.name, pointer)
    | _ => none

/-- The inserted value of a number. -/
def insertedValue (arguments : List Value) (k : Nat) : Value := arguments.getD k .empty

/-- The text of a quoted attribute value. -/
def World.quotedText (w : World) (arguments : List Value) (pieces : List Piece) : String :=
  String.join (pieces.map fun piece =>
    match piece with
    | .literal s => s
    | .inserted k => w.textOf (insertedValue arguments k))

/-- The attributes and listeners of an element. -/
structure ElementParts where
  attributes : Entries AttributeValue := []
  listeners : List Listener := []

/-- Gives an attribute a value; a later one of the same name takes the place of an earlier one. -/
def ElementParts.set (parts : ElementParts) (name : String) (value : AttributeValue) :
    ElementParts :=
  { parts with attributes := Entries.set name value parts.attributes }

/-- The event that an attribute name stands for. -/
def eventName? (name : String) : Option String :=
  match name.toList with
  | 'o' :: 'n' :: c :: rest => some (String.ofList (c :: rest))
  | _ => none

/-- Adds a handler under an attribute name, which has to name an event. -/
def ElementParts.listen (parts : ElementParts) (name : String) (handler : HandlerId) :
    Run ElementParts :=
  match eventName? name with
  | some event => return { parts with listeners := parts.listeners ++ [⟨event, handler⟩] }
  | none => do
    warn ("dropping event handler bound to non-event attribute \x60" ++ name ++ "\x60")
    return parts

/-- Makes a new event handler. -/
def newHandler (body : HandlerBody) : Run HandlerId := do
  let w ← get
  set { w with handlers := w.handlers.push body }
  return ⟨w.handlers.size⟩

/-- Adds an inserted attribute value. Nothing inserted means no attribute; a render function
becomes a handler that calls it. -/
def ElementParts.insert (parts : ElementParts) (name : String) (v : Value) : Run ElementParts := do
  let w ← get
  match w.insertable v with
  | .empty => return parts
  | .scalar s => return parts.set name (.text s.text)
  | .observable c => return parts.set name (.observable c)
  | .ref c => return parts.set name (.ref c)
  | .list items => return parts.set name (.list items)
  | .style s => return parts.set name (.style s)
  | .handler h => parts.listen name h
  | .render r => do
    let h ← newHandler (.render r)
    parts.listen name h
  | v => do
    warn ("a " ++ v.variant ++ " cannot be used as the value of attribute \x60" ++ name
      ++ "\x60; dropping it")
    return parts

/-- Adds the attributes of a tag one after the other. -/
def ElementParts.addAll (arguments : List Value) (parts : ElementParts) :
    List Attribute → Run ElementParts
  | [] => return parts
  | .quoted name pieces :: rest => do
    let w ← get
    addAll arguments (parts.set name (.text (w.quotedText arguments pieces))) rest
  | .inserted name k :: rest => do
    let parts ← parts.insert name (insertedValue arguments k)
    addAll arguments parts rest

namespace Node

mutual

/-- The nodes of a part of a template: one, or none for an insertion that shows nothing. -/
def ofMarkup (call : Respond) (arguments : List Value) : Markup → Run (List Node)
  | .text data => return [.text data none]
  | .inserted k => do
    let n ← childNode (insertedValue arguments k)
    return if n.isEmpty then [] else [n]
  | .element tag attributes children => do
    let parts ← ElementParts.addAll arguments {} attributes
    let children ← ofMarkups call arguments children
    return [.element tag parts.attributes parts.listeners children none]
  | .component k none => do
    match insertedValue arguments k with
    | .component c _ props => return [← call (.invoke c props none)]
    | _ => return []
  | .component k (some children) => do
    let children ← ofMarkups call arguments children
    match insertedValue arguments k with
    | .component c _ props => return [← call (.invoke c props (some (.wrap children none)))]
    | _ => return []

/-- The nodes of parts of a template in order. -/
def ofMarkups (call : Respond) (arguments : List Value) : List Markup → Run (List Node)
  | [] => return []
  | m :: rest => do
    let first ← ofMarkup call arguments m
    let others ← ofMarkups call arguments rest
    return first ++ others

end

/-- The node of a template: its only top-level node, or a fragment of all of them. -/
def parse (call : Respond) (segments : List String) (arguments : List Value) :
    Run (Except ParseError Node) := do
  let w ← get
  match Markup.read segments (arguments.map w.insertion) with
  | .error fault => do
    let _ ← ofMarkups call arguments fault.read
    return .error fault.error
  | .ok forest => do
    match ← ofMarkups call arguments forest with
    | [n] => return .ok n
    | nodes => return .ok (.wrap nodes none)

end Node

end LivePage
