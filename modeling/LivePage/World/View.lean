import LivePage.World.Basic

/-!
# What values show

The text of a value and the node that stands for it, as far as they can be told without calling
anything. Both follow observables to what they hold now. An observable that holds another one
shows what that one holds; such a chain is no longer than the number of observables, which bounds
the search.
-/

namespace LivePage

namespace Value

mutual

/-- The text of a value, where `ofCell` gives the texts of observables. References, nodes,
functions and styles have none. -/
def textWith (ofCell : CellId → Option String) : Value → Option String
  | .empty => some ""
  | .scalar s => some s.text
  | .observable c => ofCell c
  | .list items => some (" ".intercalate items)
  | .record fields => some (" ".intercalate (fieldTexts ofCell fields))
  | .ref _ | .node _ | .handler _ | .render _ | .component .. | .style _ => none

/-- The fields of a record as texts, each with its name. -/
def fieldTexts (ofCell : CellId → Option String) : List (String × Value) → List String
  | [] => []
  | (name, v) :: rest => (name ++ "=" ++ (textWith ofCell v).getD "") :: fieldTexts ofCell rest

end

/-- The value as it can be inserted: a record counts as the list of its fields. -/
def insertableWith (ofCell : CellId → Option String) : Value → Value
  | .record fields => .list (fieldTexts ofCell fields)
  | v => v

end Value

namespace World

/-- What an observable holds, as a value; a reference shows nothing. -/
def content (w : World) (c : CellId) : Value :=
  match (w.cell c).held with
  | .value v => v
  | .element _ | .absent => .empty

/-- The text of what an observable holds, through at most `k` observables. -/
def cellText (w : World) : (k : Nat) → CellId → Option String
  | 0, _ => none
  | k + 1, c => (w.content c).textWith (cellText w k)

/-- The text of a value. -/
def text? (w : World) (v : Value) : Option String := v.textWith (w.cellText w.cells.size)

/-- The text of a value, empty if it has none. -/
def textOf (w : World) (v : Value) : String := (w.text? v).getD ""

/-- A value as it can be inserted. -/
def insertable (w : World) (v : Value) : Value := v.insertableWith (w.cellText w.cells.size)

/-- What an observable holds, as it can be inserted. -/
def current (w : World) (c : CellId) : Value := w.insertable (w.content c)

/-- What is held, as it can be inserted. -/
def heldArgument (w : World) : Held → Value
  | .value v => w.insertable v
  | .element _ | .absent => .empty

/-! ## Nodes -/

/-- The node that stands for a value, where `ofCell` gives those of observables. Functions are
called when the node is shown; a style cannot be shown. -/
def nodeWith (w : World) (ofCell : CellId → Node) (v : Value) : Node :=
  match w.insertable v with
  | .empty => .empty
  | .scalar s => .text s.text none
  | .observable c | .ref c => ofCell c
  | .node n => n
  | .handler h => .deferred (.handler h)
  | .render r => .deferred r
  | .component c _ props => .deferred (.component c props)
  | .list items => .ofTexts items
  | .style _ | .record _ => .empty

/-- The node of an observable, driven by it: a text while it holds nothing or a scalar, else a
fragment around the node of what it holds. Looks through at most `k` observables. -/
def cellNode (w : World) : (k : Nat) → CellId → Node
  | 0, c => .text "" (some c)
  | k + 1, c =>
    match w.current c with
    | .empty => .text "" (some c)
    | .scalar s => .text s.text (some c)
    | v => .wrap [w.nodeWith (cellNode w k) v] (some c)

/-- The node that stands for a value. -/
def nodeOf (w : World) (v : Value) : Node := w.nodeWith (w.cellNode w.cells.size) v

/-- Is the value a style, or does it lead to one through at most `k` observables? -/
def leadsToStyle (w : World) : (k : Nat) → Value → Bool
  | _, .style _ => true
  | k + 1, .observable c => leadsToStyle w k (w.current c)
  | _, _ => false

end World

/-- The node that stands for a value. A style in its place is passed over with a warning. -/
def childNode (v : Value) : Run Node := do
  let w ← get
  if w.leadsToStyle w.cells.size v then
    warn "a style declaration cannot be placed as a child; rendering nothing"
  return w.nodeOf v

/-! ## Attributes -/

namespace World

/-- The text that a style property has now; an observable without text declares nothing. -/
def styleText? (w : World) : StyleValue → Option String
  | .text s => some s
  | .observable c => (w.text? (w.current c)).filter fun s => !s.isEmpty

/-- A style as it is written now. -/
def styleCss (w : World) (style : Style) : String :=
  "; ".intercalate (style.filterMap fun (key, value) =>
    (w.styleText? value).map fun s => Text.stylePropertyName key ++ ": " ++ s)

/-- The text that an attribute has now. -/
def attributeText? (w : World) : AttributeValue → Option String
  | .text s => some s
  | .observable c => w.text? (w.current c)
  | .list items => some (" ".intercalate items)
  | .style style => some (w.styleCss style)
  | .ref _ => none

/-- The flavour of an observable by name. -/
def flavourName (w : World) (c : CellId) : String := (w.cell c).flavour.name

end World

end LivePage
