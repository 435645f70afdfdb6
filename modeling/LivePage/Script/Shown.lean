import LivePage.World.View

/-!
# Values and nodes as reports

What a script is told about a value: scalars of the usual sorts as they are, other scalars by
their sort and text, functions by their sort only. Of an observable the report says of what
flavour it is and what it holds now, through a chain of observables that is no longer than their
number.
-/

namespace LivePage

/-- A scalar as a report. -/
def Scalar.report : Scalar → Report
  | .str s => .text s
  | .bool b => .bool b
  | .int n => .object [("i", .text (Scalar.int n).text)]
  | .uint n => .object [("u", .text (Scalar.uint n).text)]
  | .wide n => .object [("big", .text (Scalar.wide n).text)]
  | .float x => .object [("f", .text (Scalar.float x).text)]

namespace World

/-- Is a reference attached to an element? -/
def isAttached (w : World) (c : CellId) : Bool := (w.cell c).held.isPresent

/-- The properties of a style as a report. -/
def styleReport (w : World) (style : Style) : Report :=
  .list (style.map fun (key, value) =>
    .list [.text key, match value with
      | .text s => .text s
      | .observable c =>
        .object [("obs", .text (w.flavourName c)), ("now", Report.ofText? (w.styleText? value))]])

/-- An attribute of a node as a report. -/
def attributeReport (w : World) (value : AttributeValue) : Report :=
  match value with
  | .text s => .text s
  | .observable c =>
    .object [("obs", .text (w.flavourName c)), ("now", Report.ofText? (w.attributeText? value))]
  | .ref c => .object [("ref", .bool (w.isAttached c))]
  | .list items => .object [("list", Report.texts items)]
  | .style style => .object [("style", w.styleReport style)]

/-- The part of a report that says what drives a node. -/
def drivingReport (w : World) (driving : Option CellId) : List (String × Report) :=
  driving.toList.map fun c => ("driven", .text (w.flavourName c))

end World

mutual

/-- A node as a report. -/
def Node.report (w : World) : Node → Report
  | .empty => .object [("t", .text "empty")]
  | .text data driving =>
    .object ([("t", .text "text"), ("data", .text data)] ++ w.drivingReport driving)
  | .deferred _ => .object [("t", .text "deferred")]
  | .fragment children driving =>
    .object ([("t", .text "fragment"), ("children", .list (nodeReports w children))]
      ++ w.drivingReport driving)
  | .element tag attributes listeners children driving =>
    .object ([("t", .text "element"), ("tag", .text tag),
      ("attrs", .pairs (attributes.map fun (name, value) => (name, w.attributeReport value))),
      ("on", Report.texts (listeners.map (·.event))),
      ("children", .list (nodeReports w children))] ++ w.drivingReport driving)

/-- Nodes as reports. -/
def nodeReports (w : World) : List Node → List Report
  | [] => []
  | n :: rest => n.report w :: nodeReports w rest

end

mutual

/-- A value as a report, where `ofCell` reports what an observable holds. -/
def Value.reportWith (w : World) (ofCell : CellId → Report) : Value → Report
  | .empty => .null
  | .scalar s => s.report
  | .list items => .object [("list", Report.texts items)]
  | .observable c => .object [("obs", .text (w.flavourName c)), ("now", ofCell c)]
  | .ref c => .object [("ref", .bool (w.isAttached c))]
  | .node n => .object [("node", n.report w)]
  | .style style =>
    .object [("style", w.styleReport style), ("css", .text (w.styleCss style)),
      ("empty", .bool style.isEmpty)]
  | .handler _ => .object [("fn", .text "event handler")]
  | .render _ => .object [("fn", .text "render function")]
  | .component _ pointer _ =>
    .object [("comp", .text (if pointer then "pointer" else "instance"))]
  | .record fields => .object [("rec", .pairs (fieldReports w ofCell fields))]

/-- The fields of a record with their reports. -/
def fieldReports (w : World) (ofCell : CellId → Report) :
    List (String × Value) → List (String × Report)
  | [] => []
  | (name, v) :: rest => (name, v.reportWith w ofCell) :: fieldReports w ofCell rest

end

namespace World

/-- What an observable holds as a report, through at most `k` observables. -/
def cellReport (w : World) : (k : Nat) → CellId → Report
  | 0, _ => .null
  | k + 1, c => (w.current c).reportWith w (cellReport w k)

/-- A value as a report. -/
def report (w : World) (v : Value) : Report := v.reportWith w (w.cellReport w.cells.size)

end World

end LivePage
