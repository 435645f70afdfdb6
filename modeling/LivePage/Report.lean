/-!
# Reports

What a script answers and what its programs log: nothing, truth values, counts, texts, lists, and
objects with named parts.
-/

namespace LivePage

/-- A report. -/
inductive Report where
  | null
  | bool (b : Bool)
  | count (n : Nat)
  | text (s : String)
  | list (items : List Report)
  | object (parts : List (String × Report))
deriving Repr, Inhabited

namespace Report

/-- A text, or nothing. -/
def ofText? : Option String → Report
  | some s => text s
  | none => null

/-- A list of texts. -/
def texts (items : List String) : Report := list (items.map text)

/-- Named things as pairs of a name and a report. -/
def pairs (items : List (String × Report)) : Report :=
  list (items.map fun (name, r) => list [text name, r])

/-- A fault: its kind and its wording. -/
def fault (kind message : String) : Report :=
  object [("error", text kind), ("message", text message)]

end Report

end LivePage
