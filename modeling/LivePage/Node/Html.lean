import LivePage.World.Request
import LivePage.Text.Escaped
import LivePage.Text.Names

/-!
# Nodes as markup

The markup of a node without a page. A driven node shows what its observable holds now; render
functions are called once; listeners and references have no written form.
-/

namespace LivePage

open LivePage.Text

/-- An attribute as the opening tag shows it. References are left out, and so is an observable
whose text is empty or missing. -/
def World.writtenAttribute (w : World) (name : String) (value : AttributeValue) : String :=
  match value, w.attributeText? value with
  | .ref _, _ | _, none => ""
  | .observable _, some s => if s.isEmpty then "" else " " ++ name ++ "=\"" ++ escape s ++ "\""
  | _, some s => " " ++ name ++ "=\"" ++ escape s ++ "\""

/-- The opening tag of an element, up to its closing bracket. -/
def World.openingTag (w : World) (tag : String) (attributes : Entries AttributeValue) : String :=
  "<" ++ tag ++ String.join (attributes.map fun (name, value) => w.writtenAttribute name value)

/-- The markup of what an observable holds now. -/
def currentHtml (call : Respond) (c : CellId) : Run String := do
  let n ← childNode ((← get).current c)
  call (.html n)

namespace Node

mutual

/-- The markup of a node. -/
def html (call : Respond) : Node → Run String
  | .empty => return ""
  | .text data none => return escape data
  | .text _ (some c) => currentHtml call c
  | .element tag attributes _ children none => do
    let opening := (← get).openingTag tag attributes
    if isVoidTag tag && children.isEmpty then return opening ++ " />"
    else
      let inner ← htmlAll call children
      return opening ++ ">" ++ inner ++ "</" ++ tag ++ ">"
  | .element tag attributes _ _ (some c) => do
    let opening := (← get).openingTag tag attributes
    let inner ← currentHtml call c
    return opening ++ ">" ++ inner ++ "</" ++ tag ++ ">"
  | .fragment children none => htmlAll call children
  | .fragment _ (some c) => currentHtml call c
  | .deferred r => do
    let v ← call (.render r)
    if v.kind = .function then return ""
    else
      let n ← childNode v
      call (.html n)

/-- The markup of nodes in order. -/
def htmlAll (call : Respond) : List Node → Run String
  | [] => return ""
  | n :: rest => do
    let first ← html call n
    let others ← htmlAll call rest
    return first ++ others

end

end Node

end LivePage
