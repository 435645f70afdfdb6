import LivePage.Page.Element
import LivePage.Text.Escaped
import LivePage.Text.Names

/-!
# Pages as text

How a node of a page is written as markup, and the text that its tree shows. Inline style
properties are written as one attribute unless the element has an attribute of that name. An
element without a closing tag is written as one tag while it has no children.
-/

namespace LivePage.Page

open LivePage.Text

/-- An attribute with its value between quotes. -/
def writtenAttribute (name value : String) : String :=
  " " ++ name ++ "=\"" ++ escape value ++ "\""

/-- Declarations of style properties, as the value of an attribute. -/
def writtenStyle (style : Entries String) : String :=
  "; ".intercalate (style.map fun (property, value) => property ++ ": " ++ value)

/-- The attributes of an element as its opening tag shows them. -/
def writtenAttributes (e : Element) : String :=
  let attributes := String.join (e.attributes.map fun (name, value) => writtenAttribute name value)
  if e.style.isEmpty || Entries.has "style" e.attributes then attributes
  else attributes ++ writtenAttribute "style" (writtenStyle e.style)

/-- A node and its tree as markup, down to `depth` levels. -/
def outerWithin (p : Page) : (depth : Nat) → (i : Nat) → String
  | 0, _ => ""
  | depth + 1, i =>
    let slot := p.slot i
    let inner := String.join (slot.children.map (outerWithin p depth))
    match slot.content with
    | .text data => escape data
    | .comment data => "<!--" ++ data ++ "-->"
    | .fragment => inner
    | .element e =>
      let opening := "<" ++ e.tag ++ writtenAttributes e
      if isVoidTag e.tag && slot.children.isEmpty then opening ++ " />"
      else opening ++ ">" ++ inner ++ "</" ++ e.tag ++ ">"

/-- A node and its tree as markup. No tree is deeper than the arena. -/
def outerHtml (p : Page) (i : Nat) : String := p.outerWithin (p.slots.size + 1) i

/-- The children of a node as markup. -/
def innerHtml (p : Page) (i : Nat) : String :=
  String.join ((p.slot i).children.map p.outerHtml)

/-- The texts of a tree in order, down to `depth` levels. -/
def textWithin (p : Page) : (depth : Nat) → (i : Nat) → String
  | 0, _ => ""
  | depth + 1, i =>
    match (p.slot i).content with
    | .text data => data
    | .comment _ => ""
    | .element _ | .fragment => String.join ((p.slot i).children.map (textWithin p depth))

/-- All text of a tree. -/
def textContent (p : Page) (i : Nat) : String := p.textWithin (p.slots.size + 1) i

/-- A short description of a node. -/
def describe (p : Page) (i : Nat) : String :=
  match (p.slot i).content with
  | .element e => "<" ++ e.tag ++ ">"
  | .text data => "#text:" ++ data
  | .comment data => "#comment:" ++ data
  | .fragment => "#fragment"

end LivePage.Page
