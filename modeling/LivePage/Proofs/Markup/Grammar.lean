import LivePage.Node.OfMarkup
import Mathlib.Data.List.Dedup

/-!
# The grammar of templates without insertions

Which texts are markup, and the nodes that they describe. A document is blanks and elements; the
content of an element is runs of text and elements; a tag holds blanks, names that stand alone and
names with a quoted value. Nothing here mentions the reader: `IsDocument s nodes` says what the text
means, letter by letter.
-/

namespace LivePage.Markup.Grammar

open LivePage.Text

/-! ## Names, blanks and literals -/

/-- Letters, digits and dashes only. -/
def AllNameParts (s : List Char) : Prop := ∀ c ∈ s, isNamePart c = true

def IsName (s : List Char) : Prop := s ≠ [] ∧ AllNameParts s

def AllBlank (s : List Char) : Prop := ∀ c ∈ s, isBlank c = true

/-- A run in which every double quote stands right behind a backslash; a backslash takes the next
character with it, whatever that is. -/
inductive Quotable : List Char → Prop where
  | nil : Quotable []
  | plain {c : Char} {s : List Char} : c ≠ '"' → c ≠ '\\' → Quotable s → Quotable (c :: s)
  | escaped {c : Char} {s : List Char} : Quotable s → Quotable ('\\' :: c :: s)

/-- The run between two double quotes, and the text that it stands for. -/
def Literal (s : List Char) (text : String) : Prop :=
  Quotable s ∧ ∃ chars, decodeLiteral s = some chars ∧ text = String.ofList chars

/-! ## Tags -/

/-- What a tag holds behind its name, and the attributes written there in order. A name that stands
alone has to end where the next thing begins. -/
inductive Attributes : List Char → List (String × String) → Prop where
  | nil : Attributes [] []
  | blank {c : Char} {s : List Char} {written : List (String × String)} :
      isBlank c = true → Attributes s written → Attributes (c :: s) written
  | alone {name s : List Char} {written : List (String × String)} :
      IsName name → (∀ c ∈ s.head?, isNamePart c = false) → Attributes s written →
      Attributes (name ++ s) ((String.ofList name, "true") :: written)
  | valued {name before after run s : List Char} {value : String}
      {written : List (String × String)} :
      IsName name → AllBlank before → AllBlank after → Literal run value →
      Attributes s written →
      Attributes (name ++ before ++ '=' :: after ++ '"' :: run ++ '"' :: s)
        ((String.ofList name, value) :: written)

/-- Between the name of a tag and its end stands nothing, or a blank and then attributes. -/
inductive Inside : List Char → List (String × String) → Prop where
  | nothing : Inside [] []
  | attributes {c : Char} {s : List Char} {written : List (String × String)} :
      isBlank c = true → Attributes s written → Inside (c :: s) written

/-- The attributes of an element: each name has the place where it was written first and the value
that was written last. -/
def keptAttributes (written : List (String × String)) : Entries AttributeValue :=
  (written.map Prod.fst).reverse.dedup.reverse.map fun name =>
    (name, .text ((written.reverse.lookup name).getD ""))

/-! ## Elements -/

/-- The text node of a run, with its entities decoded; blanks alone make no node. -/
def textNodes (run : List Char) : List Node :=
  if run.all isBlank then [] else [.text (String.ofList (unescapeChars run)) none]

/-- The element that a tag with this name opens. -/
def elementNode (name : List Char) (written : List (String × String)) (children : List Node) :
    Node :=
  .element (String.ofList name) (keptAttributes written) [] children none

mutual

/-- An element as written, and its node. -/
inductive IsElement : List Char → Node → Prop where
  | selfClosed {name inside : List Char} {written : List (String × String)} :
      IsName name → Inside inside written →
      IsElement ('<' :: (name ++ inside ++ ['/', '>'])) (elementNode name written [])
  | closed {name inside content before after : List Char} {written : List (String × String)}
      {children : List Node} :
      IsName name → Inside inside written → IsContent content children →
      AllBlank before → AllBlank after →
      IsElement
        ('<' :: (name ++ inside ++ '>' :: (content ++
          '<' :: '/' :: (before ++ name ++ after ++ ['>']))))
        (elementNode name written children)

/-- What stands between an opening tag and its closing tag, and the nodes there. Every run of text
reaches from one tag to the next. -/
inductive IsContent : List Char → List Node → Prop where
  | text {run : List Char} : '<' ∉ run → IsContent run (textNodes run)
  | element {run e s : List Char} {n : Node} {nodes : List Node} :
      '<' ∉ run → IsElement e n → IsContent s nodes →
      IsContent (run ++ (e ++ s)) (textNodes run ++ n :: nodes)

end

/-- A whole text, and its nodes outside of every tag. -/
inductive IsDocument : List Char → List Node → Prop where
  | nil : IsDocument [] []
  | blank {c : Char} {s : List Char} {nodes : List Node} :
      isBlank c = true → IsDocument s nodes → IsDocument (c :: s) nodes
  | element {e s : List Char} {n : Node} {nodes : List Node} :
      IsElement e n → IsDocument s nodes → IsDocument (e ++ s) (n :: nodes)

/-- A single node stands for itself, several or none for the fragment of them. -/
def whole : List Node → Node
  | [n] => n
  | nodes => .fragment nodes none

end LivePage.Markup.Grammar
