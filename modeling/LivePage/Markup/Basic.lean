import LivePage.Markup.Error

/-!
# Markup trees

What a template says before its insertions are put in: elements with their attributes, runs of
text, component tags, and the places of the insertions, each by its number.
-/

namespace LivePage.Markup

/-- A part of a quoted attribute value. -/
inductive Piece where
  | literal (text : String)
  | inserted (k : Nat)
deriving DecidableEq, Repr

/-- An attribute as written: a quoted value, or an insertion in place of one. -/
inductive Attribute where
  | quoted (name : String) (value : List Piece)
  | inserted (name : String) (k : Nat)
deriving DecidableEq, Repr

/-- The attribute of a name that stands alone. -/
def Attribute.valueless (name : String) : Attribute := .quoted name [.literal "true"]

/-- A part of a template. -/
inductive Markup where
  | text (data : String)
  | inserted (k : Nat)
  | element (tag : String) (attributes : List Attribute) (children : List Markup)
  /-- The component inserted at `k`; without children when its tag closes itself. -/
  | component (k : Nat) (children : Option (List Markup))

/-- What the reader has to know about an inserted value. -/
structure Insertion where
  /-- The name of its kind, for messages. -/
  variant : String
  /-- Can it stand inside a quoted value? -/
  hasText : Bool
  /-- For a component: its name, and whether it is the component itself and not an instance. -/
  component? : Option (String × Bool)
deriving DecidableEq, Repr

/-- A template that cannot be read: the first fault, and what had been read before it. -/
structure Fault where
  error : ParseError
  read : List Markup

end LivePage.Markup
