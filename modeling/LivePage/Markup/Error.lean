import LivePage.Text.Quoted

/-!
# Faults of markup templates

Reading a template stops at the first fault. `ParseError` names its cause, `ParseError.message`
words it.
-/

namespace LivePage.Markup

open LivePage.Text

/-- Why a template cannot be read. -/
inductive ParseError where
  /-- An insertion stands inside a tag name. -/
  | insertionInTagName
  /-- An insertion stands inside an attribute name. -/
  | insertionInAttributeName
  /-- A tag name holds a character other than a letter, a digit or a dash. -/
  | invalidTagCharacter (c : Char)
  /-- An attribute name holds a character other than a letter, a digit or a dash. -/
  | invalidAttributeCharacter (c : Char)
  /-- An attribute value does not open with a double quote. -/
  | expectedQuote
  /-- An equals sign has no attribute name before it. -/
  | expectedAttributeName
  /-- An attribute name is followed by something that is neither a value, a name nor the end. -/
  | expectedEquals (found : Char)
  /-- A self-closing tag or a component's closing tag is malformed. -/
  | expectedClosingSlash
  /-- Text stands outside of every tag. -/
  | expectedOpeningTag (found : Char)
  /-- A closing tag has another name than the tag it closes. -/
  | tagMismatch (start finish : String)
  /-- A backslash stands right before an insertion. -/
  | backslashBeforeInsertion
  /-- The template ends inside a tag or a value. -/
  | unexpectedEnd
  /-- There are not as many segments as the insertions separate. -/
  | segmentCountMismatch (arguments actual : Nat)
  /-- A quoted run breaks the rules of literals. -/
  | invalidStringLiteral (literal : String)
  /-- An insertion inside quotes has no text. -/
  | unstringifiableInsertion (variant : String)
  /-- A component tag has attributes. -/
  | componentAttributes
  /-- A component's closing tag holds something other than the component itself. -/
  | expectedComponentPointer (variant : String)
deriving DecidableEq, Repr

/-- The name of the kind of fault. -/
def ParseError.kind : ParseError → String
  | insertionInTagName => "InsertionInTagName"
  | insertionInAttributeName => "InsertionInAttributeName"
  | invalidTagCharacter _ => "InvalidTagCharacter"
  | invalidAttributeCharacter _ => "InvalidAttributeCharacter"
  | expectedQuote => "ExpectedQuote"
  | expectedAttributeName => "ExpectedAttributeName"
  | expectedEquals _ => "ExpectedEquals"
  | expectedClosingSlash => "ExpectedClosingSlash"
  | expectedOpeningTag _ => "ExpectedOpeningTag"
  | tagMismatch _ _ => "TagMismatch"
  | backslashBeforeInsertion => "BackslashBeforeInsertion"
  | unexpectedEnd => "UnexpectedEnd"
  | segmentCountMismatch _ _ => "SegmentCountMismatch"
  | invalidStringLiteral _ => "InvalidStringLiteral"
  | unstringifiableInsertion _ => "UnstringifiableInsertion"
  | componentAttributes => "ComponentAttributes"
  | expectedComponentPointer _ => "ExpectedComponentPointer"

/-- The wording of a fault. For a literal that breaks the rules it is the run as written. -/
def ParseError.message : ParseError → String
  | insertionInTagName => "insertions are not allowed inside a tag name"
  | insertionInAttributeName => "insertions are not allowed inside an attribute name"
  | invalidTagCharacter c => "invalid character " ++ quotedChar c ++ " in tag name"
  | invalidAttributeCharacter c => "invalid character " ++ quotedChar c ++ " in attribute name"
  | expectedQuote => "expected a double quote to open the attribute value"
  | expectedAttributeName => "expected an attribute name before '='"
  | expectedEquals c => "expected '=' after attribute name, found " ++ quotedChar c
  | expectedClosingSlash => "expected a closing slash sequence"
  | expectedOpeningTag c => "expected an opening tag, found " ++ quotedChar c
  | tagMismatch start finish =>
    "closing tag </" ++ finish ++ "> does not match opening tag <" ++ start ++ ">"
  | backslashBeforeInsertion => "a backslash cannot escape an insertion"
  | unexpectedEnd => "unexpected end of template"
  | segmentCountMismatch arguments actual =>
    "expected " ++ toString (arguments + 1) ++ " literal segments for " ++ toString arguments
      ++ " arguments, got " ++ toString actual
  | invalidStringLiteral literal => literal
  | unstringifiableInsertion variant =>
    "a " ++ variant ++ " cannot be inserted inside a quoted attribute value"
  | componentAttributes => "component tags do not take attributes"
  | expectedComponentPointer variant =>
    "a component closing tag must hold the component itself, found a " ++ variant

end LivePage.Markup
