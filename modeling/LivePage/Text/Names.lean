/-!
# Names in markup and style sheets

Which elements never have a closing tag, and how a style key in camel case is written as a
property name.
-/

namespace LivePage.Text

/-- The elements that have no closing tag. -/
def voidTags : List String :=
  ["area", "base", "br", "col", "embed", "hr", "img", "input", "link", "meta", "source", "track",
    "wbr"]

/-- Is this the name of an element that has no closing tag? Names are compared exactly. -/
def isVoidTag (tag : String) : Bool := voidTags.contains tag

/-- A capital becomes a dash and its small letter; only the letters A to Z are capitals here. -/
def kebabChar (c : Char) : List Char :=
  if c.isUpper then ['-', c.toLower] else [c]

/-- The property name of a style key: kebab case, with a dash in front of a vendor name. -/
def stylePropertyName (key : String) : String :=
  let name := key.toList.flatMap kebabChar
  String.ofList (if "webkit".toList.isPrefixOf key.toList then '-' :: name else name)

/-- Attribute names that are written differently in markup and on the page. -/
def pageAttributeName : String → String
  | "className" => "class"
  | "htmlFor" => "for"
  | name => name

end LivePage.Text
