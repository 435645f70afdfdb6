import LivePage.Text.Extending
import LivePage.Text.Printable

/-!
# Quoted characters and texts

How messages and inspections show a character or a text: between quotes, with a backslash before
the enclosing quote and before a backslash, short names for the usual controls, and the code
point in hexadecimal for everything that cannot be shown on its own.
-/

namespace LivePage.Text

/-- Lower-case hexadecimal digits of a number, without leading zeros. -/
def hexDigits (n : Nat) : String := String.ofList (Nat.toDigits 16 n)

/-- The shown form of one character between quotes of the kind `quote`. -/
def showChar (quote c : Char) : String :=
  if c = '\x00' then "\\0"
  else if c = '\t' then "\\t"
  else if c = '\r' then "\\r"
  else if c = '\n' then "\\n"
  else if c = '\\' ∨ c = quote then String.ofList ['\\', c]
  else if isExtending c || !isPrintable c then "\\u\x7b" ++ hexDigits c.toNat ++ "\x7d"
  else c.toString

/-- A character between single quotes. -/
def quotedChar (c : Char) : String := "'" ++ showChar '\'' c ++ "'"

/-- A text between double quotes. -/
def quoted (s : String) : String :=
  s.toList.foldl (fun out c => out ++ showChar '"' c) "\"" ++ "\""

end LivePage.Text
