/-!
# Bodies of quoted literals

A quoted attribute value follows the rules of a JSON string: a backslash starts one of eight short
escapes or a four-digit hexadecimal one, code points beyond the first plane are written as two
such escapes, and control characters have to be escaped. `decodeLiteral` gives the text that such
a body stands for, or nothing when the body breaks a rule.
-/

namespace LivePage.Text

/-- The value of a hexadecimal digit of either case. -/
def hexDigit? (c : Char) : Option Nat :=
  if '0' ≤ c ∧ c ≤ '9' then some (c.toNat - '0'.toNat)
  else if 'a' ≤ c ∧ c ≤ 'f' then some (c.toNat - 'a'.toNat + 10)
  else if 'A' ≤ c ∧ c ≤ 'F' then some (c.toNat - 'A'.toNat + 10)
  else none

/-- The number written by four hexadecimal digits. -/
def hexUnit? (a b c d : Char) : Option Nat := do
  return (((← hexDigit? a) * 16 + (← hexDigit? b)) * 16 + (← hexDigit? c)) * 16 + (← hexDigit? d)

/-- Does the unit open a pair that stands for one code point beyond the first plane? -/
def isHighSurrogate (n : Nat) : Bool := 0xD800 ≤ n && n ≤ 0xDBFF

/-- Does the unit close such a pair? -/
def isLowSurrogate (n : Nat) : Bool := 0xDC00 ≤ n && n ≤ 0xDFFF

/-- The character that a pair of units stands for. -/
def surrogatePair (hi lo : Nat) : Char :=
  Char.ofNat (0x10000 + (hi - 0xD800) * 0x400 + (lo - 0xDC00))

/-- The character of a short escape. -/
def shortEscape? : Char → Option Char
  | '"' => some '"'
  | '\\' => some '\\'
  | '/' => some '/'
  | 'b' => some '\x08'
  | 'f' => some '\x0c'
  | 'n' => some '\n'
  | 'r' => some '\r'
  | 't' => some '\t'
  | _ => none

/-- The text that the body of a quoted literal stands for. A lone half of a pair stands for
nothing, whichever half it is. -/
def decodeLiteral : List Char → Option (List Char)
  | [] => some []
  | '\\' :: 'u' :: a :: b :: c :: d :: r => do
    let unit ← hexUnit? a b c d
    if isLowSurrogate unit then none
    else if isHighSurrogate unit then
      match r with
      | '\\' :: 'u' :: e :: f :: g :: h :: r' => do
        let low ← hexUnit? e f g h
        if isLowSurrogate low then return surrogatePair unit low :: (← decodeLiteral r') else none
      | _ => none
    else return Char.ofNat unit :: (← decodeLiteral r)
  | '\\' :: e :: r => do return (← shortEscape? e) :: (← decodeLiteral r)
  | c :: r =>
    if c = '\\' ∨ c = '"' ∨ c.toNat < 0x20 then none else do return c :: (← decodeLiteral r)

end LivePage.Text
