import LivePage.Number.Binary

/-!
# Reading numbers

Whole numbers with an optional sign, and decimals with an optional sign, point and exponent, as
they are written in a program. A decimal is read exactly and then rounded once.
-/

namespace LivePage.Number

/-- The value of a list of decimal digits, if it holds digits only. -/
def readDigits? (cs : List Char) : Option Nat :=
  cs.foldl (fun acc c => do
    let n ← acc
    if c.isDigit then some (10 * n + (c.toNat - '0'.toNat)) else none) (some 0)

/-- A leading sign and what follows it. -/
def splitSign : List Char → Bool × List Char
  | '-' :: r => (true, r)
  | '+' :: r => (false, r)
  | r => (false, r)

/-- A whole number with an optional sign. -/
def readInt? (s : String) : Option Int := do
  let (negative, digits) := splitSign s.toList
  if digits.isEmpty then none
  else
    let n ← readDigits? digits
    return if negative then -(n : Int) else n

/-- The part of a list before the first element that satisfies `p`, and the part after it. -/
def cutAt {α : Type} (p : α → Bool) (xs : List α) : List α × Option (List α) :=
  match xs.dropWhile (fun x => !p x) with
  | [] => (xs, none)
  | _ :: after => (xs.takeWhile (fun x => !p x), some after)

/-- `±num / den` for a decimal with an optional point and exponent. Exponents that lie far beyond
every format are cut off, which leaves the rounded result as it is. -/
def readRatio? (cs : List Char) : Option (Bool × Nat × Nat) := do
  let (negative, cs) := splitSign cs
  let (mantissa, exponent) := cutAt (fun c => c = 'e' || c = 'E') cs
  let exponent ← match exponent with
    | none => some 0
    | some e => readInt? (String.ofList e)
  let (whole, places) := cutAt (· = '.') mantissa
  let places := places.getD []
  if whole.isEmpty && places.isEmpty then none
  else
    let digits ← readDigits? (whole ++ places)
    let limit : Int := 2000 + whole.length + places.length
    let exponent := max (-limit) (min limit exponent) - places.length
    return (negative, digits * Nat.pow 10 exponent.toNat, Nat.pow 10 (-exponent).toNat)

/-- The names of the values that are not ratios; letter case does not matter. -/
def readName? (cs : List Char) : Option Parts :=
  let (negative, name) := splitSign (cs.map Char.toLower)
  if name = "inf".toList ∨ name = "infinity".toList then some (.infinite negative)
  else if name = "nan".toList then some .nan
  else none

/-- A floating point number, rounded to `format`. -/
def readFloat? (format : Format) (s : String) : Option Float :=
  match readName? s.toList with
  | some parts => some parts.toFloat
  | none => do
    let (negative, num, den) ← readRatio? s.toList
    match format.nearest num den with
    | none => return (Parts.infinite negative).toFloat
    | some (m, q) => return (Parts.finite negative m q).toFloat

end LivePage.Number
