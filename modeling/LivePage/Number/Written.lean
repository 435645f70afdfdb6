import LivePage.Number.Shortest

/-!
# How numbers are written

Values are written positionally, however large or small they are. Inspections show the point even
where the number is whole, and pass to an exponent beyond sixteen places.
-/

namespace LivePage.Number

/-- How a floating point number is written. -/
structure Style where
  /-- Is a whole number followed by a zero place? -/
  keepsPoint : Bool
  /-- Is a number with leading place `10 ^ e` written positionally? -/
  positional : Int → Bool

/-- Values are written with as few places as possible, and never with an exponent. -/
def Style.plain : Style := ⟨false, fun _ => true⟩

/-- Inspections always show a point, and an exponent outside `1e-4` to `1e16`. -/
def Style.inspected : Style := ⟨true, fun e => -5 < e && e < 16⟩

/-- The digits of `d` around a point. -/
def positionalDigits (keepsPoint : Bool) (d : Decimal) : String :=
  let digits := (Nat.toDigits 10 d.digits)
  if 0 ≤ d.exponent then
    String.ofList (digits ++ List.replicate d.exponent.toNat '0') ++ if keepsPoint then ".0" else ""
  else
    let places := (-d.exponent).toNat
    let padded := List.replicate (places + 1 - digits.length) '0' ++ digits
    let whole := padded.length - places
    String.ofList (padded.take whole) ++ "." ++ String.ofList (padded.drop whole)

/-- The digits of `d` with one of them before the point, and an exponent. -/
def scientificDigits (d : Decimal) : String :=
  let digits := (Nat.toDigits 10 d.digits)
  let exponent := d.exponent + digits.length - 1
  let tail := digits.drop 1
  String.ofList (digits.take 1) ++ (if tail.isEmpty then "" else "." ++ String.ofList tail) ++ "e"
    ++ toString exponent

/-- A floating point number in a given style. -/
def Style.write (s : Style) (x : Float) : String :=
  match Parts.ofFloat x with
  | .nan => "NaN"
  | .infinite negative => if negative then "-inf" else "inf"
  | .finite negative m q =>
    let magnitude :=
      if m = 0 then if s.keepsPoint then "0.0" else "0"
      else
        let d := shortest m q
        let leading := d.exponent + (Nat.toDigits 10 d.digits).length - 1
        if s.positional leading then positionalDigits s.keepsPoint d else scientificDigits d
    if negative then "-" ++ magnitude else magnitude

end LivePage.Number
