/-!
# Binary floating point numbers as ratios

A finite floating point number is `m * 2 ^ q` with a whole number `m`. `Format` says which `m` and
`q` a format has, and `Format.nearest` rounds a ratio of whole numbers to the nearest of them, an
exact tie to the even `m`. Everything is exact arithmetic on natural numbers; only `Parts.toFloat`
and `Parts.ofFloat` touch the machine type, through its bits.
-/

namespace LivePage.Number

/-- A binary format: how many bits `m` has, and the least and greatest `q`. -/
structure Format where
  precision : Nat
  least : Int
  greatest : Int

/-- The format of `Float`. -/
def Format.double : Format := ⟨53, -1074, 971⟩

/-- The format with half the width. -/
def Format.single : Format := ⟨24, -149, 104⟩

/-- `2 ^ k`. -/
def pow2 (k : Nat) : Nat := Nat.pow 2 k

/-- `2 ^ k` for a possibly negative `k`, as a numerator and a denominator. -/
def powerOfTwo (k : Int) : Nat × Nat := (pow2 k.toNat, pow2 (-k).toNat)

/-- The quotient rounded to the nearest whole number, an exact tie to the even one. -/
def roundHalfEven (num den : Nat) : Nat :=
  let floor := num / den
  let twice := 2 * (num % den)
  if twice < den then floor
  else if den < twice then floor + 1
  else if floor % 2 = 0 then floor else floor + 1

/-- The position of the highest set bit, counted from one; `0` for zero. -/
def bitLength (n : Nat) : Nat := if n = 0 then 0 else n.log2 + 1

/-- The number of a format that is nearest to `num / den`, as `m` and `q`, or nothing if every
number of the format is too small. -/
def Format.nearest (f : Format) (num den : Nat) : Option (Nat × Int) :=
  if num = 0 then some (0, f.least) else
    let guess : Int := (bitLength num : Int) - bitLength den - f.precision
    let scaled (q : Int) : Nat :=
      let (up, down) := powerOfTwo q
      roundHalfEven (num * down) (den * up)
    let q := max f.least guess
    let (m, q) : Nat × Int :=
      if scaled q < pow2 f.precision then (scaled q, q) else (scaled (q + 1), q + 1)
    let (m, q) : Nat × Int := if m = pow2 f.precision then (m / 2, q + 1) else (m, q)
    if f.greatest < q then none else some (m, q)

/-- A floating point number taken apart. -/
inductive Parts where
  | nan
  | infinite (negative : Bool)
  | finite (negative : Bool) (m : Nat) (q : Int)

/-- The parts of a machine number. -/
def Parts.ofFloat (x : Float) : Parts :=
  let bits := x.toBits.toNat
  let negative : Bool := pow2 63 ≤ bits
  let exponent : Nat := bits / pow2 52 % pow2 11
  let fraction : Nat := bits % pow2 52
  if exponent = 2047 then if fraction = 0 then .infinite negative else .nan
  else if exponent = 0 then .finite negative fraction (-1074)
  else .finite negative (pow2 52 + fraction) ((exponent : Int) - 1075)

/-- The machine number nearest to `±num / den`. -/
def ratioToFloat (negative : Bool) (num den : Nat) : Float :=
  let sign := if negative then pow2 63 else 0
  let magnitude :=
    match Format.double.nearest num den with
    | none => 2047 * pow2 52
    | some (m, q) => if m < pow2 52 then m else (q + 1075).toNat * pow2 52 + (m - pow2 52)
  Float.ofBits (UInt64.ofNat (sign + magnitude))

/-- The machine number with the given parts, rounded if the format has no such number. -/
def Parts.toFloat : Parts → Float
  | .nan => Float.ofBits 0x7FF8000000000000
  | .infinite negative => Float.ofBits (if negative then 0xFFF0000000000000 else 0x7FF0000000000000)
  | .finite negative m q =>
    let (up, down) := powerOfTwo q
    ratioToFloat negative (m * up) down

end LivePage.Number
