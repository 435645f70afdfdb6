import LivePage.Number.Binary

/-!
# The shortest decimal that reads back

`shortest m q` finds the decimal with the fewest digits among those that round to `m * 2 ^ q`, and
of these the nearest one. It walks the decimal grids from coarse to fine and tests on each grid
the two neighbours of the value.
-/

namespace LivePage.Number

/-- A decimal `digits * 10 ^ exponent`. -/
structure Decimal where
  digits : Nat
  exponent : Int
deriving Repr, DecidableEq

/-- The numbers that round to a value, in quarters of its last binary place: the value itself and
the two ends, which belong to the interval when `closed` holds. -/
structure Interval where
  low : Nat
  value : Nat
  high : Nat
  closed : Bool

/-- The numbers that round to `m * 2 ^ q`, in units of `2 ^ (q - 2)`. Just below a power of two the
numbers lie twice as dense, so the lower half of the interval is half as long. -/
def Interval.around (m : Nat) (q : Int) : Interval where
  low := if m = pow2 52 ∧ Format.double.least < q then 4 * m - 1 else 4 * m - 2
  value := 4 * m
  high := 4 * m + 2
  closed := m % 2 == 0

/-- Is `num / den`, in the units of the interval, a number that rounds to its value? -/
def Interval.holds (i : Interval) (num den : Nat) : Bool :=
  if i.closed then i.low * den ≤ num && num ≤ i.high * den
  else i.low * den < num && num < i.high * den

/-- The point of the grid of step `10 ^ t` that is nearest to the value of `i`, if a point of the
grid rounds to it; `unit` is the exponent of two of the interval's unit. -/
def gridPoint (i : Interval) (unit t : Int) : Option Nat :=
  -- a grid point `j` is `j * 10 ^ t / 2 ^ unit` units
  let num := Nat.pow 10 t.toNat * pow2 (-unit).toNat
  let den := Nat.pow 10 (-t).toNat * pow2 unit.toNat
  let below := i.value * den / num
  let above := below + 1
  let belowFits := 0 < below && i.holds (below * num) den
  let aboveFits := i.holds (above * num) den
  if belowFits && aboveFits then
    if i.value * den - below * num < above * num - i.value * den then some below else some above
  else if belowFits then some below
  else if aboveFits then some above
  else none

/-- The first grid at or below `10 ^ t` with a point that rounds to the value. -/
def firstGrid (i : Interval) (unit : Int) : (steps : Nat) → (t : Int) → Option Decimal
  | 0, _ => none
  | steps + 1, t =>
    match gridPoint i unit t with
    | some digits => some ⟨digits, t⟩
    | none => firstGrid i unit steps (t - 1)

/-- The shortest decimal that rounds to `m * 2 ^ q`, for a positive `m`. The first grid is coarser
than the value, and eighteen digits always suffice. -/
def shortest (m : Nat) (q : Int) : Decimal :=
  let top := (((bitLength m : Int) + q) * 30103).fdiv 100000 + 2
  (firstGrid (.around m q) (q - 2) 24 top).getD ⟨0, 0⟩

end LivePage.Number
