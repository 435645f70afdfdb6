import LivePage.Number.Read
import LivePage.Value.Basic

/-!
# Values from written text

A value can be written as a text of a known sort. Whole numbers up to 64 bits become signed or
unsigned ones, longer ones become wide, and floating point numbers are held at double precision
whatever precision they were read at.
-/

namespace LivePage

open LivePage.Number

/-- The sorts of written values. -/
inductive WrittenType where
  | signed (bits : Nat)
  | unsigned (bits : Nat)
  | wide
  | single
  | double
  | bool
  | char
  | text
  /-- A value that says nothing. -/
  | unit
  /-- A missing value. -/
  | missing
deriving DecidableEq, Repr

/-- A whole number between two bounds, the upper one excluded. -/
def readWithin? (low high : Int) (s : String) : Option Int :=
  (readInt? s).filter fun n => decide (low ≤ n ∧ n < high)

/-- The value that a text of a sort stands for. -/
def WrittenType.read? (s : String) : WrittenType → Option Value
  | signed bits => do
    let n ← readWithin? (-pow2 (bits - 1)) (pow2 (bits - 1)) s
    return .scalar (.int (Int64.ofInt n))
  | unsigned bits => do
    let n ← readWithin? 0 (pow2 bits) s
    return .scalar (.uint (UInt64.ofNat n.toNat))
  | wide => do
    let n ← readWithin? (-pow2 127) (pow2 127) s
    return .scalar (.wide n)
  | single => do return .scalar (.float (← readFloat? .single s))
  | double => do return .scalar (.float (← readFloat? .double s))
  | bool =>
    if s = "true" then some (.bool true) else if s = "false" then some (.bool false) else none
  | char =>
    match s.toList with
    | [c] => some (.str (String.ofList [c]))
    | _ => none
  | text => some (.str s)
  | unit | missing => some .empty

end LivePage
