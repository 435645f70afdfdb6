import LivePage.Number.Written

/-!
# Scalars

The values that are shown as text.
-/

namespace LivePage

/-- A value with a text of its own. -/
inductive Scalar where
  | str (s : String)
  | int (n : Int64)
  | uint (n : UInt64)
  /-- A whole number of up to 128 bits. -/
  | wide (n : Int)
  | float (x : Float)
  | bool (b : Bool)
deriving Repr, Inhabited

namespace Scalar

/-- The text of a scalar. -/
def text : Scalar → String
  | str s => s
  | int n => toString n.toInt
  | uint n => toString n.toNat
  | wide n => toString n
  | float x => Number.Style.plain.write x
  | bool b => if b then "true" else "false"

/-- Are these scalars of one sort and equal? A float that is not a number equals nothing. -/
def same : Scalar → Scalar → Bool
  | str a, str b => a == b
  | int a, int b => a == b
  | uint a, uint b => a == b
  | wide a, wide b => a == b
  | float a, float b => a == b
  | bool a, bool b => a == b
  | _, _ => false

/-- Is the first scalar less than the second? Only numbers of one sort and texts are ordered. -/
def less : Scalar → Scalar → Bool
  | int a, int b => a < b
  | float a, float b => a < b
  | str a, str b => a < b
  | _, _ => false

end Scalar

end LivePage
