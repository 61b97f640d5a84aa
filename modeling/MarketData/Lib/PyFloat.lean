import Mathlib.Data.Rat.Defs
import Mathlib.Algebra.Order.Ring.Unbundled.Rat
import Mathlib.Algebra.Order.Field.Rat

/-!
# MarketData.Lib.PyFloat

Binary floating-point values as the program observes them: a finite number, one of the two
infinities, or NaN. Finite arithmetic is **exact** (its rounding, its overflow and the sign of zero
are not modelled; the conversion of an integer rounds); infinities and NaN propagate and compare as
IEEE 754 prescribes, in particular every comparison with NaN is false.
-/

namespace MarketData

/-- A Python `float`, with exact finite values. -/
inductive PyFloat
  | finite (q : ℚ)
  | inf (negative : Bool)
  | nan
  deriving DecidableEq

namespace PyFloat

/-- `math.isfinite`. -/
def isFinite : PyFloat → Bool
  | finite _ => true
  | _ => false

/-- `-x`. -/
def neg : PyFloat → PyFloat
  | finite q => finite (-q)
  | inf s => inf (!s)
  | nan => nan

/-- `x + y`. -/
def add : PyFloat → PyFloat → PyFloat
  | finite p, finite q => finite (p + q)
  | inf s, inf t => if s = t then inf s else nan
  | inf s, finite _ => inf s
  | finite _, inf t => inf t
  | _, _ => nan

/-- `x - y`. -/
def sub (x y : PyFloat) : PyFloat := add x (neg y)

/-- `x * y` for a non-negative finite constant `y`. -/
def scale (x : PyFloat) (y : ℚ) : PyFloat :=
  match x with
  | finite p => finite (p * y)
  | inf s => if y = 0 then nan else inf s
  | nan => nan

/-- `x / y` for a non-zero `y`; the caller has excluded `ZeroDivisionError`. -/
def div : PyFloat → PyFloat → PyFloat
  | finite p, finite q => finite (p / q)
  | finite _, inf _ => finite 0
  | inf s, finite q => inf (if q < 0 then !s else s)
  | _, _ => nan

/-- `abs(x)`. -/
def abs : PyFloat → PyFloat
  | finite q => finite |q|
  | inf _ => inf false
  | nan => nan

/-- `x < y`. -/
def lt : PyFloat → PyFloat → Bool
  | finite p, finite q => decide (p < q)
  | finite _, inf t => !t
  | inf s, finite _ => s
  | inf s, inf t => s && !t
  | _, _ => false

/-- `x == 0`. -/
def isZero : PyFloat → Bool
  | finite q => decide (q = 0)
  | _ => false

end PyFloat

end MarketData
