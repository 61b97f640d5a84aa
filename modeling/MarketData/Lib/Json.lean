import MarketData.Lib.Dict
import MarketData.Lib.PyFloat
import MarketData.Lib.PyStr
import MarketData.Lib.Rounding

/-!
# MarketData.Lib.Json

JSON values as `json.loads` builds them: integers stay unbounded integers, other
numbers (and the literals `NaN`, `Infinity`, `-Infinity`) are floats, an object keeps
its items in order with no key twice. Also the conversion `float()` of a number, which rounds
an integer to a double, or raises `OverflowError`.
-/

namespace MarketData

/-- The exceptions a conversion of a JSON value can raise. -/
inductive PyError
  | valueError (text : String)
  | overflowError
  deriving Repr, DecidableEq

/-- A decoded JSON value. -/
inductive Json
  | null
  | bool (b : Bool)
  | int (n : Int)
  | float (x : PyFloat)
  | str (s : PyStr)
  | arr (xs : List Json)
  | obj (fields : List (PyStr × Json))

namespace Json

/-- `obj.get(name)`: `none` when the field is absent. -/
def field? (name : PyStr) (fields : List (PyStr × Json)) : Option Json :=
  Dict.lookup name fields

/-- Magnitudes from here on round to `2 ^ 1024`, which no double holds. -/
def floatOverflow : Nat := 2 ^ 1024 - 2 ^ 970

/-- `float(n)` raises: what is left of `n` without its last 970 bits tells. -/
def overflowsFloat (n : Int) : Bool := decide (2 ^ 54 - 1 ≤ n.natAbs >>> 970)

theorem le_shiftRight_iff {m n k : Nat} : m ≤ n >>> k ↔ m * 2 ^ k ≤ n := by
  rw [Nat.shiftRight_eq_div_pow, Nat.le_div_iff_mul_le (Nat.two_pow_pos k)]

theorem overflowsFloat_iff {n : Int} : overflowsFloat n = true ↔ floatOverflow ≤ n.natAbs := by
  have hlimit : floatOverflow = (2 ^ 54 - 1) * 2 ^ 970 := by decide +kernel
  rw [overflowsFloat, decide_eq_true_eq, hlimit]
  exact le_shiftRight_iff

/-- `float(n)` of an integer: the nearest double, of 53 bits. -/
def floatOfInt (n : Int) : Except PyError PyFloat :=
  if overflowsFloat n then .error .overflowError else .ok (.finite (intToBits 53 n))

/-- `int(x)` of a finite float: towards zero. -/
def truncate (q : ℚ) : Int := q.num.tdiv q.den

/-- A string, a finite float, or an integer that `json.dumps` writes out. -/
def Exact (writes : Int → Prop) : Json → Prop
  | .int n => writes n
  | .float x => x.isFinite = true
  | .str _ => True
  | _ => False

end Json

/-- Text that holds JSON, over the type of the text, with what Python's conversions of strings
to numbers make of it. -/
structure JsonText (ρ : Type) where
  /-- `json.loads`; `none` is an exception. -/
  loads : ρ → Option Json
  dumps : Json → ρ
  /-- `float(s)` of a string. -/
  floatOfStr : PyStr → Option PyFloat
  /-- `int(s)` of a string. -/
  intOfStr : PyStr → Option Int

namespace JsonText

variable {ρ : Type} (t : JsonText ρ)

/-- Objects of strings, finite floats and the integers that are written out survive. CPython writes
out those of at most 4300 digits, unless this limit is lifted. -/
def Exact (writes : Int → Prop) : Prop :=
  ∀ fields : List (PyStr × Json), (fields.map Prod.fst).Nodup →
    (∀ p ∈ fields, p.2.Exact writes) → t.loads (t.dumps (.obj fields)) = some (.obj fields)

/-- `float(value)`; `none` is an exception. -/
def toFloat : Json → Option PyFloat
  | .int n => (Json.floatOfInt n).toOption
  | .float x => some x
  | .bool b => some (.finite (if b then 1 else 0))
  | .str s => t.floatOfStr s
  | _ => none

/-- `int(value)`; `none` is an exception. -/
def toInt : Json → Option Int
  | .int n => some n
  | .float (.finite q) => some (Json.truncate q)
  | .bool b => some (if b then 1 else 0)
  | .str s => t.intOfStr s
  | _ => none

end JsonText

end MarketData
