import Mathlib.Algebra.Order.Floor.Ring
import AgentLab.Python.Value

/-!
# Quotients and decimals

`a / b` of integers and the format `.1f`, which the texts of sizes are made with.
-/

namespace AgentLab.Python

/-- `a / b` of integers: the nearest binary64 number. -/
def trueDiv (a : ℤ) (b : ℕ) : Except PyExc ℚ :=
  match PyFloat.ofRat (a / b) with
  | .finite q => .ok q
  | _ => .error .overflowError

/-- The tenths that `f"{q:.1f}"` shows. -/
def tenthsOf (q : ℚ) : ℕ := (roundHalfEven (10 * q)).toNat

/-- A number of tenths, with a decimal point. -/
def decimal (tenths : ℕ) : String := toString (tenths / 10) ++ "." ++ toString (tenths % 10)

/-- `f"{q:.1f}"`, of a number that is not negative. -/
def fixed1 (q : ℚ) : String := decimal (tenthsOf q)

/-- `f"{q:.1f}"` and `f"{q:.2f}"`, with this many digits, of any number. -/
def fixedText (digits : ℕ) (q : ℚ) : String :=
  let n := (roundHalfEven (10 ^ digits * |q|)).toNat
  let rest := toString (n % 10 ^ digits)
  (if q < 0 then "-" else "") ++ toString (n / 10 ^ digits) ++ "." ++
    "".pushn '0' (digits - rest.length) ++ rest

/-- `a - b` of floats. -/
def PyFloat.sub : PyFloat → PyFloat → PyFloat
  | .finite a, .finite b => .ofRat (a - b)
  | .nan, _ | _, .nan | .inf, .inf | .negInf, .negInf => .nan
  | .inf, _ | _, .negInf => .inf
  | .negInf, _ | _, .inf => .negInf

/-- `a <= b` of floats. -/
def PyFloat.le : PyFloat → PyFloat → Bool
  | .finite a, .finite b => a ≤ b
  | .nan, _ | _, .nan => false
  | .negInf, _ | _, .inf => true
  | .inf, _ | _, .negInf => false

end AgentLab.Python
