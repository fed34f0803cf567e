import StackMachine.Binary64
import StackMachine.Text.Decimal

/-!
# Fixed-point text of numbers

A number is shown with at most eight decimal places: the exact value is rounded to the nearest
multiple of `10 ^ -8`, ties to even, and written without superfluous zeros.
-/

namespace StackMachine.Binary64

/-- The number of decimal places kept. -/
def places : Nat := 8

/-- The magnitude `m · 2 ^ e` in units of `10 ^ -places`, rounded to nearest, ties to even. -/
def fixedUnits (m : Nat) (e : Int) : Nat := roundScaled (m * 10 ^ places) 1 (-e)

/-- A list of digits without the zeros at its end. -/
def dropTrailingZeros (digits : List Char) : List Char :=
  (digits.reverse.dropWhile (· == '0')).reverse

/-- The digits after the point, without the zeros at the end. -/
def fractionDigits (units : Nat) : List Char :=
  dropTrailingZeros (Text.padLeft places '0' (Text.decimal (units % 10 ^ places))).toList

/-- A magnitude given in units of `10 ^ -places`: the whole part, then a point and the other
    digits unless there are none. -/
def fixedMagnitude (units : Nat) : String :=
  let whole := Text.decimal (units / 10 ^ places)
  match fractionDigits units with
  | [] => whole
  | digits => whole ++ "." ++ String.ofList digits

/-- The text of a number.  The sign is written whenever the sign bit is set, also in front of
    zero. -/
def fixedText (x : Binary64) : String :=
  match x.datum with
  | .nan => "NaN"
  | .infinite negative => if negative then "-Inf" else "+Inf"
  | .finite negative m e =>
    (if negative then "-" else "") ++ fixedMagnitude (fixedUnits m e)

end StackMachine.Binary64
