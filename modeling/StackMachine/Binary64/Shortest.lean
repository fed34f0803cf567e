import StackMachine.Binary64
import StackMachine.Text.Decimal

/-!
# Shortest decimal text of numbers

The shortest decimal that reads back as a given finite number, and of those the nearest one; of
two that are equally near, the one with an even last digit.
For each count of digits the two decimals next to the exact value are tested, in exact integer
arithmetic, against the interval of reals that round to the number.
-/

namespace StackMachine.Binary64

/-- A decimal `digits · 10 ^ exponent`. -/
structure Decimal where
  digits : Nat
  exponent : Int
  deriving DecidableEq, Repr

namespace Decimal

/-- A decimal compared with `n · 2 ^ e`: both sides brought to whole numbers. -/
def scaled (d : Decimal) (n : Nat) (e : Int) : Nat × Nat :=
  let left := d.digits * 10 ^ d.exponent.toNat * 2 ^ (-e).toNat
  let right := n * 2 ^ e.toNat * 10 ^ (-d.exponent).toNat
  (left, right)

/-- Whether a decimal lies between `low · 2 ^ e` and `high · 2 ^ e`, ends included or not. -/
def between (d : Decimal) (low high : Nat) (e : Int) (ends : Bool) : Bool :=
  let (a, l) := d.scaled low e
  let (b, h) := d.scaled high e
  if ends then l ≤ a && b ≤ h else l < a && b < h

/-- The distance of a decimal from `n · 2 ^ e`, in a unit that depends only on the exponents. -/
def distance (d : Decimal) (n : Nat) (e : Int) : Nat :=
  let (a, b) := d.scaled n e
  (a - b) + (b - a)

/-- The decimal without zeros at the end of its digits. -/
def trimmed (d : Decimal) : Decimal :=
  let kept := (Nat.toDigits 10 d.digits).reverse.dropWhile (· == '0')
  let dropped := (Nat.toDigits 10 d.digits).length - kept.length
  ⟨d.digits / 10 ^ dropped, d.exponent + dropped⟩

end Decimal

/-- The decimal exponent of `m · 2 ^ e`: the `k` with `10 ^ k ≤ m · 2 ^ e < 10 ^ (k + 1)`. -/
def decimalExponent (m : Nat) (e : Int) : Int :=
  if 0 ≤ e then
    (Nat.toDigits 10 (m * 2 ^ e.toNat)).length - 1
  else
    -- scaled by a power of ten that makes the whole part positive
    let lift := (-e).toNat
    ((Nat.toDigits 10 (m * 10 ^ lift / 2 ^ lift)).length : Int) - 1 - lift

/-- The largest decimal not above `m · 2 ^ e` whose digits count units of `10 ^ k`. -/
def decimalBelow (m : Nat) (e k : Int) : Decimal :=
  ⟨m * 2 ^ e.toNat * 10 ^ (-k).toNat / (2 ^ (-e).toNat * 10 ^ k.toNat), k⟩

/-- The one of two neighbouring decimals that is nearer to `m · 2 ^ e`; in a tie the one with an
    even last digit. -/
def nearer (m : Nat) (e : Int) (below above : Decimal) : Decimal :=
  let low := below.distance m e
  let high := above.distance m e
  if low < high then below
  else if high < low then above
  else if below.digits % 2 = 0 then below else above

/-- The decimal of `count` digits nearest to `m · 2 ^ e` among those that read back as it. -/
def candidate? (m : Nat) (e : Int) (count : Nat) : Option Decimal :=
  let below := decimalBelow m e (decimalExponent m e - count + 1)
  let above : Decimal := ⟨below.digits + 1, below.exponent⟩
  -- the interval in quarters of the last place; it is narrower below a power of two
  let low := if m = 2 ^ 52 ∧ -1074 < e then 4 * m - 1 else 4 * m - 2
  let fits (d : Decimal) := d.between low (4 * m + 2) (e - 2) (m % 2 == 0)
  match fits below, fits above with
  | true, true => some (nearer m e below above)
  | true, false => some below
  | false, true => some above
  | false, false => none

/-- The shortest decimal that reads back as the positive number `m · 2 ^ e`, nearest first.
    Seventeen digits always suffice. -/
def shortest (m : Nat) (e : Int) : Decimal :=
  let found := (List.range 17).findSome? (fun i => candidate? m e (i + 1))
  (found.getD (decimalBelow m e (decimalExponent m e - 16))).trimmed

end StackMachine.Binary64
