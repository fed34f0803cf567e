/-!
# Binary64 numbers

Every number the machine computes with is an IEEE 754 binary64 number, held as its 64 bits.
`Binary64.datum` reads a bit pattern as an exact value `± m · 2^e`, an infinity or a NaN;
truncation, flooring, rounding and the integer remainder are defined on that exact value.
The four arithmetic operations and the comparisons are those of `Float`.
-/

namespace StackMachine

-- Powers are those of the core library in every module, also in one that imports more.
attribute [instance(20000), default_instance 20000] instPowNat

/-- A binary64 number, given by its bit pattern.  Two patterns may compare equal as numbers
    (the two zeros) and one pattern may differ from itself as a number (a NaN). -/
structure Binary64 where
  bits : UInt64
  deriving DecidableEq, Repr, Inhabited

namespace Binary64

/-- What a bit pattern stands for. -/
inductive Datum
  /-- No number. -/
  | nan
  /-- An infinity of the given sign. -/
  | infinite (negative : Bool)
  /-- The exact value `± mantissa · 2 ^ exponent`; zeros have a sign too. -/
  | finite (negative : Bool) (mantissa : Nat) (exponent : Int)
  deriving DecidableEq, Repr

/-- Whether the sign bit is set. -/
def signBit (x : Binary64) : Bool := 2 ^ 63 ≤ x.bits.toNat

/-- The exponent field, eleven bits wide. -/
def exponentField (x : Binary64) : Nat := x.bits.toNat / 2 ^ 52 % 2 ^ 11

/-- The fraction field, fifty-two bits wide. -/
def fractionField (x : Binary64) : Nat := x.bits.toNat % 2 ^ 52

/-- The value a bit pattern stands for: exponent field 0 holds zeros and subnormal numbers,
    exponent field 2047 infinities and NaNs, all others have an implicit leading bit. -/
def datum (x : Binary64) : Datum :=
  if x.exponentField = 2047 then
    if x.fractionField = 0 then .infinite x.signBit else .nan
  else if x.exponentField = 0 then
    .finite x.signBit x.fractionField (-1074)
  else
    .finite x.signBit (x.fractionField + 2 ^ 52) ((x.exponentField : Int) - 1075)

/-- Whether the pattern is a NaN. -/
def isNaN (x : Binary64) : Bool := x.datum == .nan

/-- The largest integer not above `m · 2 ^ e`. -/
def wholePart (m : Nat) (e : Int) : Nat :=
  if 0 ≤ e then m * 2 ^ e.toNat else m / 2 ^ (-e).toNat

/-- A magnitude with a sign put in front. -/
def withSign (negative : Bool) (n : Nat) : Int := if negative then -(n : Int) else n

/-- The exact value truncated toward zero; infinities and NaNs have none. -/
def truncate? (x : Binary64) : Option Int :=
  match x.datum with
  | .finite negative m e => some (withSign negative (wholePart m e))
  | _ => none

/-- The exact value truncated toward zero, when that is a natural number.  A negative fraction
    above `-1` truncates to zero. -/
def index? (x : Binary64) : Option Nat :=
  match x.truncate? with
  | some i => if 0 ≤ i then some i.toNat else none
  | none => none

/-! ## Rounding -/

/-- The integer nearest to `num / den`; a half goes to the even neighbour. -/
def roundDiv (num den : Nat) : Nat :=
  let quotient := num / den
  let rest := num % den
  if 2 * rest < den then quotient
  else if den < 2 * rest then quotient + 1
  else if quotient % 2 = 0 then quotient else quotient + 1

/-- The integer nearest to `num / den / 2 ^ q`; a half goes to the even neighbour. -/
def roundScaled (num den : Nat) (q : Int) : Nat :=
  if 0 ≤ q then roundDiv num (den * 2 ^ q.toNat) else roundDiv (num * 2 ^ (-q).toNat) den

/-- Whether `2 ^ e ≤ num / den`. -/
def reaches (num den : Nat) (e : Int) : Bool :=
  if 0 ≤ e then den * 2 ^ e.toNat ≤ num else den ≤ num * 2 ^ (-e).toNat

/-- The binary exponent of a positive quotient: the `e` with `2 ^ e ≤ num / den < 2 ^ (e + 1)`. -/
def binaryExponent (num den : Nat) : Int :=
  let e : Int := (num.log2 : Int) - den.log2
  if reaches num den e then e else e - 1

/-- The pattern of positive infinity, as a number. -/
def infinityPattern : Nat := 2047 * 2 ^ 52

/-- The pattern of the number nearest to `num / den` (ties to even), as a number.  The unit in
    the last place is `2 ^ q`; a mantissa that rounds up to `2 ^ 53` carries into the exponent
    field by itself, and everything beyond the largest finite number is infinity. -/
def nearestPattern (num den : Nat) : Nat :=
  if num = 0 then 0
  else
    let q := max (binaryExponent num den - 52) (-1074)
    min ((q + 1074).toNat * 2 ^ 52 + roundScaled num den q) infinityPattern

/-- The pattern with the given sign and magnitude. -/
def ofPattern (negative : Bool) (magnitude : Nat) : Binary64 :=
  ⟨UInt64.ofNat (if negative then 2 ^ 63 + magnitude else magnitude)⟩

/-- The number nearest to `± num / den`, ties to even.  Zero keeps the sign. -/
def ofRatio (negative : Bool) (num den : Nat) : Binary64 :=
  ofPattern negative (nearestPattern num den)

/-- The number nearest to an integer, ties to even; zero is positive zero. -/
def ofInt (i : Int) : Binary64 := ofRatio (i < 0) i.natAbs 1

/-- The number nearest to a natural number, ties to even. -/
def ofNat (n : Nat) : Binary64 := ofRatio false n 1

/-- The canonical NaN. -/
def nan : Binary64 := ⟨0x7ff8000000000000⟩

/-- The infinity of the given sign. -/
def infinity (negative : Bool) : Binary64 := ofPattern negative infinityPattern

/-! ## Operations -/

/-- The number as a `Float`. -/
def toFloat (x : Binary64) : Float := Float.ofBits x.bits

/-- The number a `Float` holds. -/
def ofFloat (f : Float) : Binary64 := ⟨f.toBits⟩

/-- Sum, rounded to nearest. -/
def add (x y : Binary64) : Binary64 := ofFloat (x.toFloat + y.toFloat)

/-- Difference, rounded to nearest. -/
def sub (x y : Binary64) : Binary64 := ofFloat (x.toFloat - y.toFloat)

/-- Product, rounded to nearest. -/
def mul (x y : Binary64) : Binary64 := ofFloat (x.toFloat * y.toFloat)

/-- Quotient, rounded to nearest; a zero divisor gives an infinity or a NaN. -/
def div (x y : Binary64) : Binary64 := ofFloat (x.toFloat / y.toFloat)

/-- Equality of numbers: the two zeros are equal, a NaN equals nothing. -/
def equal (x y : Binary64) : Bool := x.toFloat == y.toFloat

/-- Strict order of numbers; false when either is a NaN. -/
def less (x y : Binary64) : Bool := x.toFloat < y.toFloat

/-- Order of numbers; false when either is a NaN. -/
def lessEqual (x y : Binary64) : Bool := x.toFloat ≤ y.toFloat

/-- An integer forced into the range of 64-bit signed words. -/
def clampWord (i : Int) : Int := max (-2 ^ 63) (min i (2 ^ 63 - 1))

/-- The number truncated toward zero and forced into the range of 64-bit signed words; a NaN
    counts as zero. -/
def toWord (x : Binary64) : Int :=
  match x.datum with
  | .nan => 0
  | .infinite negative => if negative then -2 ^ 63 else 2 ^ 63 - 1
  | .finite negative m e => clampWord (withSign negative (wholePart m e))

/-- Remainder of the truncated operands, with the sign of the left one; none if the divisor
    truncates to zero.  A zero remainder is positive zero. -/
def remainder? (x y : Binary64) : Option Binary64 :=
  if y.toWord = 0 then none else some (ofInt (x.toWord.tmod y.toWord))

/-- The largest whole number not above `x`.  Zeros keep their sign. -/
def floor (x : Binary64) : Binary64 :=
  match x.datum with
  | .finite negative m e =>
    if 0 ≤ e then x
    else
      let unit := 2 ^ (-e).toNat
      if negative && m % unit != 0 then ofRatio negative (m / unit + 1) 1
      else ofRatio negative (m / unit) 1
  | _ => x

/-- The whole number nearest to `x`, a half going away from zero.  Zeros keep their sign, and
    so does a number that rounds to zero. -/
def round (x : Binary64) : Binary64 :=
  match x.datum with
  | .finite negative m e =>
    if 0 ≤ e then x
    else
      let unit := 2 ^ (-e).toNat
      ofRatio negative ((2 * m + unit) / (2 * unit)) 1
  | _ => x

end Binary64

end StackMachine
