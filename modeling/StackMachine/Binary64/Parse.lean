import StackMachine.Binary64
import StackMachine.Text.Blank

/-!
# Reading numbers from text

A numeral is an optional sign and then one of: `inf`, `infinity` or `nan` in any case; or digits
with at most one point, at least one digit in all, and an optional exponent that has at least
one digit.  The value is the number nearest to the numeral's exact value, ties to even, where of
an exponent of `2 ^ 16` and more only the first digits count (`exponentValue`).
-/

namespace StackMachine.Binary64

/-- The value of a decimal digit. -/
def digitValue (c : Char) : Nat := c.toNat - '0'.toNat

/-- A number with one more decimal digit behind it. -/
def appendDigit (n : Nat) (c : Char) : Nat := 10 * n + digitValue c

/-- The value of a list of decimal digits.  A long list is cut into halves, so that the numbers
    that are multiplied are about as long as each other. -/
def digitsValue (digits : List Char) : Nat :=
  if digits.length ≤ 32 then digits.foldl appendDigit 0
  else
    let half := digits.length / 2
    digitsValue (digits.take half) * 10 ^ (digits.length - half) + digitsValue (digits.drop half)
termination_by digits.length
decreasing_by
  · simp only [List.length_take]
    omega
  · simp only [List.length_drop]
    omega

theorem foldl_appendDigit (n : Nat) (digits : List Char) :
    digits.foldl appendDigit n = n * 10 ^ digits.length + digits.foldl appendDigit 0 := by
  induction digits generalizing n with
  | nil => simp
  | cons c digits ih =>
    rw [List.foldl_cons, ih, List.foldl_cons, ih (appendDigit 0 c)]
    simp only [appendDigit, List.length_cons, Nat.pow_succ, Nat.add_mul, Nat.mul_zero,
      Nat.zero_add]
    rw [Nat.mul_comm 10 n, Nat.mul_assoc, Nat.mul_comm 10 (10 ^ digits.length), Nat.add_assoc]

/-- The value is that of the digits read one after the other. -/
theorem digitsValue_eq_foldl (digits : List Char) :
    digitsValue digits = digits.foldl appendDigit 0 := by
  fun_induction digitsValue digits with
  | case1 => rfl
  | case2 digits _ half ihTake ihDrop =>
    have hlength : (digits.drop half).length = digits.length - half := List.length_drop
    rw [ihTake, ihDrop, ← hlength, ← foldl_appendDigit, ← List.foldl_append,
      List.take_append_drop]

/-- The value of an exponent's digits.  Once it has reached `2 ^ 16`, the digits that follow no
    longer count. -/
def exponentValue (digits : List Char) : Nat :=
  digits.foldl (fun n c => if n < 2 ^ 16 then appendDigit n c else n) 0

/-- A numeral's sign, true for minus, and what follows it. -/
def splitSign : List Char → Bool × List Char
  | '-' :: rest => (true, rest)
  | '+' :: rest => (false, rest)
  | rest => (false, rest)

/-- The exponent at the end of a numeral: nothing, or a mark, an optional sign and digits. -/
def readExponent? : List Char → Option Int
  | [] => some 0
  | mark :: rest =>
    if mark == 'e' || mark == 'E' then
      let (negative, digits) := splitSign rest
      if digits.isEmpty || !digits.all Char.isDigit then none
      else some (withSign negative (exponentValue digits))
    else none

/-- The number nearest to `± d · 10 ^ k`, where `d` is the value of the digits.  The exponent of
    the first significant digit decides far overflow and underflow beforehand, so that no huge
    power of ten is ever formed. -/
def ofDecimal (negative : Bool) (digits : List Char) (k : Int) : Binary64 :=
  let significant := digits.dropWhile (· == '0')
  let top := k + significant.length
  if significant.isEmpty || top < -330 then ofPattern negative 0
  else if 310 < top then infinity negative
  else ofRatio negative (digitsValue significant * 10 ^ k.toNat) (10 ^ (-k).toNat)

/-- An unsigned numeral of digits, with an optional point and exponent. -/
def readDigits? (negative : Bool) (cs : List Char) : Option Binary64 :=
  let whole := cs.takeWhile Char.isDigit
  let rest := cs.dropWhile Char.isDigit
  let (fraction, rest) := match rest with
    | '.' :: after => (after.takeWhile Char.isDigit, after.dropWhile Char.isDigit)
    | _ => ([], rest)
  let digits := whole ++ fraction
  if digits.isEmpty then none
  else (readExponent? rest).map fun e => ofDecimal negative digits (e - fraction.length)

/-- The number a numeral stands for, or nothing if the characters are no numeral. -/
def read? (cs : List Char) : Option Binary64 :=
  let (negative, rest) := splitSign cs
  let word := rest.map Char.toLower
  if word = ['i', 'n', 'f'] || word = ['i', 'n', 'f', 'i', 'n', 'i', 't', 'y'] then
    some (infinity negative)
  else if word = ['n', 'a', 'n'] then some nan
  else readDigits? negative rest

/-- The number that text holds between any white space. -/
def parse? (text : String) : Option Binary64 := read? (Text.trimBlank text.toList)

end StackMachine.Binary64
