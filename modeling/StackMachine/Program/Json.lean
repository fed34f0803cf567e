import StackMachine.Binary64.Shortest
import StackMachine.Json
import StackMachine.Program

/-!
# Programs as JSON

A program as a JSON document.  Numbers have the fewest digits that read back, always with a
point or an exponent; infinities and NaNs, which JSON lacks, are `null`.
-/

namespace StackMachine

namespace Binary64

/-- Digits laid out around a point, where the first digit counts units of `10 ^ e`: in full for
    `-5 ≤ e < 16`, else with an exponent that has a sign. -/
def layOut (digits : List Char) (e : Int) : List Char :=
  if 0 ≤ e ∧ e < 16 then
    let whole := e.toNat + 1
    let fraction := digits.drop whole
    digits.take whole ++ List.replicate (whole - digits.length) '0' ++ '.' ::
      (if fraction.isEmpty then ['0'] else fraction)
  else if -5 ≤ e ∧ e < 0 then
    '0' :: '.' :: (List.replicate ((-e).toNat - 1) '0' ++ digits)
  else
    let fraction := digits.drop 1
    let sign := if e < 0 then '-' else '+'
    digits.take 1 ++ (if fraction.isEmpty then [] else '.' :: fraction) ++
      'e' :: sign :: Nat.toDigits 10 e.natAbs

/-- The shortest text of a finite number. -/
def shortestText (negative : Bool) (m : Nat) (e : Int) : String :=
  let sign := if negative then "-" else ""
  if m = 0 then sign ++ "0.0"
  else
    let d := shortest m e
    let digits := Nat.toDigits 10 d.digits
    sign ++ String.ofList (layOut digits (d.exponent + digits.length - 1))

/-- A number as JSON. -/
def toJson (x : Binary64) : Json :=
  match x.datum with
  | .finite negative m e => .number (shortestText negative m e)
  | _ => .null

end Binary64

/-- A literal as JSON: an object with its type and, except for null, its value. -/
def Literal.toJson : Literal → Json
  | .null => .object [("type", .string "None")]
  | .bool b => .object [("type", .string "Bool"), ("value", .bool b)]
  | .number x => .object [("type", .string "Number"), ("value", x.toJson)]
  | .text s => .object [("type", .string "Text"), ("value", .string s)]

/-- An instruction as JSON, always with its operand. -/
def Instruction.toJson (i : Instruction) : Json :=
  .object [("op", .string i.op.mnemonic), ("operand", .number (Text.decimal i.operand.toNat))]

/-- Code as JSON. -/
def codeToJson (code : Array Instruction) : Json :=
  .array (code.toList.map Instruction.toJson)

/-- A function as JSON. -/
def FunctionDef.toJson (f : FunctionDef) : Json :=
  .object [
    ("params", .array (f.params.toList.map fun p => .number (Text.decimal p.toNat))),
    ("instructions", codeToJson f.code)]

/-- A program as JSON, with its whole literal pool. -/
def Program.toJson (p : Program) : Json :=
  .object [
    ("symbols", .array (p.symbols.toList.map .string)),
    ("literals", .array (p.pool.toList.map Literal.toJson)),
    ("top_level", codeToJson p.code),
    ("functions", .array (p.functions.toList.map FunctionDef.toJson))]

end StackMachine
