import StackMachine.Binary64.Fixed
import StackMachine.Program
import StackMachine.Text.Quoted

/-!
# Listings

A program as readable text: its symbols, its literal pool, and the code of the top level and of
every function, one instruction a line.
-/

namespace StackMachine

/-- A literal as listings show it. -/
def Literal.listed : Literal → String
  | .null => "null"
  | .bool b => if b then "true" else "false"
  | .number x => x.fixedText
  | .text s => Text.quoted s

namespace Listing

/-- A line that starts with a right-aligned index. -/
def indexedLine (i : Nat) (content : String) : String :=
  Text.padLeft 4 ' ' (Text.decimal i) ++ "  " ++ content ++ "\n"

/-- What an instruction's operand refers to, where it refers to a symbol or a literal. -/
def note? (p : Program) (i : Instruction) : Option String :=
  match i.op with
  | .load | .declare | .assign => some ((p.symbols[i.operand.toNat]?).getD "<invalid symbol>")
  | .loadConst =>
    some (((p.literal? i.operand.toNat).map Literal.listed).getD "<invalid literal>")
  | _ => none

/-- An instruction without its position: the mnemonic, and the operand if the opcode has one. -/
def instructionText (i : Instruction) : String :=
  if 0 < i.op.width then i.op.mnemonic ++ " " ++ Text.decimal i.operand.toNat
  else i.op.mnemonic

/-- The line of the instruction at an index. -/
def instructionLine (p : Program) (index : Nat) (i : Instruction) : String :=
  let note := match note? p i with
    | some text => "  ; " ++ text
    | none => ""
  Text.padLeft 4 '0' (Text.decimal index) ++ " " ++ instructionText i ++ note ++ "\n"

/-- Lines made from the elements of an array and their indexes. -/
def lines {α : Type} (line : Nat → α → String) (xs : Array α) : String :=
  String.join (xs.toList.zipIdx.map fun (x, i) => line i x)

/-- A parameter: its symbol, or its index if there is no such symbol. -/
def parameter (p : Program) (index : UInt16) : String :=
  (p.symbols[index.toNat]?).getD ("#" ++ Text.decimal index.toNat)

/-- A function: a line with its parameters, and its code. -/
def function (p : Program) (index : Nat) (f : FunctionDef) : String :=
  let params := String.intercalate ", " (f.params.toList.map (parameter p))
  "---- F " ++ Text.decimal index ++ " (" ++ params ++ ") ----\n" ++
    lines (instructionLine p) f.code

/-- The listing of a program. -/
def render (p : Program) : String :=
  "==== Symbols ====\n" ++ lines indexedLine p.symbols ++
  "==== Literals ====\n" ++ lines (fun i l => indexedLine i l.listed) p.pool ++
  "==== Instructions ====\n" ++ lines (instructionLine p) p.code ++
  "==== Functions ====\n" ++ lines (function p) p.functions

/-- The sizes of a program's tables in one line.  Only the program's own literals count. -/
def summary (p : Program) : String :=
  s!"{Text.decimal p.symbols.size} symbols, {Text.decimal p.literals.size} literals, " ++
  s!"{Text.decimal p.instructionCount} instructions, " ++
  s!"{Text.decimal p.functions.size} functions"

end Listing

end StackMachine
