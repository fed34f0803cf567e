import StackMachine.Binary64
import StackMachine.Opcode

/-!
# Programs

A program is what the machine runs: a table of symbols, a pool of literals, the code of the top
level and a table of functions.  The literal pool always starts with `false`, `true` and the
null literal; the literals of the program itself follow these three.
-/

namespace StackMachine

/-- One instruction.  Every opcode can carry an operand here, also one whose width is zero. -/
structure Instruction where
  op : Opcode
  operand : UInt16 := 0
  deriving DecidableEq, Repr, Inhabited

/-- A constant of a program. -/
inductive Literal
  | null
  | bool (b : Bool)
  | number (x : Binary64)
  | text (s : String)
  deriving DecidableEq, Repr, Inhabited

/-- A function: the symbols of its parameters and its code. -/
structure FunctionDef where
  params : Array UInt16
  code : Array Instruction
  deriving DecidableEq, Repr, Inhabited

/-- A program. -/
structure Program where
  symbols : Array String
  /-- The program's own literals, which follow the three fixed ones in the pool. -/
  literals : Array Literal
  code : Array Instruction
  functions : Array FunctionDef
  deriving DecidableEq, Repr, Inhabited

namespace Program

/-- The literals that every pool starts with. -/
def fixedLiterals : Array Literal := #[.bool false, .bool true, .null]

/-- The whole literal pool. -/
def pool (p : Program) : Array Literal := fixedLiterals ++ p.literals

/-- The literal at an index of the pool. -/
def literal? (p : Program) (i : Nat) : Option Literal :=
  if i < fixedLiterals.size then fixedLiterals[i]? else p.literals[i - fixedLiterals.size]?

/-- Reading the pool is `literal?`. -/
theorem getElem?_pool (p : Program) (i : Nat) : p.pool[i]? = p.literal? i := by
  unfold pool literal?
  split
  · rename_i h
    rw [Array.getElem?_append_left h]
  · rename_i h
    rw [Array.getElem?_append_right (Nat.le_of_not_lt h)]

/-- The code of the top level, or of a function; an absent function has no code. -/
def chunk (p : Program) : Option Nat → Array Instruction
  | none => p.code
  | some i => match p.functions[i]? with
    | some f => f.code
    | none => #[]

/-- The number of instructions in all chunks. -/
def instructionCount (p : Program) : Nat :=
  p.functions.foldl (fun n f => n + f.code.size) p.code.size

end Program

namespace Literal

/-- Equality of literals as constants: numbers compare as numbers, so a NaN differs from
    itself. -/
def same : Literal → Literal → Bool
  | .null, .null => true
  | .bool a, .bool b => a == b
  | .number x, .number y => x.equal y
  | .text s, .text t => s == t
  | _, _ => false

end Literal

/-- Equality of programs where number literals compare as numbers. -/
def Program.same (p q : Program) : Bool :=
  p.symbols == q.symbols && p.code == q.code && p.functions == q.functions &&
    p.literals.size == q.literals.size &&
    (p.literals.toList.zip q.literals.toList).all fun (a, b) => a.same b

end StackMachine
