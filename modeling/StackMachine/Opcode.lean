/-!
# Opcodes

The instruction set: each opcode with its byte, its mnemonic and the number of operand bytes
that follow it in an artifact.
-/

namespace StackMachine

/-- The operation of an instruction. -/
inductive Opcode
  /-- Push a literal. -/
  | loadConst
  /-- Push the value of a variable. -/
  | load
  /-- Bind a name in the current scope to the top operand. -/
  | declare
  /-- Rebind the nearest binding of a name to the top operand. -/
  | assign
  /-- Drop the top operand. -/
  | pop
  /-- Push the top operand once more. -/
  | dup
  /-- Go on at an instruction index. -/
  | jump
  /-- Pop, and jump if the operand is truthy. -/
  | jumpTruthy
  /-- Pop, and jump if the operand is falsy. -/
  | jumpFalsy
  /-- Call with a number of arguments. -/
  | call
  /-- Call with a number of arguments and a call site. -/
  | callWith
  /-- Push a fresh closure over the current scope. -/
  | function
  /-- Return the null value. -/
  | ret
  /-- Return the top operand. -/
  | retValue
  /-- Enter a fresh scope. -/
  | enterScope
  /-- Go back to the enclosing scope. -/
  | leaveScope
  /-- Read a property. -/
  | get
  /-- Write a property. -/
  | set
  /-- Read a property and keep the container below it. -/
  | getWith
  /-- Sum of numbers, or joined text. -/
  | add
  /-- Difference. -/
  | sub
  /-- Product. -/
  | mul
  /-- Quotient. -/
  | div
  /-- Integer remainder. -/
  | mod
  /-- Whether the operand is falsy. -/
  | neg
  /-- Whether the operand is falsy, as for `neg`. -/
  | not
  /-- Equality. -/
  | eq
  /-- Inequality. -/
  | neq
  /-- Less than. -/
  | lt
  /-- Less than or equal. -/
  | le
  /-- Greater than. -/
  | gt
  /-- Greater than or equal. -/
  | ge
  /-- Print a number of operands on one line. -/
  | print
  deriving DecidableEq, Repr, Inhabited

namespace Opcode

/-- Every opcode, in the order of their bytes. -/
def all : List Opcode :=
  [.loadConst, .load, .declare, .assign, .pop, .dup, .jump, .jumpTruthy, .jumpFalsy, .call,
    .callWith, .function, .ret, .retValue, .enterScope, .leaveScope, .get, .set, .getWith, .add,
    .sub, .mul, .div, .mod, .neg, .not, .eq, .neq, .lt, .le, .gt, .ge, .print]

/-- The byte that stands for an opcode in an artifact. -/
def byte : Opcode → UInt8
  | .loadConst => 0x01
  | .load => 0x02
  | .declare => 0x03
  | .assign => 0x04
  | .pop => 0x05
  | .dup => 0x06
  | .jump => 0x07
  | .jumpTruthy => 0x08
  | .jumpFalsy => 0x09
  | .call => 0x0a
  | .callWith => 0x0b
  | .function => 0x0c
  | .ret => 0x0d
  | .retValue => 0x0e
  | .enterScope => 0x0f
  | .leaveScope => 0x10
  | .get => 0x11
  | .set => 0x12
  | .getWith => 0x13
  | .add => 0x41
  | .sub => 0x42
  | .mul => 0x43
  | .div => 0x44
  | .mod => 0x45
  | .neg => 0x46
  | .not => 0x47
  | .eq => 0x48
  | .neq => 0x49
  | .lt => 0x4a
  | .le => 0x4b
  | .gt => 0x4c
  | .ge => 0x4d
  | .print => 0x4e

/-- The name of an opcode in listings, traces and messages. -/
def mnemonic : Opcode → String
  | .loadConst => "LOADC"
  | .load => "LOAD"
  | .declare => "DECL"
  | .assign => "ASGN"
  | .pop => "POP"
  | .dup => "DUP"
  | .jump => "JMP"
  | .jumpTruthy => "JMPT"
  | .jumpFalsy => "JMPF"
  | .call => "CALL"
  | .callWith => "CALWT"
  | .function => "FUNC"
  | .ret => "RET"
  | .retValue => "RETV"
  | .enterScope => "ENVST"
  | .leaveScope => "ENVED"
  | .get => "GET"
  | .set => "SET"
  | .getWith => "GETWT"
  | .add => "ADD"
  | .sub => "SUB"
  | .mul => "MUL"
  | .div => "DIV"
  | .mod => "MOD"
  | .neg => "NEG"
  | .not => "NOT"
  | .eq => "EQ"
  | .neq => "NEQ"
  | .lt => "LT"
  | .le => "LE"
  | .gt => "GT"
  | .ge => "GE"
  | .print => "PRINT"

/-- The number of operand bytes an opcode has in an artifact. -/
def width : Opcode → Nat
  | .loadConst | .load | .declare | .assign | .jump | .jumpTruthy | .jumpFalsy => 2
  | .call | .callWith | .function | .print => 1
  | _ => 0

/-- The opcode that a byte stands for, if any. -/
def ofByte? (b : UInt8) : Option Opcode := all.find? fun op => op.byte == b

/-- The opcode with a given mnemonic, if any. -/
def ofMnemonic? (name : String) : Option Opcode := all.find? fun op => op.mnemonic == name

/-- The byte of an opcode stands for that opcode alone. -/
@[simp]
theorem ofByte?_byte (op : Opcode) : ofByte? op.byte = some op := by
  cases op <;> decide

/-- A byte that stands for an opcode is that opcode's byte. -/
theorem byte_of_ofByte? {b : UInt8} {op : Opcode} (h : ofByte? b = some op) : op.byte = b := by
  simpa using List.find?_some h

end Opcode

end StackMachine
