import StackMachine.Artifact.Format

/-!
# Writing artifacts

`Artifact.encode` writes a program as an artifact, or gives the first reason in writing order why
the program has none.
-/

namespace StackMachine.Artifact

/-- A symbol: its length and its bytes.  A length equal to the end mark cannot be written. -/
def encodeSymbol (symbol : String) : Except EncodeError (List UInt8) :=
  let bytes := Text.utf8 symbol
  if bytes.length < endMark.toNat then .ok (UInt8.ofNat bytes.length :: bytes)
  else .error (.symbolTooLong symbol)

/-- A literal: its tag and its payload. -/
def encodeLiteral : Literal → Except EncodeError (List UInt8)
  | .number x => .ok (numberTag :: littleEndian 8 x.bits.toNat)
  | .text s =>
    let bytes := Text.utf8 s
    if bytes.length < 2 ^ 32 then .ok (textTag :: (littleEndian 4 bytes.length ++ bytes))
    else .error (.textTooLong bytes.length)
  | .null => .error .unstorableLiteral
  | .bool _ => .error .unstorableLiteral

/-- An instruction: its opcode's byte and as many operand bytes as the opcode has. -/
def encodeInstruction (i : Instruction) : Except EncodeError (List UInt8) :=
  if i.op.width = 1 ∧ 255 < i.operand.toNat then
    .error (.operandTooLarge i.operand.toNat i.op)
  else .ok (i.op.byte :: littleEndian i.op.width i.operand.toNat)

/-- A list of entries one after the other. -/
def encodeAll {α : Type} (entry : α → Except EncodeError (List UInt8)) (xs : Array α) :
    Except EncodeError (List UInt8) := do
  let parts ← xs.toList.mapM entry
  return parts.flatten

/-- Code and its end mark. -/
def encodeCode (code : Array Instruction) : Except EncodeError (List UInt8) := do
  return (← encodeAll encodeInstruction code) ++ [endMark]

/-- A function: its parameter count, its parameters and its code. -/
def encodeFunction (f : FunctionDef) : Except EncodeError (List UInt8) :=
  if 255 < f.params.size then .error (.tooManyParameters f.params.size)
  else do
    let params := f.params.toList.flatMap fun p => littleEndian 2 p.toNat
    let code ← encodeCode f.code
    return UInt8.ofNat f.params.size :: (params ++ code)

/-- The artifact of a program, or the first problem in writing order: symbols, literals, the
    top-level code, and then each function's parameter count and code. -/
def encode (p : Program) : Except EncodeError (List UInt8) := do
  let symbols ← encodeAll encodeSymbol p.symbols
  let literals ← encodeAll encodeLiteral p.literals
  let code ← encodeCode p.code
  let functions ← encodeAll encodeFunction p.functions
  return littleEndian 2 magic ++ (symbols ++ [endMark]) ++ (literals ++ [endMark]) ++ code ++
    functions

end StackMachine.Artifact
