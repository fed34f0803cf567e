import StackMachine.Listing
import StackMachine.Machine.Call
import StackMachine.Machine.Operator
import StackMachine.Machine.Property

/-!
# Steps

What each instruction does, and a step of the machine: the next instruction, or a return where a
chunk has no more.
-/

namespace StackMachine

/-- A literal as a value. -/
def Literal.value : Literal → Value
  | .null => .null
  | .bool b => .bool b
  | .number x => .number x
  | .text s => .text s

namespace Exec

/-- The symbol at an index. -/
def symbol (p : Program) (index : Nat) : Exec String :=
  orFault (.invalidSymbol index) p.symbols[index]?

/-- Writes the top operands on a line, the lowest first, with blanks between them. -/
def print (count : Nat) : Exec Unit := do
  let vs ← popN count
  fun s =>
    let line := String.intercalate " " (vs.map s.store.text) ++ "\n"
    match s.sink.write line.toUTF8 with
    | (true, sink) => .ok () { s with sink }
    | (false, sink) => .error (.output sink.refusal) { s with sink }

/-- Executes an instruction. -/
def instruction (p : Program) (cfg : Settings) (i : Instruction) : Exec Flow :=
  let operand := i.operand.toNat
  match i.op with
  | .loadConst => do
    let l ← orFault (.invalidLiteral operand) (p.literal? operand)
    push l.value
    return .next
  | .load => do
    let name ← symbol p operand
    let found ← read fun s => s.store.lookup? s.scope name
    push (← orFault (.undefinedVariable name) found)
    return .next
  | .declare => do
    let name ← symbol p operand
    let v ← peek
    change fun s => { s with store := s.store.define s.scope name v }
    return .next
  | .assign => do
    let name ← symbol p operand
    let v ← peek
    let scope ← read fun s => s.scope
    if ← updateStore fun st => st.assign scope name v then return .next
    else fault (.undefinedVariable name)
  | .pop => do
    let _ ← pop
    return .next
  | .dup => do
    push (← peek)
    return .next
  | .jump => return .jump operand
  | .jumpTruthy => do
    let v ← pop
    return if v.truthy then .jump operand else .next
  | .jumpFalsy => do
    let v ← pop
    return if v.truthy then .next else .jump operand
  | .call => call p cfg operand false
  | .callWith => call p cfg operand true
  | .function =>
    if operand < p.functions.size then do
      let scope ← read fun s => s.scope
      let c ← updateStore fun st => st.newClosure operand scope
      push (.closure c)
      return .next
    else fault (.invalidFunction operand)
  | .ret => leave .null
  | .retValue => do
    let v ← pop
    leave v
  | .enterScope => do
    let scope ← read fun s => s.scope
    let fresh ← updateStore fun st => st.newScope (some scope)
    change fun s => { s with scope := fresh }
    return .next
  | .leaveScope => do
    let outer ← read fun s => s.store.enclosing? s.scope
    let scope ← orFault .scopeUnderflow outer
    change fun s => { s with scope }
    return .next
  | .get => do
    getProperty false
    return .next
  | .set => do
    setProperty
    return .next
  | .getWith => do
    getProperty true
    return .next
  | .neg | .not => do
    negation
    return .next
  | .print => do
    print operand
    return .next
  | op => do
    binaryOperator op
    return .next

end Exec

namespace State

/-- The next instruction, if the active chunk has one more. -/
def next? (p : Program) (s : State) : Option Instruction := (p.chunk s.active)[s.ip]?

/-- The lines that the log shows for an instruction about to be executed: its place, and the
    operands from the bottom up. -/
def logLines (s : State) (i : Instruction) : String :=
  let chunk := match s.active with
    | some index => "F" ++ Text.decimal index
    | none => "TOP"
  let operands := String.intercalate ", " (s.operands.items.map s.store.text)
  chunk ++ " IP=" ++ Text.padLeft 4 '0' (Text.decimal s.ip) ++ " " ++ Listing.instructionText i ++
    "\n  stack: [" ++ operands ++ "]\n"

/-- The state with an instruction logged, if the settings ask for it. -/
def logged (cfg : Settings) (i : Instruction) (s : State) : State :=
  if cfg.tracing then
    let lines := s.logLines i
    { s with log := s.log ++ lines }
  else s

end State

/-- What a step of the machine leads to. -/
inductive Progress
  | running (s : State)
  | halted (s : State)
  | failed (f : Fault) (s : State)

namespace Progress

/-- What the outcome of an operation leads to. -/
def of : EStateM.Result Fault State Flow → Progress
  | .ok .next s => .running { s with ip := s.ip + 1 }
  | .ok (.jump target) s => .running { s with ip := target }
  | .ok .transfer s => .running s
  | .ok .halt s => .halted s
  | .error f s => .failed f s

end Progress

namespace State

/-- A step of the machine.  Running off the end of a chunk returns null, and is not logged. -/
def step (p : Program) (cfg : Settings) (s : State) : Progress :=
  match s.next? p with
  | some i => Progress.of (Exec.instruction p cfg i (s.logged cfg i))
  | none => Progress.of (Exec.leave .null s)

end State

end StackMachine
