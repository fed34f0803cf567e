import StackMachine.Fault
import StackMachine.Library.Call
import StackMachine.Machine.Sink
import StackMachine.Machine.Stack
import StackMachine.Program
import StackMachine.Store.Scopes

/-!
# Machine states

A machine executes one chunk of code at a time, with a stack of operands and a current scope.  A
call puts the caller's place and scope on a stack of frames and its operands on a stack of
suspended stacks, and a return takes them back.
-/

namespace StackMachine

/-- What a call remembers of its caller. -/
structure Frame where
  /-- The caller's chunk: a function, or nothing for the top level. -/
  caller : Option Nat
  /-- The index of the instruction after the call. -/
  returnIp : Nat
  /-- The caller's scope. -/
  scope : ScopeRef
  deriving DecidableEq, Repr

/-- The index of the call instruction. -/
def Frame.callIp (f : Frame) : Nat := f.returnIp - 1

/-- What a machine does not change while it runs. -/
structure Settings where
  /-- The number of calls that may be in progress. -/
  maxCallDepth : Nat := 4096
  /-- Whether each instruction is logged before it is executed. -/
  tracing : Bool := false
  /-- The functions that the host supplies. -/
  host : Library.Host := .none
  deriving Inhabited

/-- The state of a machine. -/
structure State where
  /-- The index of the next instruction. -/
  ip : Nat
  /-- The chunk that is executed: a function, or nothing for the top level. -/
  active : Option Nat
  /-- The current scope. -/
  scope : ScopeRef
  /-- The operands of the active chunk. -/
  operands : Stack Value
  /-- The callers, the innermost on top. -/
  frames : Stack Frame
  /-- The callers' operands, the innermost on top. -/
  suspended : Stack (Stack Value)
  store : Store
  sink : Sink
  /-- The log of executed instructions. -/
  log : String

namespace State

/-- A machine that has not run yet. -/
def initial (store : Store) (sink : Sink) : State :=
  ⟨0, none, Scope.global, .empty, .empty, .empty, store, sink, ""⟩

/-- The state at the start of a run: store and sink are kept, everything else starts afresh. -/
def reset (s : State) : State := initial s.store s.sink

/-- The places of the calls in progress, innermost first. -/
def stackTrace (s : State) : List CodePoint :=
  ⟨s.active, s.ip⟩ :: s.frames.topDown.map fun f => ⟨f.caller, f.callIp⟩

end State

/-- An operation of the machine: it changes the state and gives something, or fails.  A failing
    operation also leaves a state behind. -/
abbrev Exec := EStateM Fault State

namespace Exec

/-- Fails. -/
def fault {α : Type} (f : Fault) : Exec α := fun s => .error f s

/-- Reads something off the state. -/
def read {α : Type} (f : State → α) : Exec α := fun s => .ok (f s) s

/-- Changes the state. -/
def change (f : State → State) : Exec Unit := fun s => .ok () (f s)

/-- Gives what is there, or fails. -/
def orFault {α : Type} (f : Fault) : Option α → Exec α
  | some a => pure a
  | none => fault f

/-- Pushes an operand. -/
def push (v : Value) : Exec Unit := change fun s => { s with operands := s.operands.push v }

/-- Pops the top operand. -/
def pop : Exec Value := fun s =>
  match s.operands.pop? with
  | some (v, rest) => .ok v { s with operands := rest }
  | none => .error .stackUnderflow s

/-- Pops several operands, which come from the bottom up; pops none if there are too few. -/
def popN (n : Nat) : Exec (List Value) := fun s =>
  match s.operands.popN? n with
  | some (vs, rest) => .ok vs { s with operands := rest }
  | none => .error .stackUnderflow s

/-- The top operand. -/
def peek : Exec Value := fun s =>
  match s.operands.peek? with
  | some v => .ok v s
  | none => .error .stackUnderflow s

/-- Changes the store. -/
def changeStore (f : Store → Store) : Exec Unit :=
  change fun s => { s with store := f s.store }

/-- Changes the store and gives something. -/
def updateStore {α : Type} (f : Store → α × Store) : Exec α := fun s =>
  match f s.store with
  | (a, store) => .ok a { s with store }

/-- Does to the store what a native does. -/
def act {α : Type} (wrap : Library.NativeError → Fault) (action : Library.Action α) : Exec α :=
  fun s => match action s.store with
    | .ok a store => .ok a { s with store }
    | .error e store => .error (wrap e) { s with store }

end Exec

end StackMachine
