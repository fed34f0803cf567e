import StackMachine.Machine.State

/-!
# Calls and returns

A call of a closure runs its function in a fresh scope with operands of its own; a call of a
native gives its result at once.  A return hands one value to the caller.
-/

namespace StackMachine

/-- How execution goes on after an instruction. -/
inductive Flow
  /-- With the instruction that follows. -/
  | next
  /-- With the instruction at an index of the same chunk. -/
  | jump (target : Nat)
  /-- Where a call or a return has put the machine. -/
  | transfer
  /-- Not at all. -/
  | halt
  deriving DecidableEq, Repr

/-- The names of parameters, paired with arguments.  Parameters without an argument and arguments
    without a parameter are left out, and so never looked up. -/
def bindings (p : Program) : List UInt16 → List Value → Except Fault (List (String × Value))
  | param :: params, arg :: args => match p.symbols[param.toNat]? with
    | none => .error (.invalidSymbol param.toNat)
    | some name => match bindings p params args with
      | .ok rest => .ok ((name, arg) :: rest)
      | .error f => .error f
  | _, _ => .ok []

/-- What a call binds besides its arguments: the closure itself and the call site, if any. -/
def callBindings (callee : ClosureRef) (site : Option Value) : List (String × Value) :=
  ("self", .closure callee) :: match site with
    | some v => [("this", v)]
    | none => []

namespace Exec

/-- Enters a closure.  Arguments are bound first, so that a parameter named like the closure or the
    call site gives way to these. -/
def enter (p : Program) (cfg : Settings) (callee : ClosureRef) (site : Option Value)
    (args : List Value) : Exec Flow := fun s =>
  if cfg.maxCallDepth ≤ s.frames.size then .error (.callDepthExceeded cfg.maxCallDepth) s
  else match s.store.closures[callee]? with
    | none => .error (.notCallable Kind.function.name) s
    | some closure => match p.functions[closure.function]? with
      | none => .error (.invalidFunction closure.function) s
      | some function => match bindings p function.params.toList args with
        | .error f => .error f s
        | .ok bound =>
          match s.store.newScope (some closure.scope) with
          | (scope, store) =>
            let store := (bound ++ callBindings callee site).foldl
              (fun st (name, v) => st.define scope name v) store
            .ok .transfer { s with
              ip := 0
              active := some closure.function
              scope
              operands := .empty
              frames := s.frames.push ⟨s.active, s.ip + 1, s.scope⟩
              suspended := s.suspended.push s.operands
              store }

/-- Leaves the active call with a value for the caller; at the top level the run ends. -/
def leave (v : Value) : Exec Flow := fun s =>
  match s.frames.pop? with
  | none => .ok .halt s
  | some (frame, frames) => match s.suspended.pop? with
    | none => .error .stackUnderflow { s with frames }
    | some (operands, suspended) =>
      .ok .transfer { s with
        ip := frame.returnIp
        active := frame.caller
        scope := frame.scope
        operands := operands.push v
        frames
        suspended }

/-- Calls a native and pushes its result.  A native that takes a fixed number of arguments is
    called with no other. -/
def callNative (cfg : Settings) (native : Native) (site : Option Value) (args : List Value) :
    Exec Flow :=
  if native.accepts args.length then do
    let v ← act (fun e => .native native.name e.message)
      (Library.callWith cfg.host native (site.getD .null) args)
    push v
    return .next
  else fault (.wrongArity native.name (native.arity.getD 0) args.length)

/-- Calls a value: a closure, a native, or an object that holds a closure to be called. -/
def callValue (p : Program) (cfg : Settings) (callee : Value) (site : Option Value)
    (args : List Value) : Exec Flow :=
  match callee with
  | .closure c => enter p cfg c site args
  | .native n => do
    match ← read fun s => s.store.natives[n]? with
    | some native => callNative cfg native site args
    | none => fault (.notCallable Kind.function.name)
  | .object o => do
    match ← read fun s => s.store.function? o with
    | some c => enter p cfg c site args
    | none => fault (.notCallable Kind.object.name)
  | other => fault (.notCallable other.typeName)

/-- Pops arguments, a callee and, if there is one, a call site, and calls. -/
def call (p : Program) (cfg : Settings) (count : Nat) (withSite : Bool) : Exec Flow := do
  let args ← popN count
  let callee ← pop
  if withSite then
    let site ← pop
    callValue p cfg callee (some site) args
  else callValue p cfg callee none args

end Exec

end StackMachine
