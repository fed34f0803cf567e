import StackMachine.Library.Install
import StackMachine.Machine.Run
import StackMachine.Text.Utf8

/-!
# Sessions

A host's view of a machine: a program with the library at hand, which can be run any number of
times.  Bindings of the global scope and changes of the prototypes last from one run to the next.
-/

namespace StackMachine

/-- A machine that runs a program. -/
structure Session where
  program : Program
  settings : Settings
  state : State

namespace Session

/-- A machine that has not run yet, with the library in its store. -/
def start (p : Program) (clock : Nat → Binary64) (sink : Sink) : Session :=
  ⟨p, {}, State.initial (Library.initialStore clock) sink⟩

/-- Binds a name in the global scope. -/
def define (m : Session) (name : String) (v : Value) : Session :=
  { m with state.store := m.state.store.define Scope.global name v }

/-- The value of a name in the global scope. -/
def global? (m : Session) (name : String) : Option Value :=
  m.state.store.lookup? Scope.global name

/-- Sets the number of calls that may be in progress. -/
def setMaxCallDepth (m : Session) (depth : Nat) : Session :=
  { m with settings.maxCallDepth := depth }

/-- Sets whether instructions are logged. -/
def setTracing (m : Session) (on : Bool) : Session := { m with settings.tracing := on }

/-- Forgets the output so far. -/
def clearOutput (m : Session) : Session := { m with state.sink := m.state.sink.clear }

/-- Runs the program from its start, for at most `fuel` steps. -/
def run (m : Session) (fuel : Nat) : Outcome × Session :=
  let outcome := m.state.run m.program m.settings fuel
  (outcome, { m with state := outcome.state })

/-- The number of operands of the active call. -/
def stackDepth (m : Session) : Nat := m.state.operands.size

/-- The number of calls in progress. -/
def callDepth (m : Session) : Nat := m.state.frames.size

/-- The output so far, as text. -/
def outputText (m : Session) : String := Text.lossy m.state.sink.written.data.toList

end Session

end StackMachine
