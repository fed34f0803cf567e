import StackMachine.Machine.Step

/-!
# Runs

A run takes steps until the machine halts or fails, and flushes the output at the end.  A run that
has not ended after a given number of steps is a result of its own, from which it can be taken up
again.
-/

namespace StackMachine

/-- What a number of steps leads to. -/
inductive Outcome
  /-- The run ended well. -/
  | finished (s : State)
  /-- The run failed. -/
  | failed (f : Failure) (s : State)
  /-- The run has not ended. -/
  | unfinished (s : State)

namespace Outcome

/-- The state that an outcome leaves behind. -/
def state : Outcome → State
  | .finished s => s
  | .failed _ s => s
  | .unfinished s => s

/-- The failure of a run, if it failed. -/
def failure? : Outcome → Option Failure
  | .failed f _ => some f
  | _ => none

end Outcome

namespace State

/-- The end of a run that went well so far: the output is flushed. -/
def flush (s : State) : Outcome :=
  match s.sink.flushFailure with
  | some reason => .failed ⟨.output reason, s.stackTrace⟩ s
  | none => .finished s

/-- At most `fuel` steps. -/
def steps (p : Program) (cfg : Settings) : (fuel : Nat) → State → Outcome
  | 0, s => .unfinished s
  | fuel + 1, s => match s.step p cfg with
    | .running s => steps p cfg fuel s
    | .halted s => s.flush
    | .failed f s => .failed ⟨f, s.stackTrace⟩ s

/-- A run of a program from its start, of at most `fuel` steps. -/
def run (p : Program) (cfg : Settings) (fuel : Nat) (s : State) : Outcome :=
  s.reset.steps p cfg fuel

end State

end StackMachine
