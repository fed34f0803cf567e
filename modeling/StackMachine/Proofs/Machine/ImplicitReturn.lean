import StackMachine.Proofs.Machine.Comparison

/-!
# Returns at the end of a chunk

To run off the end of a chunk is to return null.  So a program takes the same steps when a return is
written at the end of all its chunks, wherever its jumps lead (`State.step_withReturns`), and a host
that logs no instructions cannot tell whether it is (`Session.views_withReturns`).
-/

namespace StackMachine

/-- The instruction that returns null. -/
def Instruction.returnNull : Instruction := ⟨.ret, 0⟩

/-- The function with a return at the end of its code. -/
def FunctionDef.withReturn (f : FunctionDef) : FunctionDef :=
  { f with code := f.code.push .returnNull }

namespace Program

/-- The program with a return at the end of the top level and of every function. -/
def withReturns (p : Program) : Program :=
  { p with
    code := p.code.push .returnNull
    functions := p.functions.map FunctionDef.withReturn }

theorem functions_withReturns (p : Program) :
    p.withReturns.functions = p.functions.map FunctionDef.withReturn := rfl

theorem sameTables_withReturns (p : Program) : p.SameTables p.withReturns := by
  refine ⟨rfl, rfl, ?_⟩
  rw [functions_withReturns, Array.map_map]
  rfl

/-- A chunk of the program has the return at its end; one that the program lacks is still empty. -/
theorem chunk_withReturns (p : Program) (active : Option Nat) :
    p.withReturns.chunk active = (p.chunk active).push .returnNull ∨
      p.withReturns.chunk active = p.chunk active := by
  cases active with
  | none => exact Or.inl rfl
  | some n =>
    rw [chunk, chunk, functions_withReturns, Array.getElem?_map]
    cases p.functions[n]? with
    | none => exact Or.inr rfl
    | some f => exact Or.inl rfl

end Program

namespace State

variable {p : Program} {cfg : Settings}

/-- The next instruction is the same, or it is a return right behind the end of the chunk. -/
theorem next?_withReturns (p : Program) (s : State) :
    s.next? p.withReturns = s.next? p ∨
      s.next? p = none ∧ s.next? p.withReturns = some .returnNull := by
  rw [next?, next?]
  rcases p.chunk_withReturns s.active with hpush | hsame
  · rw [hpush, Array.getElem?_push]
    by_cases hend : s.ip = (p.chunk s.active).size
    · rw [if_pos hend, hend]
      exact Or.inr ⟨Array.getElem?_eq_none (Nat.le_refl _), rfl⟩
    · rw [if_neg hend]
      exact Or.inl rfl
  · rw [hsame]
    exact Or.inl rfl

/-- A return that is executed and one that takes the place of a missing instruction lead to the
    same state, unless instructions are logged. -/
theorem step_withReturns (hcfg : cfg.tracing = false) (s : State) :
    s.step p.withReturns cfg = s.step p cfg := by
  rcases next?_withReturns p s with hsame | ⟨hnone, hreturn⟩
  · rw [step, step, hsame]
    cases s.next? p with
    | none => rfl
    | some i =>
      dsimp only
      rw [Exec.instruction_congr p.sameTables_withReturns]
  · have hlogged : s.logged cfg .returnNull = s := by
      rw [logged, hcfg]
      rfl
    rw [step, step, hnone, hreturn]
    dsimp only
    rw [hlogged]
    rfl

end State

namespace Session

/-- No sequence of requests to a machine that logs no instructions shows whether its program has a
    return written at the end of every chunk, and the next run goes on for ever with both or with
    neither. -/
theorem views_withReturns (p : Program) (m : Session) (requests : List Request)
    (hm : m.settings.tracing = false) (hrequests : .setTracing true ∉ requests) :
    (m.withProgram p.withReturns).views requests = (m.withProgram p).views requests ∧
      (((m.withProgram p.withReturns).after requests).Diverges ↔
        ((m.withProgram p).after requests).Diverges) := by
  refine views_congr_of_settings (fun cfg hcfg s => State.step_withReturns hcfg s) requests ?_ m hm
  intro request hrequest m' hm'
  cases request with
  | define name make => exact hm'
  | setMaxCallDepth depth => exact hm'
  | setTracing on =>
    cases on with
    | false => rfl
    | true => exact absurd hrequest hrequests
  | run fuel => exact hm'

/-- The top level calls a function without code, and then jumps behind the end of both versions of
    its chunk. -/
theorem views_withReturns_jump :
    let p : Program := ⟨#["x"], #[], #[⟨.function, 0⟩, ⟨.call, 0⟩, ⟨.jump, 9⟩], #[⟨#[], #[]⟩]⟩
    let m : Session := ⟨p, {}, .initial ((Store.empty fun _ => ⟨0⟩).newScope none).2 {}⟩
    let requests : List Request := [.define "x" fun st => (.null, st), .setMaxCallDepth 2, .run 5]
    m.settings.tracing = false ∧ .setTracing true ∉ requests ∧
      (m.withProgram p.withReturns).views requests = (m.withProgram p).views requests ∧
      ((m.withProgram p.withReturns).views requests).map View.stackDepth = [0, 0, 1] ∧
      (((m.withProgram p.withReturns).after requests).Diverges ↔
        ((m.withProgram p).after requests).Diverges) := by
  intro p m requests
  have hrequests : .setTracing true ∉ requests := by simp [requests]
  obtain ⟨hviews, hdiverges⟩ := views_withReturns p m requests rfl hrequests
  refine ⟨rfl, hrequests, hviews, ?_, hdiverges⟩
  rw [hviews]
  rfl

end Session

end StackMachine
