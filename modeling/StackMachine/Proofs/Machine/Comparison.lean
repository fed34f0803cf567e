import StackMachine.Machine.Session
import StackMachine.Proofs.Machine.Run

/-!
# Comparing programs

An instruction looks at a program's symbols, its literals and the parameters of its functions, and
never at code (`Exec.instruction_congr`).  A host defines globals, changes settings and runs its
machine, in any order, and sees something after each of these requests (`Session.views`); two
programs whose steps are the same in every state show it the same (`Session.views_congr`).
-/

namespace StackMachine

/-! ## What an instruction looks at -/

/-- The programs have the same symbols and literals, and as many functions with the same
    parameters. -/
structure Program.SameTables (p q : Program) : Prop where
  symbols : q.symbols = p.symbols
  literals : q.literals = p.literals
  params : q.functions.map FunctionDef.params = p.functions.map FunctionDef.params

namespace Program.SameTables

variable {p q : Program}

theorem size_functions (h : p.SameTables q) : q.functions.size = p.functions.size := by
  have hsize := congrArg Array.size h.params
  rw [Array.size_map, Array.size_map] at hsize
  exact hsize

theorem literal?_eq (h : p.SameTables q) (n : Nat) : q.literal? n = p.literal? n := by
  rw [Program.literal?, Program.literal?, h.literals]

theorem params_getElem? (h : p.SameTables q) (n : Nat) :
    q.functions[n]?.map FunctionDef.params = p.functions[n]?.map FunctionDef.params := by
  rw [← Array.getElem?_map, ← Array.getElem?_map, h.params]

end Program.SameTables

theorem bindings_congr {p q : Program} (h : p.SameTables q) (params : List UInt16)
    (args : List Value) : bindings q params args = bindings p params args := by
  induction params generalizing args with
  | nil => rfl
  | cons param params ih =>
    cases args with
    | nil => rfl
    | cons arg args => rw [bindings, bindings, h.symbols, ih args]

namespace Exec

variable {p q : Program} {cfg : Settings}

theorem enter_congr (h : p.SameTables q) (callee : ClosureRef) (site : Option Value)
    (args : List Value) : enter q cfg callee site args = enter p cfg callee site args := by
  funext s
  unfold enter
  split
  · rfl
  · cases s.store.closures[callee]? with
    | none => rfl
    | some closure =>
      have hparams := h.params_getElem? closure.function
      dsimp only
      cases hq : q.functions[closure.function]? with
      | none =>
        rw [hq] at hparams
        rw [Option.map_eq_none_iff.mp hparams.symm]
      | some function =>
        rw [hq] at hparams
        obtain ⟨function', hp, hsame⟩ := Option.map_eq_some_iff.mp hparams.symm
        rw [hp]
        dsimp only
        rw [bindings_congr h, hsame]

theorem callValue_congr (h : p.SameTables q) (callee : Value) (site : Option Value)
    (args : List Value) : callValue q cfg callee site args = callValue p cfg callee site args := by
  cases callee with
  | closure c => exact enter_congr h c site args
  | object o =>
    unfold callValue
    simp only [enter_congr h]
  | _ => rfl

theorem call_congr (h : p.SameTables q) (count : Nat) (withSite : Bool) :
    call q cfg count withSite = call p cfg count withSite := by
  unfold call
  simp only [callValue_congr h]

theorem symbol_congr (h : p.SameTables q) (index : Nat) : symbol q index = symbol p index := by
  rw [symbol, symbol, h.symbols]

/-- An instruction does the same in programs that differ in their code at most. -/
theorem instruction_congr (h : p.SameTables q) (i : Instruction) :
    instruction q cfg i = instruction p cfg i := by
  obtain ⟨op, operand⟩ := i
  cases op
  case loadConst => simp only [instruction, h.literal?_eq]
  case load | declare | assign => simp only [instruction, symbol_congr h]
  case call | callWith => exact call_congr h _ _
  case function => simp only [instruction, h.size_functions]
  all_goals rfl

end Exec

/-! ## What a host sees -/

/-- What a host asks of its machine. -/
inductive Request
  /-- Bind a global name to a value, which the host may first make in the store. -/
  | define (name : String) (make : Store → Value × Store)
  | setMaxCallDepth (depth : Nat)
  | setTracing (on : Bool)
  /-- Run the program from its start, for at most `fuel` steps. -/
  | run (fuel : Nat)

/-- What the host is told after a request. -/
inductive Reply
  /-- The request was not one for a run. -/
  | done
  | finished
  | failed (failure : Failure)
  | unfinished

/-- What the host sees after a request. -/
structure View where
  reply : Reply
  /-- The output so far. -/
  output : ByteArray
  /-- The instructions that the last run has logged. -/
  log : String
  stackDepth : Nat
  callDepth : Nat
  /-- The bindings of all scopes and everything that values refer to. -/
  store : Store

def Outcome.reply : Outcome → Reply
  | .finished _ => .finished
  | .failed failure _ => .failed failure
  | .unfinished _ => .unfinished

theorem Outcome.eq_failed_of_reply {o : Outcome} {failure : Failure}
    (h : o.reply = .failed failure) : ∃ t, o = .failed failure t := by
  cases o <;> cases h
  exact ⟨_, rfl⟩

namespace Session

/-- The same machine with another program. -/
def withProgram (m : Session) (p : Program) : Session := { m with program := p }

/-- Does what the host asks. -/
def perform (m : Session) : Request → Reply × Session
  | .define name make =>
    match make m.state.store with
    | (v, store) => (.done, Session.define { m with state.store := store } name v)
  | .setMaxCallDepth depth => (.done, m.setMaxCallDepth depth)
  | .setTracing on => (.done, m.setTracing on)
  | .run fuel => match m.run fuel with
    | (outcome, m) => (outcome.reply, m)

def view (m : Session) (reply : Reply) : View :=
  ⟨reply, m.state.sink.written, m.state.log, m.stackDepth, m.callDepth, m.state.store⟩

/-- What the host sees after each of its requests. -/
def views : List Request → Session → List View
  | [], _ => []
  | request :: requests, m => match m.perform request with
    | (reply, m) => m.view reply :: views requests m

/-- The machine after a number of requests. -/
def after : List Request → Session → Session
  | [], m => m
  | request :: requests, m => after requests (m.perform request).2

/-- A run of the machine never ends. -/
def Diverges (m : Session) : Prop := m.state.Diverges m.program m.settings

variable {p q : Program}

/-- A request is answered in the same way, and leaves the same machine but for the program. -/
theorem perform_withProgram (m : Session)
    (h : ∀ s : State, s.step q m.settings = s.step p m.settings) (request : Request) :
    ∃ (reply : Reply) (m' : Session),
      (m.withProgram p).perform request = (reply, m'.withProgram p) ∧
        (m.withProgram q).perform request = (reply, m'.withProgram q) := by
  cases request with
  | define name make =>
    let made := make m.state.store
    exact ⟨.done, Session.define { m with state.store := made.2 } name made.1, rfl, rfl⟩
  | setMaxCallDepth depth => exact ⟨.done, m.setMaxCallDepth depth, rfl, rfl⟩
  | setTracing on => exact ⟨.done, m.setTracing on, rfl, rfl⟩
  | run fuel =>
    have hrun : m.state.run q m.settings fuel = m.state.run p m.settings fuel :=
      State.steps_congr fuel fun _ _ u _ => h u
    let outcome := m.state.run p m.settings fuel
    refine ⟨outcome.reply, { m with state := outcome.state }, rfl, ?_⟩
    rw [perform, run]
    dsimp only [withProgram]
    rw [hrun]

/-- No request of the list leads out of a class of settings. -/
def StaysIn (P : Settings → Prop) (requests : List Request) : Prop :=
  ∀ request ∈ requests, ∀ m : Session, P m.settings → P (m.perform request).2.settings

/-- The host cannot tell two programs apart whose steps are the same under all settings that its
    requests lead to. -/
theorem views_congr_of_settings {P : Settings → Prop}
    (h : ∀ cfg, P cfg → ∀ s : State, s.step q cfg = s.step p cfg) (requests : List Request)
    (hrequests : StaysIn P requests) (m : Session) (hm : P m.settings) :
    (m.withProgram q).views requests = (m.withProgram p).views requests ∧
      (((m.withProgram q).after requests).Diverges ↔
        ((m.withProgram p).after requests).Diverges) := by
  induction requests generalizing m with
  | nil =>
    have hrun : ∀ fuel, m.state.run q m.settings fuel = m.state.run p m.settings fuel :=
      fun fuel => State.steps_congr fuel fun _ _ u _ => h m.settings hm u
    refine ⟨rfl, ?_⟩
    simp only [after, Diverges, State.Diverges, withProgram, hrun]
  | cons request requests ih =>
    obtain ⟨reply, m', hp, hq⟩ := perform_withProgram m (h m.settings hm) request
    have hm' : P m'.settings := by
      have hkept := hrequests request List.mem_cons_self (m.withProgram p) hm
      rw [hp] at hkept
      exact hkept
    obtain ⟨hviews, hdiverges⟩ := ih (fun r hr => hrequests r (List.mem_cons_of_mem _ hr)) m' hm'
    rw [views, views, after, after, hp, hq]
    dsimp only
    rw [hviews]
    exact ⟨rfl, hdiverges⟩

/-- The host cannot tell two programs apart whose steps are the same. -/
theorem views_congr (h : ∀ (cfg : Settings) (s : State), s.step q cfg = s.step p cfg)
    (requests : List Request) (m : Session) :
    (m.withProgram q).views requests = (m.withProgram p).views requests :=
  (views_congr_of_settings (P := fun _ => True) (fun cfg _ => h cfg) requests
    (fun _ _ _ _ => trivial) m trivial).1

end Session

end StackMachine
