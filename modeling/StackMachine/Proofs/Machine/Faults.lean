import StackMachine.Proofs.Machine.Failure

/-!
# Why a step fails

A fault about a table of the program, or about the limit on calls, tells what the instruction that
raised it was given (`State.Blames`).  What a step that fails leaves behind is the state before it
with some operands gone, except where a native has failed, which may have changed the store, or
where a frame had no operands to go with it (`State.Refusal`, `State.refusal_of_step`).
-/

namespace StackMachine

/-- Whether a fault is neither about a table of the program nor about the limit on calls. -/
def Fault.ordinary : Fault → Bool
  | .invalidLiteral _ | .invalidSymbol _ | .invalidFunction _ | .callDepthExceeded _ => false
  | _ => true

/-- The operand of the instruction, which is no call, is an index that a table of the program does
    not have, and the fault is about that index. -/
inductive Instruction.Misindexes (p : Program) (i : Instruction) : Fault → Prop
  | literal (hop : i.op = .loadConst) (h : p.literal? i.operand.toNat = none) :
      Misindexes p i (.invalidLiteral i.operand.toNat)
  | symbol (hop : i.op ∈ [.load, .declare, .assign])
      (h : p.symbols[i.operand.toNat]? = none) :
      Misindexes p i (.invalidSymbol i.operand.toNat)
  | function (hop : i.op = .function) (h : ¬i.operand.toNat < p.functions.size) :
      Misindexes p i (.invalidFunction i.operand.toNat)

namespace State

/-- The closure that a call in this state enters: the callee, or the one that it holds. -/
structure Callee (s : State) (i : Instruction) (closure : Closure) : Prop where
  op : i.op = .call ∨ i.op = .callWith
  found : ∃ callee c, s.operands.topDown[i.operand.toNat]? = some callee ∧
    s.store.calledClosure? callee = some c ∧ s.store.closures[c]? = some closure

/-- What a fault says about the state and the instruction that raised it. -/
inductive Blames (p : Program) (cfg : Settings) (s : State) (i : Instruction) : Fault → Prop
  | ordinary {f : Fault} (hf : f.ordinary = true) : Blames p cfg s i f
  | operand {f : Fault} (h : i.Misindexes p f) : Blames p cfg s i f
  | depth (hop : i.op = .call ∨ i.op = .callWith) (hfull : cfg.maxCallDepth ≤ s.frames.size) :
      Blames p cfg s i (.callDepthExceeded cfg.maxCallDepth)
  | callee {closure : Closure} (hcallee : s.Callee i closure)
      (h : p.functions[closure.function]? = none) :
      Blames p cfg s i (.invalidFunction closure.function)
  | parameter {closure : Closure} {function : FunctionDef} {param : UInt16}
      (hcallee : s.Callee i closure) (hfunction : p.functions[closure.function]? = some function)
      (hparam : param ∈ function.params) (h : p.symbols[param.toNat]? = none) :
      Blames p cfg s i (.invalidSymbol param.toNat)

/-- What a step that fails leaves behind. -/
inductive Refusal (p : Program) (cfg : Settings) (s : State) :
    Option Instruction → Fault → State → Prop
  | stops {i : Instruction} {f : Fault} {rest : Stack Value} {sink : Sink} {log : String}
      (hrest : rest.topDown <:+ s.operands.topDown) (hblames : s.Blames p cfg i f) :
      Refusal p cfg s (some i) f { s with operands := rest, sink, log }
  | native_fails {i : Instruction} {args : List Value} {native : Native} {site : Option Value}
      {rest : Stack Value} {e : Library.NativeError} {store : Store} {log : String}
      (hcalls : s.CallsNative i native site args rest)
      (hcall : Library.callWith cfg.host native (site.getD .null) args s.store = .error e store) :
      Refusal p cfg s (some i) (.native native.name e.message)
        { s with operands := rest, store, log }
  | unpaired {next : Option Instruction} {rest : Stack Value} {frames : Stack Frame}
      {log : String} (hrest : rest.topDown <:+ s.operands.topDown)
      (hsizes : s.frames.size ≠ s.suspended.size) :
      Refusal p cfg s next .stackUnderflow { s with operands := rest, frames, log }

variable {p : Program} {cfg : Settings} {s t : State} {f : Fault} {next : Option Instruction}

theorem Refusal.of_log {log : String} (h : Refusal p cfg { s with log } next f t) :
    s.Refusal p cfg next f t := by
  cases h with
  | stops hrest hblames =>
    refine .stops hrest ?_
    cases hblames with
    | ordinary hf => exact .ordinary hf
    | operand h => exact .operand h
    | depth hop hfull => exact .depth hop hfull
    | callee hcallee h => exact .callee ⟨hcallee.op, hcallee.found⟩ h
    | parameter hcallee hfunction hparam h =>
      exact .parameter ⟨hcallee.op, hcallee.found⟩ hfunction hparam h
  | native_fails hcalls hcall =>
    exact .native_fails ⟨hcalls.op, hcalls.callee, hcalls.args, hcalls.site⟩ hcall
  | unpaired hrest hsizes => exact .unpaired hrest hsizes

end State

namespace Exec

open State

variable {p : Program} {cfg : Settings} {s t : State} {f : Fault}

/-! ## Instructions that are no calls -/

section Parts

variable {α : Type} {P : Fault → Prop}

theorem raises_fault (hf : P f) : Raises P (fault f : Exec α) := by
  intro s e t h
  cases h
  exact hf

theorem raises_orFault {o : Option α} (h : o = none → P f) : Raises P (orFault f o) := by
  cases o with
  | none => exact raises_fault (h rfl)
  | some a => exact (neverFails_pure a).raises

theorem neverFails_read (f : State → α) : NeverFails (read f) := by
  intro s e t h
  cases h

variable (hP : ∀ f : Fault, f.ordinary = true → P f)

include hP

theorem raises_pop : Raises P pop := by
  intro s e t h
  unfold pop at h
  split at h <;> cases h
  exact hP _ rfl

theorem raises_popN (n : Nat) : Raises P (popN n) := by
  intro s e t h
  unfold popN at h
  split at h <;> cases h
  exact hP _ rfl

theorem raises_peek : Raises P peek := by
  intro s e t h
  unfold peek at h
  split at h <;> cases h
  exact hP _ rfl

theorem raises_leave (v : Value) : Raises P (leave v) := by
  intro s e t h
  rw [(leave_eq_error_state h).1]
  exact hP _ rfl

theorem raises_getProperty (keepContainer : Bool) : Raises P (getProperty keepContainer) := by
  refine (raises_pop hP).bind fun key => (raises_pop hP).bind fun container => ?_
  refine Raises.bind (fun s e t h => ?_) fun v => ?_
  · simp only [Store.property] at h
    repeat' split at h
    all_goals cases h
    all_goals exact hP _ rfl
  · cases keepContainer with
    | false => exact (neverFails_change _).raises
    | true => exact ((neverFails_change _).bind fun _ => neverFails_change _).raises

theorem raises_setProperty : Raises P setProperty := by
  refine (raises_pop hP).bind fun v => (raises_pop hP).bind fun key => ?_
  refine (raises_pop hP).bind fun container => ?_
  refine Raises.bind (fun s e t h => ?_) fun target => ?_
  · simp only [Target.of] at h
    split at h
    all_goals cases h
    all_goals exact hP _ rfl
  · exact ((neverFails_change _).bind fun _ => neverFails_change _).raises

theorem raises_binaryOperator (op : Opcode) : Raises P (binaryOperator op) := by
  refine (raises_pop hP).bind fun right => (raises_pop hP).bind fun left => ?_
  cases hresult : binary op left right with
  | ok v => exact (neverFails_change _).raises
  | error f =>
    refine raises_fault (hP f ?_)
    unfold binary at hresult
    repeat' split at hresult
    all_goals cases hresult
    all_goals rfl

theorem raises_print (n : Nat) : Raises P (print n) := by
  refine (raises_popN hP n).bind fun vs s e t h => ?_
  dsimp only at h
  split at h <;> cases h
  exact hP _ rfl

end Parts

/-- Of the faults about tables and the limit on calls, an instruction that is no call raises those
    about its own operand. -/
theorem raises_instruction {i : Instruction} (hop : ¬(i.op = .call ∨ i.op = .callWith)) :
    Raises (fun f => f.ordinary = true ∨ i.Misindexes p f) (instruction p cfg i) := by
  have hP : ∀ f : Fault, f.ordinary = true → f.ordinary = true ∨ i.Misindexes p f :=
    fun f => Or.inl
  obtain ⟨op, operand⟩ := i
  cases op
  case call | callWith => simp at hop
  case loadConst =>
    refine Raises.bind (raises_orFault fun h => Or.inr (.literal rfl h)) fun l => ?_
    exact (neverFails_push_next _).raises
  case load =>
    refine Raises.bind (raises_orFault fun h => Or.inr (.symbol (by simp) h)) fun name => ?_
    refine (neverFails_read _).raises.bind fun found => ?_
    exact (raises_orFault fun _ => Or.inl rfl).bind fun v => (neverFails_push_next v).raises
  case declare =>
    refine Raises.bind (raises_orFault fun h => Or.inr (.symbol (by simp) h)) fun name => ?_
    refine (raises_peek hP).bind fun v => ?_
    exact ((neverFails_change _).bind fun _ => neverFails_pure _).raises
  case assign =>
    refine Raises.bind (raises_orFault fun h => Or.inr (.symbol (by simp) h)) fun name => ?_
    refine (raises_peek hP).bind fun v => (neverFails_read _).raises.bind fun scope => ?_
    refine (neverFails_updateStore _).raises.bind fun found => ?_
    split
    · exact (neverFails_pure _).raises
    · exact raises_fault (Or.inl rfl)
  case function =>
    simp only [instruction]
    split
    · refine ((neverFails_read _).bind fun scope => ?_).raises
      exact (neverFails_updateStore _).bind fun c => neverFails_push_next _
    · rename_i h
      exact raises_fault (Or.inr (.function rfl h))
  case enterScope =>
    refine ((neverFails_read _).bind fun scope => ?_).raises
    refine (neverFails_updateStore _).bind fun fresh => ?_
    exact (neverFails_change _).bind fun _ => neverFails_pure _
  case leaveScope =>
    refine (neverFails_read _).raises.bind fun outer => ?_
    refine (raises_orFault fun _ => Or.inl rfl).bind fun scope => ?_
    exact ((neverFails_change _).bind fun _ => neverFails_pure _).raises
  case jump => exact (neverFails_pure _).raises
  case pop | jumpTruthy | jumpFalsy =>
    exact (raises_pop hP).bind fun v => (neverFails_pure _).raises
  case dup => exact (raises_peek hP).bind fun v => (neverFails_push_next v).raises
  case ret => exact raises_leave hP _
  case retValue => exact (raises_pop hP).bind fun v => raises_leave hP v
  case get => exact (raises_getProperty hP false).bind fun _ => (neverFails_pure _).raises
  case getWith => exact (raises_getProperty hP true).bind fun _ => (neverFails_pure _).raises
  case set => exact (raises_setProperty hP).bind fun _ => (neverFails_pure _).raises
  case neg | not =>
    refine Raises.bind ?_ fun _ => (neverFails_pure _).raises
    exact (raises_pop hP).bind fun v => (neverFails_change _).raises
  case print => exact (raises_print hP _).bind fun _ => (neverFails_pure _).raises
  -- What is left are the binary operators.
  all_goals exact (raises_binaryOperator hP _).bind fun _ => (neverFails_pure _).raises

/-! ## Calls -/

/-- A call fails for want of operands, or with the arguments, the callee and the call site taken
    off. -/
theorem call_eq_error {n : Nat} {withSite : Bool} (h : call p cfg n withSite s = .error f t) :
    (f.ordinary = true ∧ s.Popped t) ∨
      ∃ (args : List Value) (callee : Value) (site : Option Value) (rest : Stack Value),
        s.operands.topDown = args.reverse ++ callee :: (site.toList ++ rest.topDown) ∧
          args.length = n ∧ site.isSome = withSite ∧
            callValue p cfg callee site args { s with operands := rest } = .error f t := by
  have hpop : ∀ {u : State}, s.Popped u → pop u = .error f t →
      f.ordinary = true ∧ s.Popped t := by
    intro u hu hfails
    rw [pop_eq_error hfails]
    exact ⟨raises_pop (fun _ hf => hf) u f t hfails, hu⟩
  obtain hargs | ⟨args, s₁, hargs, h⟩ := bind_eq_error h
  · rw [(popN_eq_error hargs).2]
    exact Or.inl ⟨raises_popN (fun _ hf => hf) n s f t hargs, .refl s⟩
  obtain ⟨rest₁, hrest₁, hlength, rfl⟩ := popN_eq_ok hargs
  have hpopped₁ : s.Popped { s with operands := rest₁ } :=
    ⟨rest₁, hrest₁ ▸ List.suffix_append _ _, rfl⟩
  obtain hcallee | ⟨callee, s₂, hcallee, h⟩ := bind_eq_error h
  · exact Or.inl (hpop hpopped₁ hcallee)
  obtain ⟨rest₂, hrest₂, rfl⟩ := pop_eq_ok hcallee
  change rest₁ = rest₂.push callee at hrest₂
  have htop : s.operands.topDown = args.reverse ++ callee :: rest₂.topDown := by
    rw [hrest₁, hrest₂]
    rfl
  cases withSite with
  | false => exact Or.inr ⟨args, callee, none, rest₂, htop, hlength, rfl, h⟩
  | true =>
    obtain hsite | ⟨site, s₃, hsite, h⟩ := bind_eq_error h
    · have hpopped₂ : s.Popped { s with operands := rest₂ } := by
        refine ⟨rest₂, ?_, rfl⟩
        rw [htop]
        exact (List.suffix_cons _ _).trans (List.suffix_append _ _)
      exact Or.inl (hpop hpopped₂ hsite)
    · obtain ⟨rest₃, hrest₃, rfl⟩ := pop_eq_ok hsite
      change rest₂ = rest₃.push site at hrest₃
      refine Or.inr ⟨args, callee, some site, rest₃, ?_, hlength, rfl, h⟩
      rw [htop, hrest₃]
      rfl

/-- A call of a value fails in a closure or a native, or at once if the value is neither. -/
theorem callValue_eq_error {callee : Value} {site : Option Value} {args : List Value}
    (h : callValue p cfg callee site args s = .error f t) :
    (f.ordinary = true ∧ t = s) ∨
      (∃ c, s.store.calledClosure? callee = some c ∧ enter p cfg c site args s = .error f t) ∨
        ∃ n native, callee = .native n ∧ s.store.natives[n]? = some native ∧
          callNative cfg native site args s = .error f t := by
  cases callee with
  | closure c => exact Or.inr (Or.inl ⟨c, rfl, h⟩)
  | native n =>
    obtain hread | ⟨found, u, hread, h⟩ := bind_eq_error h
    · cases hread
    obtain ⟨hfound, rfl⟩ := read_eq_ok hread
    cases found with
    | none =>
      cases h
      exact Or.inl ⟨rfl, rfl⟩
    | some native => exact Or.inr (Or.inr ⟨n, native, rfl, hfound, h⟩)
  | object o =>
    obtain hread | ⟨found, u, hread, h⟩ := bind_eq_error h
    · cases hread
    obtain ⟨hfound, rfl⟩ := read_eq_ok hread
    cases found with
    | none =>
      cases h
      exact Or.inl ⟨rfl, rfl⟩
    | some c => exact Or.inr (Or.inl ⟨c, hfound, h⟩)
  | _ =>
    cases h
    exact Or.inl ⟨rfl, rfl⟩

theorem callNative_eq_error {native : Native} {site : Option Value} {args : List Value}
    (h : callNative cfg native site args s = .error f t) :
    (f.ordinary = true ∧ t = s) ∨ ∃ e store,
      Library.callWith cfg.host native (site.getD .null) args s.store = .error e store ∧
        f = .native native.name e.message ∧ t = { s with store } := by
  unfold callNative at h
  split at h
  · obtain hact | ⟨v, u, -, h⟩ := bind_eq_error h
    · simp only [act] at hact
      split at hact <;> cases hact
      rename_i e store hcall
      exact Or.inr ⟨e, store, hcall, rfl, rfl⟩
    · exact absurd h (neverFails_push_next v u f t)
  · cases h
    exact Or.inl ⟨rfl, rfl⟩

theorem bindings_eq_error {params : List UInt16} {args : List Value}
    (h : bindings p params args = .error f) :
    ∃ param ∈ params, p.symbols[param.toNat]? = none ∧ f = .invalidSymbol param.toNat := by
  fun_induction bindings p params args with
  | case1 param params arg args hsymbol =>
    cases h
    exact ⟨param, List.mem_cons_self, hsymbol, rfl⟩
  | case2 => cases h
  | case3 param params arg args name hsymbol e he ih =>
    cases h
    obtain ⟨param', hmem, hparam⟩ := ih he
    exact ⟨param', List.mem_cons_of_mem _ hmem, hparam⟩
  | case4 => cases h

/-- A closure that is not entered has no function in the program or a parameter without a symbol,
    or too many calls are in progress. -/
theorem blames_of_enter {i : Instruction} {callee : Value} {c : ClosureRef} {site : Option Value}
    {args : List Value} {rest : Stack Value} (hop : i.op = .call ∨ i.op = .callWith)
    (hcallee : s.operands.topDown[i.operand.toNat]? = some callee)
    (hc : s.store.calledClosure? callee = some c)
    (h : enter p cfg c site args { s with operands := rest } = .error f t) :
    s.Blames p cfg i f := by
  unfold enter at h
  split at h
  · rename_i hfull
    cases h
    exact .depth hop hfull
  · split at h
    · cases h
      exact .ordinary rfl
    · rename_i closure hclosure
      have hentered : s.Callee i closure := ⟨hop, callee, c, hcallee, hc, hclosure⟩
      split at h
      · rename_i hfunction
        cases h
        exact .callee hentered hfunction
      · rename_i function hfunction
        split at h
        · rename_i hbindings
          cases h
          obtain ⟨param, hparam, hsymbol, rfl⟩ := bindings_eq_error hbindings
          exact .parameter hentered hfunction (Array.mem_toList_iff.mp hparam) hsymbol
        · cases h

theorem refusal_of_call {i : Instruction} (hop : i.op = .call ∨ i.op = .callWith)
    (h : call p cfg i.operand.toNat (decide (i.op = .callWith)) s = .error f t) :
    s.Refusal p cfg (some i) f t := by
  rcases call_eq_error h with
    ⟨hf, rest, hrest, rfl⟩ | ⟨args, callee, site, rest, htop, hargs, hsite, h⟩
  · exact .stops hrest (.ordinary hf)
  have hrest : rest.topDown <:+ s.operands.topDown := by
    rw [htop]
    exact ((List.suffix_append _ _).trans (List.suffix_cons _ _)).trans (List.suffix_append _ _)
  have hcallee : s.operands.topDown[i.operand.toNat]? = some callee := by
    simp [htop, ← hargs]
  rcases callValue_eq_error h with
    ⟨hf, rfl⟩ | ⟨c, hc, henter⟩ | ⟨n, native, rfl, hn, hnative⟩
  · exact .stops hrest (.ordinary hf)
  · rw [enter_eq_error henter]
    exact .stops hrest (blames_of_enter hop hcallee hc henter)
  · rcases callNative_eq_error hnative with ⟨hf, rfl⟩ | ⟨e, store, hcall, rfl, rfl⟩
    · exact .stops hrest (.ordinary hf)
    · exact .native_fails ⟨hop, ⟨n, hn, htop⟩, hargs, hsite⟩ hcall

/-! ## All instructions -/

/-- What an instruction leaves behind that fails. -/
theorem refusal_of_instruction {i : Instruction} (h : instruction p cfg i s = .error f t) :
    s.Refusal p cfg (some i) f t := by
  by_cases hcall : i.op = .call ∨ i.op = .callWith
  · have hcalls : call p cfg i.operand.toNat (decide (i.op = .callWith)) s = .error f t := by
      obtain ⟨op, operand⟩ := i
      rcases hcall with hop | hop <;> cases hop <;> exact h
    exact refusal_of_call hcall hcalls
  have hblames : s.Blames p cfg i f := by
    rcases raises_instruction hcall s f t h with hf | hoperand
    · exact .ordinary hf
    · exact .operand hoperand
  obtain ⟨op, operand⟩ := i
  by_cases hprint : op = .print
  · subst hprint
    obtain hprinted | ⟨-, u, -, hpure⟩ := bind_eq_error h
    · rcases print_eq_error hprinted with rfl | ⟨-, -, rest, hrest, k, -, rfl⟩
      · exact .stops (List.suffix_refl _) hblames
      · exact .stops hrest hblames
    · cases hpure
  by_cases htransfers : op.transfers = false
  · obtain ⟨rest, hrest, rfl⟩ := failsBy_popped_instruction htransfers hprint s f t h
    exact .stops hrest hblames
  -- What is left are the returns.
  cases op
  case ret =>
    obtain ⟨rfl, hsizes, frames, rfl⟩ := leave_eq_error_state h
    exact .unpaired (List.suffix_refl _) hsizes
  case retValue =>
    obtain hpop | ⟨v, u, hpop, hleave⟩ := bind_eq_error h
    · rw [pop_eq_error hpop]
      exact .stops (List.suffix_refl _) hblames
    · obtain ⟨rest, hrest, rfl⟩ := pop_eq_ok hpop
      obtain ⟨rfl, hsizes, frames, rfl⟩ := leave_eq_error_state hleave
      exact .unpaired (hrest ▸ List.suffix_cons v _) hsizes
  all_goals simp [Opcode.transfers] at hcall htransfers

end Exec

namespace State

variable {p : Program} {cfg : Settings} {s t : State} {f : Fault}

theorem refusal_of_step (h : s.step p cfg = .failed f t) : s.Refusal p cfg (s.next? p) f t := by
  unfold step at h
  cases hnext : s.next? p with
  | some i =>
    rw [hnext] at h
    have herror := Progress.of_eq_failed h
    obtain ⟨log, hlog⟩ := logged_eq cfg i s
    rw [hlog] at herror
    exact (Exec.refusal_of_instruction herror).of_log
  | none =>
    rw [hnext] at h
    obtain ⟨rfl, hsizes, frames, rfl⟩ := Exec.leave_eq_error_state (Progress.of_eq_failed h)
    exact .unpaired (List.suffix_refl _) hsizes

end State

end StackMachine
