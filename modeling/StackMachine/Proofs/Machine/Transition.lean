import StackMachine.Proofs.Machine.Calling

/-!
# What a step does to the calls in progress

A step that goes on stays in the active call, enters a function or returns to the caller
(`State.step_running`).  A step that ends the run leaves all calls as they are, as long as every
frame has its operands (`State.step_halted`, `State.step_failed`).
-/

namespace StackMachine

/-- Whether an instruction may enter or leave a call. -/
def Opcode.transfers : Opcode → Bool
  | .call | .callWith | .ret | .retValue => true
  | _ => false

/-- Execution goes on in the active call. -/
def Flow.Local : Flow → Prop
  | .next | .jump _ => True
  | .transfer | .halt => False

/-- What an operation that ends well in `t` does to the calls of `s`, with the way execution goes
    on from there. -/
inductive State.Executed (p : Program) (cfg : Settings) (s : State) : Flow → State → Prop
  | onward {flow : Flow} {t : State} (hlocal : flow.Local) (hcalls : s.SameCalls t) :
      Executed p cfg s flow t
  | enter {i : Instruction} {t : State} (hnext : s.next? p = some i)
      (hop : i.op = .call ∨ i.op = .callWith) (hentered : s.Entered p cfg i t) :
      Executed p cfg s .transfer t
  | leave {v : Value} {t : State} (hreturns : s.Returns p v) (hleft : s.Left v t) :
      Executed p cfg s .transfer t
  | halt {t : State} (hframes : s.frames = .empty) (hcalls : s.SameCalls t) :
      Executed p cfg s .halt t

namespace Exec

open State

variable {p : Program} {cfg : Settings}

/-! ## Instructions that stay in the active call -/

private theorem keepsCalls_pop : Keeps SameCalls pop := keeps_pop SameCalls.of_popped

private theorem keepsCalls_push (v : Value) : Keeps SameCalls (push v) :=
  keeps_change fun _ => ⟨rfl, rfl, rfl, rfl⟩

theorem keepsCalls_getProperty (keepContainer : Bool) :
    Keeps SameCalls (getProperty keepContainer) := by
  refine keepsCalls_pop.bind fun key => keepsCalls_pop.bind fun container => ?_
  refine (keeps_query fun s => s.store.property container key).bind fun v => ?_
  cases keepContainer with
  | false => exact keepsCalls_push v
  | true => exact (keepsCalls_push container).bind fun _ => keepsCalls_push v

theorem keepsCalls_setProperty : Keeps SameCalls setProperty := by
  refine keepsCalls_pop.bind fun v => keepsCalls_pop.bind fun key => ?_
  refine keepsCalls_pop.bind fun container => (keeps_ofExcept _).bind fun target => ?_
  exact (keeps_change fun _ => ⟨rfl, rfl, rfl, rfl⟩).bind fun _ => keepsCalls_push v

theorem keepsCalls_binaryOperator (op : Opcode) : Keeps SameCalls (binaryOperator op) := by
  refine keepsCalls_pop.bind fun right => keepsCalls_pop.bind fun left => ?_
  split
  · exact keepsCalls_push _
  · exact keeps_fault _

theorem keepsCalls_print (n : Nat) : Keeps SameCalls (print n) := by
  refine (keeps_popN SameCalls.of_popped n).bind fun vs s => ?_
  dsimp only
  split <;> refine ⟨fun a t h => ?_, fun f t h => ?_⟩ <;> cases h <;> exact ⟨rfl, rfl, rfl, rfl⟩

/-- Only calls and returns touch the calls in progress. -/
theorem keepsCalls_instruction {i : Instruction} (h : i.op.transfers = false) :
    Keeps SameCalls (instruction p cfg i) := by
  obtain ⟨op, operand⟩ := i
  cases op
  case call | callWith | ret | retValue => cases h
  case loadConst =>
    exact (keeps_orFault _ _).bind fun l => (keepsCalls_push l.value).bind fun _ => keeps_pure _
  case load =>
    refine (keeps_orFault _ _).bind fun name => (keeps_read _).bind fun found => ?_
    exact (keeps_orFault _ found).bind fun v => (keepsCalls_push v).bind fun _ => keeps_pure _
  case declare =>
    refine (keeps_orFault _ _).bind fun name => keeps_peek.bind fun v => ?_
    exact (keeps_change fun _ => ⟨rfl, rfl, rfl, rfl⟩).bind fun _ => keeps_pure _
  case assign =>
    refine (keeps_orFault _ _).bind fun name => keeps_peek.bind fun v => ?_
    refine (keeps_read _).bind fun scope => ?_
    refine (keeps_updateStore fun _ => ⟨rfl, rfl, rfl, rfl⟩).bind fun found => ?_
    split
    · exact keeps_pure _
    · exact keeps_fault _
  case pop => exact keepsCalls_pop.bind fun _ => keeps_pure _
  case dup => exact keeps_peek.bind fun v => (keepsCalls_push v).bind fun _ => keeps_pure _
  case jump => exact keeps_pure _
  case jumpTruthy | jumpFalsy => exact keepsCalls_pop.bind fun _ => keeps_pure _
  case function =>
    simp only [instruction]
    split
    · refine (keeps_read _).bind fun scope => ?_
      refine (keeps_updateStore fun _ => ⟨rfl, rfl, rfl, rfl⟩).bind fun c => ?_
      exact (keepsCalls_push _).bind fun _ => keeps_pure _
    · exact keeps_fault _
  case enterScope =>
    refine (keeps_read _).bind fun scope => ?_
    refine (keeps_updateStore fun _ => ⟨rfl, rfl, rfl, rfl⟩).bind fun fresh => ?_
    exact (keeps_change fun _ => ⟨rfl, rfl, rfl, rfl⟩).bind fun _ => keeps_pure _
  case leaveScope =>
    refine (keeps_read _).bind fun outer => (keeps_orFault _ outer).bind fun scope => ?_
    exact (keeps_change fun _ => ⟨rfl, rfl, rfl, rfl⟩).bind fun _ => keeps_pure _
  case get => exact (keepsCalls_getProperty false).bind fun _ => keeps_pure _
  case getWith => exact (keepsCalls_getProperty true).bind fun _ => keeps_pure _
  case set => exact keepsCalls_setProperty.bind fun _ => keeps_pure _
  case neg | not =>
    exact Keeps.bind (keepsCalls_pop.bind fun v => keepsCalls_push _) fun _ => keeps_pure _
  case print => exact (keepsCalls_print _).bind fun _ => keeps_pure _
  -- What is left are the binary operators.
  all_goals exact (keepsCalls_binaryOperator _).bind fun _ => keeps_pure _

/-- Only calls and returns lead out of the active call. -/
theorem yields_instruction {i : Instruction} (h : i.op.transfers = false) :
    Yields Flow.Local (instruction p cfg i) := by
  obtain ⟨op, operand⟩ := i
  cases op
  case call | callWith | ret | retValue => cases h
  case jump => exact Yields.pure trivial
  case jumpTruthy | jumpFalsy =>
    refine Yields.bind fun v => Yields.pure ?_
    split <;> trivial
  case assign =>
    refine Yields.bind fun _ => Yields.bind fun _ => Yields.bind fun _ => Yields.bind fun _ => ?_
    split
    · exact Yields.pure trivial
    · exact yields_fault _
  case function =>
    simp only [instruction]
    split
    · exact Yields.bind fun _ => Yields.bind fun _ => Yields.bind fun _ => Yields.pure trivial
    · exact yields_fault _
  -- All others end by going on with the next instruction.
  all_goals repeat first
    | exact Yields.pure trivial
    | refine Yields.bind fun _ => ?_

/-! ## Calls and returns -/

/-- What a call takes off the operands is what `belowCall` leaves out. -/
theorem belowCall_eq {i : Instruction} {s : State} {args : List Value} {callee : Value}
    {site : Option Value} {rest : Stack Value}
    (htop : s.operands.topDown = args.reverse ++ callee :: (site.toList ++ rest.topDown))
    (hargs : args.length = i.operand.toNat) (hsite : site.isSome = decide (i.op = .callWith)) :
    s.belowCall i = rest := by
  apply Stack.ext_topDown
  rw [State.belowCall, Stack.topDown_ofTopDown, htop, ← hargs]
  cases site with
  | none =>
    have hop : i.op ≠ .callWith := by simpa using hsite.symm
    simp [hop, List.drop_append]
  | some v =>
    have hop : i.op = .callWith := by simpa using hsite.symm
    simp [hop, List.drop_append]

/-- A call instruction that ends well enters a closure, if its callee is one or an object that
    holds one, and otherwise gives the result of a native. -/
theorem call_instruction_eq_ok {i : Instruction} {s t : State} {flow : Flow}
    (hop : i.op = .call ∨ i.op = .callWith) (h : instruction p cfg i s = .ok flow t) :
    ∃ callee, s.operands.topDown[i.operand.toNat]? = some callee ∧
      ((∃ c closure, s.store.calledClosure? callee = some c ∧
          s.store.closures[c]? = some closure ∧ t.active = some closure.function ∧
            flow = .transfer ∧ s.Entered p cfg i t) ∨
        (s.store.calledClosure? callee = none ∧ flow = .next ∧ s.SameCalls t)) := by
  have hcall : call p cfg i.operand.toNat (decide (i.op = .callWith)) s = .ok flow t := by
    obtain ⟨op, operand⟩ := i
    rcases hop with hop | hop <;> cases hop <;> exact h
  obtain ⟨args, callee, site, rest, htop, hargs, hsite, hvalue⟩ := call_eq_ok hcall
  refine ⟨callee, by simp [htop, ← hargs], ?_⟩
  rcases callValue_eq_ok hvalue with ⟨c, hc, henter⟩ | ⟨n, native, rfl, -, hnative⟩
  · obtain ⟨rfl, hroom, closure, function, bound, hclosure, hfunction, -, rfl⟩ :=
      enter_eq_ok henter
    have hlt := (Array.getElem?_eq_some_iff.mp hfunction).1
    have hbelow := belowCall_eq htop hargs hsite
    refine Or.inl ⟨c, closure, hc, hclosure, rfl, rfl, ?_⟩
    exact ⟨hroom, rfl, ⟨closure.function, hlt, rfl⟩, rfl, rfl, hbelow ▸ rfl⟩
  · have hkeeps := (keeps_callNative cfg native site args _).1 _ _ hnative
    exact Or.inr ⟨rfl, yields_callNative cfg native site args _ _ _ hnative, hkeeps.ip,
      hkeeps.active, hkeeps.frames, hkeeps.suspended⟩

theorem executed_leave {v : Value} {s t : State} {flow : Flow} (hreturns : s.Returns p v)
    (h : leave v s = .ok flow t) : s.Executed p cfg flow t := by
  rcases leave_eq_ok h with ⟨rfl, hframes, rfl⟩ | ⟨rfl, hleft⟩
  · exact .halt hframes (.refl _)
  · exact .leave hreturns hleft

theorem executed_instruction {i : Instruction} {s t : State} {flow : Flow}
    (hnext : s.next? p = some i) (h : instruction p cfg i s = .ok flow t) :
    s.Executed p cfg flow t := by
  by_cases htransfers : i.op.transfers = false
  · exact .onward (yields_instruction htransfers s flow t h)
      ((keepsCalls_instruction htransfers s).1 flow t h)
  by_cases hop : i.op = .call ∨ i.op = .callWith
  · obtain ⟨callee, -, hcases⟩ := call_instruction_eq_ok hop h
    rcases hcases with ⟨_, _, -, -, -, rfl, hentered⟩ | ⟨-, rfl, hcalls⟩
    · exact .enter hnext hop hentered
    · exact .onward trivial hcalls
  -- A return is left; that of a value first pops the value.
  obtain ⟨op, operand⟩ := i
  cases op
  case ret => exact executed_leave (.null hnext rfl) h
  case retValue =>
    obtain ⟨v, u, hpop, hleave⟩ := bind_eq_ok h
    obtain ⟨rest, hoperands, rfl⟩ := pop_eq_ok hpop
    have hreturns : s.Returns p v :=
      .value hnext rfl (Stack.pop?_eq_some_iff.mpr (congrArg Stack.topDown hoperands))
    rcases leave_eq_ok hleave with ⟨rfl, hframes, rfl⟩ | ⟨rfl, hleft⟩
    · exact .halt hframes ⟨rfl, rfl, rfl, rfl⟩
    · exact .leave hreturns ⟨hleft.resumed⟩
  all_goals simp [Opcode.transfers] at htransfers hop

section Failure

variable {R : State → State → Prop} [IsPreorder State R]

theorem failsBy_callValue
    (hnative : ∀ native site args, FailsBy R (callNative cfg native site args)) (callee : Value)
    (site : Option Value) (args : List Value) :
    FailsBy R (callValue p cfg callee site args) := by
  have henter : ∀ c, FailsBy R (enter p cfg c site args) := by
    intro c s f t h
    rw [enter_eq_error h]
    exact Std.Refl.refl s
  cases callee with
  | closure c => exact henter c
  | native n =>
    refine FailsBy.bind (keeps_read _) fun found => ?_
    cases found with
    | none => exact (keeps_fault _).failsBy
    | some native => exact hnative native site args
  | object o =>
    refine FailsBy.bind (keeps_read _) fun found => ?_
    cases found with
    | none => exact (keeps_fault _).failsBy
    | some c => exact henter c
  | _ => exact (keeps_fault _).failsBy

/-- A call pops, and then fails at once or in a native. -/
theorem failsBy_call (hpopped : ∀ {s t : State}, s.Popped t → R s t)
    (hnative : ∀ native site args, FailsBy R (callNative cfg native site args))
    (n : Nat) (withSite : Bool) : FailsBy R (call p cfg n withSite) := by
  refine FailsBy.bind (keeps_popN hpopped n) fun args => ?_
  refine FailsBy.bind (keeps_pop hpopped) fun callee => ?_
  cases withSite with
  | false => exact failsBy_callValue hnative callee none args
  | true =>
    refine FailsBy.bind (keeps_pop hpopped) fun site => ?_
    exact failsBy_callValue hnative callee (some site) args

end Failure

/-- If every frame has its operands, a return fails for want of a value at most, and then has done
    nothing. -/
theorem return_eq_error {i : Instruction} {s t : State} {f : Fault}
    (hop : i.op = .ret ∨ i.op = .retValue) (hsize : s.frames.size = s.suspended.size)
    (h : instruction p cfg i s = .error f t) : t = s := by
  obtain ⟨op, operand⟩ := i
  rcases hop with hop | hop <;> cases hop
  · exact absurd hsize (leave_eq_error h)
  · obtain hpop | ⟨v, u, hpop, hleave⟩ := bind_eq_error h
    · exact pop_eq_error hpop
    · obtain ⟨rest, -, rfl⟩ := pop_eq_ok hpop
      have hne := leave_eq_error hleave
      exact absurd hsize hne

/-- No instruction that fails touches the calls in progress, if every frame has its operands. -/
theorem instruction_eq_error {i : Instruction} {s t : State} {f : Fault}
    (hsize : s.frames.size = s.suspended.size) (h : instruction p cfg i s = .error f t) :
    s.SameCalls t := by
  by_cases htransfers : i.op.transfers = false
  · exact (keepsCalls_instruction htransfers s).2 f t h
  by_cases hop : i.op = .ret ∨ i.op = .retValue
  · rw [return_eq_error hop hsize h]
    exact .refl s
  · have hnative : ∀ native site args, FailsBy SameCalls (callNative cfg native site args) :=
      fun native site args => (keeps_callNative cfg native site args).failsBy
    obtain ⟨op, operand⟩ := i
    cases op
    case call => exact failsBy_call SameCalls.of_popped hnative _ false s f t h
    case callWith => exact failsBy_call SameCalls.of_popped hnative _ true s f t h
    all_goals simp [Opcode.transfers] at htransfers hop

end Exec

namespace Progress

theorem of_eq_running {r : EStateM.Result Fault State Flow} {t : State}
    (h : of r = .running t) :
    r = .ok .transfer t ∨
      ∃ flow u, r = .ok flow u ∧ flow.Local ∧ t.active = u.active ∧ t.frames = u.frames ∧
        t.suspended = u.suspended := by
  unfold of at h
  split at h <;> cases h
  · exact Or.inr ⟨_, _, rfl, trivial, rfl, rfl, rfl⟩
  · exact Or.inr ⟨_, _, rfl, trivial, rfl, rfl, rfl⟩
  · exact Or.inl rfl

theorem of_eq_halted {r : EStateM.Result Fault State Flow} {t : State} (h : of r = .halted t) :
    r = .ok .halt t := by
  unfold of at h
  split at h <;> cases h
  rfl

theorem of_eq_failed {r : EStateM.Result Fault State Flow} {f : Fault} {t : State}
    (h : of r = .failed f t) : r = .error f t := by
  unfold of at h
  split at h <;> cases h
  rfl

end Progress

namespace State

variable {p : Program} {cfg : Settings} {s t : State}

/-- How a step that goes on leads from `s` to `t`. -/
inductive Transition (p : Program) (cfg : Settings) (s t : State) : Prop
  | stay (hactive : t.active = s.active) (hframes : t.frames = s.frames)
      (hsuspended : t.suspended = s.suspended)
  | enter {i : Instruction} (hnext : s.next? p = some i)
      (hop : i.op = .call ∨ i.op = .callWith) (hentered : s.Entered p cfg i t)
  | leave {v : Value} (hreturns : s.Returns p v) (hleft : s.Left v t)

theorem Entered.of_logged {i j : Instruction} (h : (s.logged cfg j).Entered p cfg i t) :
    s.Entered p cfg i t := by
  obtain ⟨log, hlog⟩ := logged_eq cfg j s
  rw [hlog] at h
  exact ⟨h.room, h.ip, h.active, h.operands, h.frames, h.suspended⟩

/-- A log line changes nothing in the calls in progress. -/
theorem Executed.of_logged {flow : Flow} {j : Instruction}
    (h : (s.logged cfg j).Executed p cfg flow t) : s.Executed p cfg flow t := by
  obtain ⟨log, hlog⟩ := logged_eq cfg j s
  cases h with
  | onward hlocal hcalls => exact .onward hlocal ((sameCalls_logged cfg j s).trans hcalls)
  | enter hnext hop hentered =>
    rw [hlog] at hnext
    exact .enter hnext hop hentered.of_logged
  | leave hreturns hleft =>
    rw [hlog] at hreturns hleft
    refine .leave ?_ ⟨hleft.resumed⟩
    cases hreturns with
    | value hnext hop hpop => exact .value hnext hop hpop
    | null hnext hop => exact .null hnext hop
    | ran_off hnext => exact .ran_off hnext
  | halt hframes hcalls =>
    rw [hlog] at hframes
    exact .halt hframes ((sameCalls_logged cfg j s).trans hcalls)

/-- The operation that a step executes. -/
theorem step_eq (p : Program) (cfg : Settings) (s : State) :
    ∃ r, s.step p cfg = Progress.of r ∧ (∀ flow t, r = .ok flow t → s.Executed p cfg flow t) ∧
      (s.frames.size = s.suspended.size → ∀ f t, r = .error f t → s.SameCalls t) := by
  unfold step
  cases hnext : s.next? p with
  | none =>
    refine ⟨_, rfl, fun flow t h => ?_, fun hsize f t h => ?_⟩
    · exact Exec.executed_leave (.ran_off hnext) h
    · exact absurd hsize (Exec.leave_eq_error h)
  | some i =>
    have hcalls := sameCalls_logged cfg i s
    have hnext' : (s.logged cfg i).next? p = some i := by
      rw [next?, hcalls.active, hcalls.ip]
      exact hnext
    refine ⟨_, rfl, fun flow t h => ?_, fun hsize f t h => ?_⟩
    · exact (Exec.executed_instruction hnext' h).of_logged
    · refine hcalls.trans (Exec.instruction_eq_error ?_ h)
      rw [hcalls.frames, hcalls.suspended, hsize]

/-- A step that goes on stays in the active call, enters a function or returns. -/
theorem step_running (h : s.step p cfg = .running t) : Transition p cfg s t := by
  obtain ⟨r, hr, hok, -⟩ := step_eq p cfg s
  rw [hr] at h
  rcases Progress.of_eq_running h with rfl | ⟨flow, u, rfl, hlocal, hactive, hframes, hsuspended⟩
  · cases hok .transfer t rfl with
    | onward hlocal => cases hlocal
    | enter hnext hop hentered => exact .enter hnext hop hentered
    | leave hreturns hleft => exact .leave hreturns hleft
  · cases hok flow u rfl with
    | onward _ hcalls =>
      exact .stay (hactive.trans hcalls.active) (hframes.trans hcalls.frames)
        (hsuspended.trans hcalls.suspended)
    | enter | leave | halt => cases hlocal

/-- A step at a call instruction that goes on enters a closure's function, or has the result of a
    native. -/
theorem call_step_running {i : Instruction} (hnext : s.next? p = some i)
    (hop : i.op = .call ∨ i.op = .callWith) (h : s.step p cfg = .running t) :
    ∃ callee, s.operands.topDown[i.operand.toNat]? = some callee ∧
      ((∃ c closure, s.store.calledClosure? callee = some c ∧
          s.store.closures[c]? = some closure ∧ t.active = some closure.function ∧
            s.Entered p cfg i t) ∨
        (s.store.calledClosure? callee = none ∧ t.frames = s.frames)) := by
  obtain ⟨log, hlog⟩ := logged_eq cfg i s
  unfold step at h
  rw [hnext] at h
  rcases Progress.of_eq_running h with hok | ⟨flow, u, hok, hlocal, -, hframes, -⟩
  · obtain ⟨callee, hcallee, hcases⟩ := Exec.call_instruction_eq_ok hop hok
    rw [hlog] at hcallee
    refine ⟨callee, hcallee, ?_⟩
    rcases hcases with ⟨c, closure, hc, hclosure, hactive, -, hentered⟩ | ⟨-, hflow, -⟩
    · rw [hlog] at hc hclosure
      exact Or.inl ⟨c, closure, hc, hclosure, hactive, hentered.of_logged⟩
    · cases hflow
  · obtain ⟨callee, hcallee, hcases⟩ := Exec.call_instruction_eq_ok hop hok
    rw [hlog] at hcallee
    refine ⟨callee, hcallee, ?_⟩
    rcases hcases with ⟨_, _, -, -, -, rfl, -⟩ | ⟨hnone, -, hcalls⟩
    · cases hlocal
    · rw [hlog] at hnone hcalls
      exact Or.inr ⟨hnone, hframes.trans hcalls.frames⟩

/-- The machine halts at the top level only. -/
theorem step_halted (h : s.step p cfg = .halted t) : s.frames = .empty ∧ s.SameCalls t := by
  obtain ⟨r, hr, hok, -⟩ := step_eq p cfg s
  rw [hr] at h
  cases hok .halt t (Progress.of_eq_halted h) with
  | onward hlocal => cases hlocal
  | halt hframes hcalls => exact ⟨hframes, hcalls⟩

theorem step_failed {f : Fault} (hsize : s.frames.size = s.suspended.size)
    (h : s.step p cfg = .failed f t) : s.SameCalls t := by
  obtain ⟨r, hr, -, herror⟩ := step_eq p cfg s
  rw [hr] at h
  exact herror hsize f t (Progress.of_eq_failed h)

end State

end StackMachine
