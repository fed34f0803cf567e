import StackMachine.Proofs.Machine.Operation

/-!
# What calls and returns do

The results of `Exec.call` and `Exec.leave` taken apart: what a call takes off the operands, the
state in which a closure is entered, and the state in which its caller goes on.
-/

namespace StackMachine

/-- The closure that a call of a value enters: the value itself, or the one that an object holds
    to be called. -/
def Store.calledClosure? (st : Store) : Value → Option ClosureRef
  | .closure c => some c
  | .object o => st.function? o
  | _ => none

/-- The operands below the arguments, the callee and, if there is one, the call site of a call
    instruction. -/
def State.belowCall (s : State) (i : Instruction) : Stack Value :=
  .ofTopDown (s.operands.topDown.drop (i.operand.toNat + if i.op = .callWith then 2 else 1))

/-- A call instruction leads from `s` into a function: the function starts with no operands of its
    own, the caller's place and scope are on the frames, and what is left of its operands is on
    the suspended ones. -/
structure State.Entered (p : Program) (cfg : Settings) (i : Instruction) (s t : State) :
    Prop where
  room : s.frames.size < cfg.maxCallDepth
  ip : t.ip = 0
  active : ∃ n, n < p.functions.size ∧ t.active = some n
  operands : t.operands = .empty
  frames : t.frames = s.frames.push ⟨s.active, s.ip + 1, s.scope⟩
  suspended : t.suspended = s.suspended.push (s.belowCall i)

/-- The call instruction `i` calls a native in this state, and leaves `rest` of the operands. -/
structure State.CallsNative (s : State) (i : Instruction) (native : Native) (site : Option Value)
    (args : List Value) (rest : Stack Value) : Prop where
  op : i.op = .call ∨ i.op = .callWith
  callee : ∃ n, s.store.natives[n]? = some native ∧
    s.operands.topDown = args.reverse ++ .native n :: (site.toList ++ rest.topDown)
  args : args.length = i.operand.toNat
  site : site.isSome = decide (i.op = .callWith)

/-- A return leads from `s` to its caller, which goes on with a value on top of its operands. -/
structure State.Left (v : Value) (s t : State) : Prop where
  resumed : ∃ frame operands,
    s.frames = t.frames.push frame ∧ s.suspended = t.suspended.push operands ∧
      t.ip = frame.returnIp ∧ t.active = frame.caller ∧ t.scope = frame.scope ∧
        t.operands = operands.push v

/-- The next step returns a value: that of the top operand, or null without an instruction that
    returns one. -/
inductive State.Returns (p : Program) (s : State) : Value → Prop
  | value {i : Instruction} {v : Value} {rest : Stack Value} (hnext : s.next? p = some i)
      (hop : i.op = .retValue) (hpop : s.operands.pop? = some (v, rest)) : Returns p s v
  | null {i : Instruction} (hnext : s.next? p = some i) (hop : i.op = .ret) : Returns p s .null
  | ran_off (hnext : s.next? p = none) : Returns p s .null

namespace Exec

/-! ## Returns -/

/-- At the top level a return halts the machine and changes nothing; anywhere else it takes a frame
    off and goes on where that says, with the value on top of the operands that go with it. -/
theorem leave_eq_ok_state {v : Value} {s t : State} {flow : Flow} (h : leave v s = .ok flow t) :
    (flow = .halt ∧ s.frames = .empty ∧ t = s) ∨
      flow = .transfer ∧ ∃ (frame : Frame) (frames : Stack Frame) (operands : Stack Value)
        (suspended : Stack (Stack Value)), s.frames = frames.push frame ∧
          s.suspended = suspended.push operands ∧
            t = { s with
              ip := frame.returnIp
              active := frame.caller
              scope := frame.scope
              operands := operands.push v
              frames
              suspended } := by
  unfold leave at h
  split at h
  · rename_i hframes
    cases h
    exact Or.inl ⟨rfl, Stack.ext_topDown (Stack.pop?_eq_none_iff.mp hframes), rfl⟩
  · rename_i frame frames hframes
    split at h
    · cases h
    · rename_i operands suspended hsuspended
      cases h
      have hf := Stack.pop?_eq_some_iff.mp hframes
      have hs := Stack.pop?_eq_some_iff.mp hsuspended
      exact Or.inr ⟨rfl, frame, frames, operands, suspended, Stack.ext_topDown hf,
        Stack.ext_topDown hs, rfl⟩

/-- A return halts the machine or resumes the caller. -/
theorem leave_eq_ok {v : Value} {s t : State} {flow : Flow} (h : leave v s = .ok flow t) :
    (flow = .halt ∧ s.frames = .empty ∧ t = s) ∨ (flow = .transfer ∧ s.Left v t) := by
  rcases leave_eq_ok_state h with hhalt | ⟨hflow, frame, frames, operands, suspended, hf, hs, rfl⟩
  · exact Or.inl hhalt
  · exact Or.inr ⟨hflow, ⟨frame, operands, hf, hs, rfl, rfl, rfl, rfl⟩⟩

/-- A return fails only where a frame has no operands to go with it, and then has taken off the
    frame. -/
theorem leave_eq_error_state {v : Value} {s t : State} {f : Fault} (h : leave v s = .error f t) :
    f = .stackUnderflow ∧ s.frames.size ≠ s.suspended.size ∧
      ∃ frames : Stack Frame, t = { s with frames } := by
  unfold leave at h
  split at h
  · cases h
  · rename_i frame frames hframes
    split at h
    · rename_i hsuspended
      cases h
      have hf := Stack.pop?_eq_some_iff.mp hframes
      have hs := Stack.pop?_eq_none_iff.mp hsuspended
      refine ⟨rfl, ?_, frames, rfl⟩
      rw [s.frames.size_eq, s.suspended.size_eq, hf, hs]
      simp
    · cases h

theorem leave_eq_error {v : Value} {s t : State} {f : Fault} (h : leave v s = .error f t) :
    s.frames.size ≠ s.suspended.size :=
  (leave_eq_error_state h).2.1

/-! ## Calls -/

/-- Where a call gets as far as calling, the arguments, the callee and the call site have been
    taken off the operands. -/
theorem call_eq_ok {p : Program} {cfg : Settings} {n : Nat} {withSite : Bool} {s t : State}
    {flow : Flow} (h : call p cfg n withSite s = .ok flow t) :
    ∃ (args : List Value) (callee : Value) (site : Option Value) (rest : Stack Value),
      s.operands.topDown = args.reverse ++ callee :: (site.toList ++ rest.topDown) ∧
        args.length = n ∧ site.isSome = withSite ∧
          callValue p cfg callee site args { s with operands := rest } = .ok flow t := by
  obtain ⟨args, s₁, hargs, h⟩ := bind_eq_ok h
  obtain ⟨callee, s₂, hcallee, h⟩ := bind_eq_ok h
  obtain ⟨rest₁, hrest₁, hlength, rfl⟩ := popN_eq_ok hargs
  obtain ⟨rest₂, hrest₂, rfl⟩ := pop_eq_ok hcallee
  change rest₁ = rest₂.push callee at hrest₂
  cases withSite with
  | false =>
    refine ⟨args, callee, none, rest₂, ?_, hlength, rfl, h⟩
    rw [hrest₁, hrest₂]
    rfl
  | true =>
    obtain ⟨site, s₃, hsite, h⟩ := bind_eq_ok h
    obtain ⟨rest₃, hrest₃, rfl⟩ := pop_eq_ok hsite
    change rest₂ = rest₃.push site at hrest₃
    refine ⟨args, callee, some site, rest₃, ?_, hlength, rfl, h⟩
    rw [hrest₁, hrest₂, Stack.topDown_push, hrest₃]
    rfl

/-- Only a closure that has a function, with the depth limit not reached and a symbol for each
    parameter that gets an argument, is entered. -/
theorem enter_eq_ok {p : Program} {cfg : Settings} {c : ClosureRef} {site : Option Value}
    {args : List Value} {s t : State} {flow : Flow}
    (h : enter p cfg c site args s = .ok flow t) :
    flow = .transfer ∧ s.frames.size < cfg.maxCallDepth ∧
      ∃ closure function bound, s.store.closures[c]? = some closure ∧
        p.functions[closure.function]? = some function ∧
          bindings p function.params.toList args = .ok bound ∧
            t = { s with
              ip := 0
              active := some closure.function
              scope := s.store.scopes.size
              operands := .empty
              frames := s.frames.push ⟨s.active, s.ip + 1, s.scope⟩
              suspended := s.suspended.push s.operands
              store := (bound ++ callBindings c site).foldl
                (fun st (name, v) => st.define s.store.scopes.size name v)
                (s.store.newScope (some closure.scope)).2 } := by
  unfold enter at h
  split at h
  · cases h
  · rename_i hroom
    split at h
    · cases h
    · rename_i closure hclosure
      split at h
      · cases h
      · rename_i function hfunction
        split at h
        · cases h
        · rename_i bound hbound
          cases h
          exact ⟨rfl, by omega, closure, function, bound, hclosure, hfunction, hbound, rfl⟩

/-- A closure that is not entered leaves everything as it was. -/
theorem enter_eq_error {p : Program} {cfg : Settings} {c : ClosureRef} {site : Option Value}
    {args : List Value} {s t : State} {f : Fault}
    (h : enter p cfg c site args s = .error f t) : t = s := by
  unfold enter at h
  split at h
  · cases h; rfl
  · split at h
    · cases h; rfl
    · split at h
      · cases h; rfl
      · split at h
        · cases h; rfl
        · cases h

/-- A call that ends well enters a closure or gives the result of a native. -/
theorem callValue_eq_ok {p : Program} {cfg : Settings} {callee : Value} {site : Option Value}
    {args : List Value} {s t : State} {flow : Flow}
    (h : callValue p cfg callee site args s = .ok flow t) :
    (∃ c, s.store.calledClosure? callee = some c ∧ enter p cfg c site args s = .ok flow t) ∨
      ∃ n native, callee = .native n ∧ s.store.natives[n]? = some native ∧
        callNative cfg native site args s = .ok flow t := by
  cases callee with
  | closure c => exact Or.inl ⟨c, rfl, h⟩
  | native n =>
    obtain ⟨found, u, hread, h⟩ := bind_eq_ok h
    obtain ⟨hfound, rfl⟩ := read_eq_ok hread
    cases found with
    | none => cases h
    | some native => exact Or.inr ⟨n, native, rfl, hfound, h⟩
  | object o =>
    obtain ⟨found, u, hread, h⟩ := bind_eq_ok h
    obtain ⟨hfound, rfl⟩ := read_eq_ok hread
    cases found with
    | none => cases h
    | some c => exact Or.inl ⟨c, hfound, h⟩
  | _ => cases h

theorem callNative_eq_ok {cfg : Settings} {native : Native} {site : Option Value}
    {args : List Value} {s t : State} {flow : Flow}
    (h : callNative cfg native site args s = .ok flow t) :
    flow = .next ∧ ∃ v store,
      Library.callWith cfg.host native (site.getD .null) args s.store = .ok v store ∧
        t = { s with operands := s.operands.push v, store } := by
  unfold callNative at h
  split at h
  · obtain ⟨v, u, hact, h⟩ := bind_eq_ok h
    cases h
    simp only [act] at hact
    split at hact <;> cases hact
    rename_i store hcall
    exact ⟨rfl, v, store, hcall, rfl⟩
  · cases h

/-- A native gives its result at once, to the call that is executed. -/
theorem keeps_callNative (cfg : Settings) (native : Native) (site : Option Value)
    (args : List Value) : Keeps State.SameCalls (callNative cfg native site args) := by
  unfold callNative
  split
  · refine (keeps_act fun s store => ⟨rfl, rfl, rfl, rfl⟩).bind fun v => ?_
    exact (keeps_change fun s => ⟨rfl, rfl, rfl, rfl⟩).bind fun _ => keeps_pure _
  · exact keeps_fault _

theorem yields_callNative (cfg : Settings) (native : Native) (site : Option Value)
    (args : List Value) : Yields (· = .next) (callNative cfg native site args) := by
  unfold callNative
  split
  · exact Yields.bind fun v => Yields.bind fun _ => Yields.pure rfl
  · exact yields_fault _

end Exec

end StackMachine
