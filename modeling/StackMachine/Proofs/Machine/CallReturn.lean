import StackMachine.Proofs.Machine.Run
import StackMachine.Proofs.Machine.Transition

/-!
# Calls return to their callers

Until a call that entered a function returns, the caller's frames and operands stay below
everything that happens (`State.Inside`); when it does, the caller goes on behind its call
instruction as it was, with one value in place of the arguments and the callee
(`State.Resumed`).  This depends on nothing the function does: calls that it makes stack up and
come down on top of its own.
-/

namespace StackMachine.State

variable {p : Program} {cfg : Settings} {s t u : State} {i : Instruction}

/-- In `t` the call that `i` made in `s` is in progress, with as many frames as suspended operands
    for the calls inside it. -/
def Inside (s : State) (i : Instruction) (t : State) : Prop :=
  ∃ (frames : List Frame) (suspended : List (Stack Value)), frames.length = suspended.length ∧
    t.frames.topDown = frames ++ (s.frames.push ⟨s.active, s.ip + 1, s.scope⟩).topDown ∧
      t.suspended.topDown = suspended ++ (s.suspended.push (s.belowCall i)).topDown

/-- In `t` the caller of `i` in `s` goes on with the value that the call gave. -/
structure Resumed (s : State) (i : Instruction) (v : Value) (t : State) : Prop where
  ip : t.ip = s.ip + 1
  active : t.active = s.active
  scope : t.scope = s.scope
  frames : t.frames = s.frames
  suspended : t.suspended = s.suspended
  operands : t.operands = (s.belowCall i).push v

/-- For up to `k` steps from `s` the machine has never as many calls in progress as in `s`. -/
def Away (p : Program) (cfg : Settings) (s : State) (k : Nat) : Prop :=
  ∀ j t, 0 < j → j ≤ k → s.steps p cfg j = .unfinished t → t.frames.size ≠ s.frames.size

theorem Inside.size_lt (h : s.Inside i t) : s.frames.size < t.frames.size := by
  obtain ⟨frames, suspended, -, hframes, -⟩ := h
  rw [t.frames.size_eq, s.frames.size_eq, hframes, Stack.topDown_push, List.length_append,
    List.length_cons]
  omega

/-- A call instruction whose callee is a closure, or an object that holds one, enters it if the
    run goes on at all. -/
theorem entered_of_step {callee : Value} {c : ClosureRef} (hnext : s.next? p = some i)
    (hop : i.op = .call ∨ i.op = .callWith)
    (hcallee : s.operands.topDown[i.operand.toNat]? = some callee)
    (hclosure : s.store.calledClosure? callee = some c) (h : s.step p cfg = .running t) :
    s.Entered p cfg i t := by
  obtain ⟨callee', hcallee', hcases⟩ := call_step_running hnext hop h
  obtain rfl : callee = callee' := Option.some.inj (hcallee.symm.trans hcallee')
  rcases hcases with ⟨_, _, -, -, -, hentered⟩ | ⟨hnone, -⟩
  · exact hentered
  · rw [hclosure] at hnone
    cases hnone

theorem inside_of_entered (h : s.Entered p cfg i t) : s.Inside i t := by
  refine ⟨[], [], rfl, ?_, ?_⟩
  · rw [h.frames]
    rfl
  · rw [h.suspended]
    rfl

/-- A step inside a call stays inside, or is the one that returns from it. -/
theorem Inside.step (hin : s.Inside i t) (h : t.step p cfg = .running u) :
    s.Inside i u ∨ ∃ v, t.Returns p v ∧ s.Resumed i v u := by
  obtain ⟨frames, suspended, hlength, hframes, hsuspended⟩ := hin
  cases step_running h with
  | stay _ hf hs => exact Or.inl ⟨frames, suspended, hlength, hf ▸ hframes, hs ▸ hsuspended⟩
  | @enter j _ _ hentered =>
    refine Or.inl ⟨⟨t.active, t.ip + 1, t.scope⟩ :: frames, t.belowCall j :: suspended,
      congrArg Nat.succ hlength, ?_, ?_⟩
    · rw [hentered.frames, Stack.topDown_push, hframes]
      rfl
    · rw [hentered.suspended, Stack.topDown_push, hsuspended]
      rfl
  | leave hreturns hleft =>
    obtain ⟨frame, operands, hf, hs, hip, hactive, hscope, hoperands⟩ := hleft.resumed
    rw [hf, Stack.topDown_push] at hframes
    rw [hs, Stack.topDown_push] at hsuspended
    -- The frame that the return takes off is that of an inner call, or that of the call itself.
    cases frames with
    | cons inner frames =>
      cases suspended with
      | nil => cases hlength
      | cons innerOperands suspended =>
        refine Or.inl ⟨frames, suspended, Nat.succ.inj hlength, ?_, ?_⟩
        · exact (List.cons.inj hframes).2
        · exact (List.cons.inj hsuspended).2
    | nil =>
      cases suspended with
      | cons innerOperands suspended => cases hlength
      | nil =>
        obtain ⟨rfl, hf'⟩ := List.cons.inj hframes
        obtain ⟨rfl, hs'⟩ := List.cons.inj hsuspended
        exact Or.inr ⟨_, hreturns, hip, hactive, hscope, Stack.ext_topDown hf',
          Stack.ext_topDown hs', hoperands⟩

/-- As long as the depth of the caller is not reached again the call is in progress, and the step
    that reaches it returns to the caller. -/
theorem inside_or_resumed {callee : Value} {c : ClosureRef} (hnext : s.next? p = some i)
    (hop : i.op = .call ∨ i.op = .callWith)
    (hcallee : s.operands.topDown[i.operand.toNat]? = some callee)
    (hclosure : s.store.calledClosure? callee = some c) (k : Nat)
    (hrun : s.steps p cfg (k + 1) = .unfinished t) (haway : s.Away p cfg k) :
    s.Inside i t ∨
      ∃ u v, s.steps p cfg k = .unfinished u ∧ u.Returns p v ∧ s.Resumed i v t := by
  induction k generalizing t with
  | zero =>
    have hstep := steps_one_eq_unfinished.mp hrun
    exact Or.inl (inside_of_entered (entered_of_step hnext hop hcallee hclosure hstep))
  | succ k ih =>
    obtain ⟨u, hu, hstep⟩ := steps_succ_eq_unfinished.mp hrun
    have haway' : s.Away p cfg k := fun j w hj hjk => haway j w hj (Nat.le_succ_of_le hjk)
    rcases ih hu haway' with hin | ⟨_, _, _, _, hresumed⟩
    · rcases hin.step hstep with hin' | ⟨v, hreturns, hresumed⟩
      · exact Or.inl hin'
      · exact Or.inr ⟨u, v, hu, hreturns, hresumed⟩
    · exact absurd (congrArg Stack.size hresumed.frames) (haway (k + 1) u (by omega) (by omega) hu)

/-- A call instruction that enters a closure is matched by a return.  Until the machine has as many
    calls in progress as before the call, the caller's frames, its suspended operands and what the
    call left of its operands are untouched at the bottom.  The step that first comes back to that
    number returns a value, and the caller goes on with it behind the call. -/
theorem call_resumes {callee : Value} {c : ClosureRef} (hnext : s.next? p = some i)
    (hop : i.op = .call ∨ i.op = .callWith)
    (hcallee : s.operands.topDown[i.operand.toNat]? = some callee)
    (hclosure : s.store.calledClosure? callee = some c) :
    (∀ k t, 0 < k → s.steps p cfg k = .unfinished t → s.Away p cfg k →
      s.frames.topDown <:+ t.frames.topDown ∧
        (s.suspended.push (s.belowCall i)).topDown <:+ t.suspended.topDown) ∧
    ∀ k t, s.steps p cfg (k + 1) = .unfinished t → s.Away p cfg k →
      t.frames.size = s.frames.size →
        ∃ u v, s.steps p cfg k = .unfinished u ∧ u.Returns p v ∧ s.Resumed i v t := by
  refine ⟨fun k t hk hrun haway => ?_, fun k t hrun haway hsize => ?_⟩
  · obtain ⟨k, rfl⟩ := Nat.exists_eq_succ_of_ne_zero (Nat.ne_of_gt hk)
    have haway' : s.Away p cfg k := fun j w hj hjk => haway j w hj (Nat.le_succ_of_le hjk)
    rcases inside_or_resumed hnext hop hcallee hclosure k hrun haway' with hin | hresumed
    · obtain ⟨frames, suspended, -, hframes, hsuspended⟩ := hin
      rw [hframes, hsuspended]
      refine ⟨?_, List.suffix_append _ _⟩
      exact (List.suffix_cons _ _).trans (List.suffix_append _ _)
    · obtain ⟨_, _, _, _, hresumed⟩ := hresumed
      exact absurd (congrArg Stack.size hresumed.frames) (haway _ t hk (Nat.le_refl _) hrun)
  · rcases inside_or_resumed hnext hop hcallee hclosure k hrun haway with hin | hresumed
    · exact absurd hsize (Nat.ne_of_gt hin.size_lt)
    · exact hresumed

/-- The called function leaves an operand behind and returns `true`. -/
theorem call_resumes_true :
    let p : Program := ⟨#[], #[], #[⟨.call, 1⟩],
      #[⟨#[], #[⟨.loadConst, 2⟩, ⟨.loadConst, 1⟩, ⟨.retValue, 0⟩]⟩]⟩
    let store := (((Store.empty fun _ => ⟨0⟩).newScope none).2.newClosure 0 Scope.global).2
    let s := { initial store {} with operands := .ofTopDown [.null, .closure 0, .bool false] }
    ∃ t u v, s.steps p {} 4 = .unfinished t ∧ s.Away p {} 3 ∧ t.frames.size = s.frames.size ∧
      s.steps p {} 3 = .unfinished u ∧ u.Returns p v ∧ s.Resumed ⟨.call, 1⟩ v t ∧
        t.operands.topDown = [.bool true, .bool false] := by
  intro p store s
  have hrun : s.steps p {} 4 = .unfinished (s.steps p {} 4).state := rfl
  have haway : s.Away p {} 3 := by
    intro j t hj hjk ht
    obtain rfl | rfl | rfl : j = 1 ∨ j = 2 ∨ j = 3 := by omega
    all_goals cases ht; decide
  have hcall := @call_resumes p {} s ⟨.call, 1⟩ (.closure 0) 0 rfl (Or.inl rfl) rfl rfl
  obtain ⟨u, v, hu, hreturns, hresumed⟩ := hcall.2 3 _ hrun haway rfl
  exact ⟨_, u, v, hrun, haway, rfl, hu, hreturns, hresumed, rfl⟩

end StackMachine.State
