import StackMachine.Proofs.Machine.Faults

/-!
# The limit on calls

The limit on the number of calls in progress is looked at when a closure is entered, and nowhere
else.  So a run under a lower limit is the run under a higher one, up to the call that the lower
limit forbids if there is one (`State.cutOff_or_uncut`).
-/

namespace StackMachine

/-- The settings with another limit on calls. -/
def Settings.withLimit (cfg : Settings) (limit : Nat) : Settings :=
  { cfg with maxCallDepth := limit }

/-- The second operation does what the first one does, unless the first one fails because `limit`
    calls are in progress. -/
def Limited {α : Type} (limit : Nat) (x y : Exec α) : Prop :=
  ∀ s, y s = x s ∨ ∃ t, x s = .error (.callDepthExceeded limit) t

namespace Limited

variable {α β : Type} {n : Nat}

theorem refl (x : Exec α) : Limited n x x := fun _ => Or.inl rfl

theorem bind {x : Exec α} {f g : α → Exec β} (h : ∀ a, Limited n (f a) (g a)) :
    Limited n (x >>= f) (x >>= g) := by
  intro s
  change EStateM.bind x g s = EStateM.bind x f s ∨
    ∃ t, EStateM.bind x f s = .error (.callDepthExceeded n) t
  unfold EStateM.bind
  cases x s with
  | ok a t => exact h a t
  | error f t => exact Or.inl rfl

end Limited

namespace Exec

variable {p : Program} {cfg : Settings} {n m : Nat}

/-- Where there is room under the lower limit there is room under the higher one. -/
theorem limited_enter (hnm : n ≤ m) (c : ClosureRef) (site : Option Value) (args : List Value) :
    Limited n (enter p (cfg.withLimit n) c site args) (enter p (cfg.withLimit m) c site args) := by
  intro s
  by_cases hfull : n ≤ s.frames.size
  · refine Or.inr ⟨s, ?_⟩
    unfold enter
    exact if_pos hfull
  · have hroom : ¬m ≤ s.frames.size := by omega
    refine Or.inl ?_
    unfold enter
    exact (if_neg hroom).trans (if_neg hfull).symm

theorem limited_callValue (hnm : n ≤ m) (callee : Value) (site : Option Value)
    (args : List Value) :
    Limited n (callValue p (cfg.withLimit n) callee site args)
      (callValue p (cfg.withLimit m) callee site args) := by
  cases callee with
  | closure c => exact limited_enter hnm c site args
  | object o =>
    refine Limited.bind fun found => ?_
    cases found with
    | none => exact .refl _
    | some c => exact limited_enter hnm c site args
  | _ => exact .refl _

theorem limited_call (hnm : n ≤ m) (count : Nat) (withSite : Bool) :
    Limited n (call p (cfg.withLimit n) count withSite)
      (call p (cfg.withLimit m) count withSite) := by
  refine Limited.bind fun args => Limited.bind fun callee => ?_
  cases withSite with
  | false => exact limited_callValue hnm callee none args
  | true => exact Limited.bind fun site => limited_callValue hnm callee (some site) args

/-- Only calls look at the limit. -/
theorem limited_instruction (hnm : n ≤ m) (i : Instruction) :
    Limited n (instruction p (cfg.withLimit n) i) (instruction p (cfg.withLimit m) i) := by
  obtain ⟨op, operand⟩ := i
  cases op
  case call | callWith => exact limited_call hnm _ _
  all_goals exact .refl _

end Exec

namespace State

variable {p : Program} {cfg : Settings} {n m : Nat} {s t u : State}

/-- A step under the higher limit is the one under the lower limit, unless that one is a call that
    is forbidden. -/
theorem step_withLimit (p : Program) (cfg : Settings) (hnm : n ≤ m) (s : State) :
    s.step p (cfg.withLimit m) = s.step p (cfg.withLimit n) ∨
      ∃ t, s.step p (cfg.withLimit n) = .failed (.callDepthExceeded n) t := by
  unfold step
  cases s.next? p with
  | none => exact Or.inl rfl
  | some i =>
    rcases Exec.limited_instruction hnm i (s.logged cfg i) with hsame | ⟨t, hcut⟩
    · exact Or.inl (congrArg Progress.of hsame)
    · exact Or.inr ⟨t, congrArg Progress.of hcut⟩

/-- A step that fails because of the limit is a call, with as many calls in progress as are
    allowed. -/
theorem depth_of_exceeded {limit : Nat} (hs : s.Controlled p cfg)
    (h : s.step p cfg = .failed (.callDepthExceeded limit) t) :
    limit = cfg.maxCallDepth ∧ t.frames.size = cfg.maxCallDepth ∧
      ∃ i, s.next? p = some i ∧ (i.op = .call ∨ i.op = .callWith) := by
  have hrefusal := refusal_of_step h
  have hcalls := step_failed hs.sizes h
  generalize hnext : s.next? p = next at hrefusal
  cases hrefusal with
  | @stops i _ _ _ _ _ hblames =>
    cases hblames with
    | ordinary hf => cases hf
    | operand hoperand => cases hoperand
    | depth hop hfull =>
      refine ⟨rfl, ?_, i, rfl, hop⟩
      rw [hcalls.frames]
      exact Nat.le_antisymm hs.depth hfull

/-- Under the limit `n` the run is cut off after `k` steps: these lead to the state `u`, under the
    limit `m` as well, and there a call fails because `n` calls are in progress. -/
structure CutOff (p : Program) (cfg : Settings) (n m : Nat) (s : State) (k : Nat) (u t : State) :
    Prop where
  agrees : ∀ j ≤ k,
    s.reset.steps p (cfg.withLimit m) j = s.reset.steps p (cfg.withLimit n) j
  reached : s.reset.steps p (cfg.withLimit n) k = .unfinished u
  call : ∃ i, u.next? p = some i ∧ (i.op = .call ∨ i.op = .callWith)
  ends : ∀ fuel, k < fuel →
    s.run p (cfg.withLimit n) fuel = .failed ⟨.callDepthExceeded n, t.stackTrace⟩ t
  depth : t.frames.size = n
  trace : t.stackTrace.length = n + 1

/-- The runs under the limits `n` and `m` are the same, and no call fails because of a limit. -/
structure Uncut (p : Program) (cfg : Settings) (n m : Nat) (s : State) : Prop where
  agrees : ∀ fuel, s.run p (cfg.withLimit m) fuel = s.run p (cfg.withLimit n) fuel
  never : ∀ fuel failure t, s.run p (cfg.withLimit n) fuel = .failed failure t →
    ∀ limit, failure.fault ≠ .callDepthExceeded limit
  diverges : s.Diverges p (cfg.withLimit m) ↔ s.Diverges p (cfg.withLimit n)

theorem cutOff_of_exceeded {k : Nat} (hnm : n ≤ m)
    (hu : s.reset.steps p (cfg.withLimit n) k = .unfinished u)
    (h : u.step p (cfg.withLimit n) = .failed (.callDepthExceeded n) t) :
    s.CutOff p cfg n m k u t := by
  obtain ⟨-, hdepth, hcall⟩ := depth_of_exceeded (controlled_of_reachable ⟨s, k, hu⟩) h
  refine ⟨fun j hj => ?_, hu, hcall, fun fuel hfuel => ?_, hdepth, ?_⟩
  · -- Before the call that fails every step is one that goes on.
    refine steps_congr j fun l hl w hw => ?_
    obtain ⟨v, hv⟩ := unfinished_of_le hu (show l + 1 ≤ k by omega)
    obtain ⟨w', hw', hstep⟩ := steps_succ_eq_unfinished.mp hv
    obtain rfl : w = w' := by
      rw [hw] at hw'
      exact Outcome.unfinished.inj hw'
    rcases step_withLimit p cfg hnm w with hsame | ⟨_, hcut⟩
    · exact hsame
    · rw [hstep] at hcut
      cases hcut
  · obtain ⟨d, rfl⟩ := Nat.exists_eq_add_of_lt hfuel
    rw [run, Nat.add_assoc, steps_add hu, steps, h]
  · rw [stackTrace, List.length_cons, List.length_map, ← t.frames.size_eq, hdepth]
    rfl

/-- The limit on calls only cuts runs off.  With a limit `n` up to `m` a run either fails in a call
    with exactly `n` calls in progress, up to which the run under `m` is the same, or it is the run
    under `m` to the end. -/
theorem cutOff_or_uncut (p : Program) (cfg : Settings) (s : State) (hnm : n ≤ m) :
    (∃ k u t, s.CutOff p cfg n m k u t) ∨ s.Uncut p cfg n m := by
  by_cases hcut : ∃ k u t, s.reset.steps p (cfg.withLimit n) k = .unfinished u ∧
      u.step p (cfg.withLimit n) = .failed (.callDepthExceeded n) t
  · obtain ⟨k, u, t, hu, h⟩ := hcut
    exact Or.inl ⟨k, u, t, cutOff_of_exceeded hnm hu h⟩
  · have hsame : ∀ fuel, s.run p (cfg.withLimit m) fuel = s.run p (cfg.withLimit n) fuel := by
      intro fuel
      refine steps_congr fuel fun k _ u hu => ?_
      rcases step_withLimit p cfg hnm u with hstep | ⟨t, hfails⟩
      · exact hstep
      · exact absurd ⟨k, u, t, hu, hfails⟩ hcut
    refine Or.inr ⟨hsame, fun fuel failure t hrun limit hfault => ?_, ?_⟩
    · obtain ⟨k, u, hu, -, hends⟩ := steps_eq_failed hrun
      rcases hends with hstep | ⟨-, reason, -, houtput⟩
      · rw [hfault] at hstep
        obtain ⟨rfl, -⟩ := depth_of_exceeded (controlled_of_reachable ⟨s, k, hu⟩) hstep
        exact hcut ⟨k, u, t, hu, hstep⟩
      · rw [hfault] at houtput
        cases houtput
    · simp only [Diverges, hsame]

/-- A function that calls itself is cut off with two calls in progress. -/
theorem cutOff_recursion :
    let p : Program := ⟨#["self"], #[], #[⟨.function, 0⟩, ⟨.call, 0⟩],
      #[⟨#[], #[⟨.load, 0⟩, ⟨.call, 0⟩]⟩]⟩
    let s := initial ((Store.empty fun _ => ⟨0⟩).newScope none).2 {}
    2 ≤ 3 ∧ ∃ k u t, s.CutOff p {} 2 3 k u t := by
  intro p s
  refine ⟨by decide, ?_⟩
  rcases cutOff_or_uncut p {} s (show 2 ≤ 3 by decide) with hcut | huncut
  · exact hcut
  · have hfailure : (s.run p (Settings.withLimit {} 2) 9).failure? =
        some ⟨.callDepthExceeded 2, [⟨some 0, 1⟩, ⟨some 0, 1⟩, ⟨none, 1⟩]⟩ := by decide +kernel
    obtain ⟨t, hrun⟩ := Outcome.failure?_eq_some_iff.mp hfailure
    exact absurd rfl (huncut.never 9 _ t hrun 2)

end State

end StackMachine
