import StackMachine.Proofs.Machine.Control

/-!
# Stack traces

Each frame of a machine stands for a call that the run made and that has not returned since
(`State.InProgress`).  So the stack trace of a failed run names the instruction that failed and,
going outwards, the call instructions that led there (`State.trace_of_failed`).
-/

namespace StackMachine.State

variable {p : Program} {cfg : Settings} {start s t u : State} {i : Instruction}

/-- The next step executes the call instruction `i`, whose callee is a closure of the function
    `function` or an object that holds one, and enters that function. -/
structure Calls (p : Program) (cfg : Settings) (s : State) (i : Instruction) (function : Nat) :
    Prop where
  next : s.next? p = some i
  op : i.op = .call ∨ i.op = .callWith
  callee : ∃ callee c closure, s.operands.topDown[i.operand.toNat]? = some callee ∧
    s.store.calledClosure? callee = some c ∧ s.store.closures[c]? = some closure ∧
      closure.function = function
  entered : ∃ t, s.step p cfg = .running t ∧ s.Entered p cfg i t ∧ t.active = some function

/-- After more than `k` and up to `n` steps, a run from `start` has more than `depth` calls in
    progress. -/
def Deeper (p : Program) (cfg : Settings) (start : State) (k n depth : Nat) : Prop :=
  ∀ j w, k < j → j ≤ n → start.steps p cfg j = .unfinished w → depth < w.frames.size

/-- After `n` steps from `start` the chunk `active` is executed and `frames` are its callers: each
    of them made a call, in a step of the run, that has not returned since. -/
inductive InProgress (p : Program) (cfg : Settings) (start : State) (n : Nat) :
    (active : Option Nat) → (frames : List Frame) → Prop
  | top : InProgress p cfg start n none []
  | call {k : Nat} {u : State} {i : Instruction} {function : Nat} (before : k < n)
      (reached : start.steps p cfg k = .unfinished u) (calls : u.Calls p cfg i function)
      (since : start.Deeper p cfg k n u.frames.size)
      (outer : InProgress p cfg start n u.active u.frames.topDown) :
      InProgress p cfg start n (some function) (⟨u.active, u.ip + 1, u.scope⟩ :: u.frames.topDown)

/-- The places of an active chunk and its callers. -/
def traceFrom (active : Option Nat) (ip : Nat) (frames : List Frame) : List CodePoint :=
  ⟨active, ip⟩ :: frames.map fun f => ⟨f.caller, f.callIp⟩

theorem stackTrace_eq (t : State) : t.stackTrace = traceFrom t.active t.ip t.frames.topDown := rfl

/-- A step that enters a function calls it. -/
theorem calls_of_entered (hnext : s.next? p = some i) (hop : i.op = .call ∨ i.op = .callWith)
    (hentered : s.Entered p cfg i t) (h : s.step p cfg = .running t) :
    ∃ function, t.active = some function ∧ s.Calls p cfg i function := by
  obtain ⟨callee, hcallee, hcases⟩ := call_step_running hnext hop h
  rcases hcases with ⟨c, closure, hc, hclosure, hactive, -⟩ | ⟨-, hframes⟩
  · exact ⟨closure.function, hactive, hnext, hop, ⟨callee, c, closure, hcallee, hc, hclosure, rfl⟩,
      ⟨t, h, hentered, hactive⟩⟩
  · -- A native leaves no frame behind.
    have hsize := congrArg Stack.size (hentered.frames.symm.trans hframes)
    rw [Stack.size_push] at hsize
    omega

theorem Deeper.succ {k n depth : Nat} (h : start.Deeper p cfg k n depth)
    (hrun : start.steps p cfg (n + 1) = .unfinished t) (hdepth : depth < t.frames.size) :
    start.Deeper p cfg k (n + 1) depth := by
  intro j w hj hjn hw
  by_cases hlast : j = n + 1
  · subst hlast
    rw [hrun] at hw
    cases hw
    exact hdepth
  · exact h j w hj (by omega) hw

namespace InProgress

/-- The calls are still in progress after one step more, if that leaves all their frames. -/
theorem succ {n : Nat} {active : Option Nat} {frames : List Frame}
    (h : start.InProgress p cfg n active frames)
    (hrun : start.steps p cfg (n + 1) = .unfinished t) (hsize : frames.length ≤ t.frames.size) :
    start.InProgress p cfg (n + 1) active frames := by
  induction h with
  | top => exact .top
  | @call k u _ _ before reached calls since _ ih =>
    rw [List.length_cons, ← u.frames.size_eq] at hsize
    have houter := ih (by rw [← u.frames.size_eq]; omega)
    exact .call (Nat.lt_succ_of_lt before) reached calls (since.succ hrun hsize) houter

theorem outer {n : Nat} {active : Option Nat} {frame : Frame} {frames : List Frame}
    (h : start.InProgress p cfg n active (frame :: frames)) :
    start.InProgress p cfg n frame.caller frames := by
  cases h with
  | call _ _ _ _ outer => exact outer

/-- A step makes a call, returns from the innermost one or does neither. -/
theorem step {n : Nat} (h : start.InProgress p cfg n s.active s.frames.topDown)
    (hs : start.steps p cfg n = .unfinished s) (hstep : s.step p cfg = .running t) :
    start.InProgress p cfg (n + 1) t.active t.frames.topDown := by
  have ht : start.steps p cfg (n + 1) = .unfinished t :=
    steps_succ_eq_unfinished.mpr ⟨s, hs, hstep⟩
  cases step_running hstep with
  | stay hactive hframes _ =>
    rw [hactive, hframes]
    exact h.succ ht (Nat.le_of_eq (by rw [hframes, s.frames.size_eq]))
  | enter hnext hop hentered =>
    obtain ⟨function, hactive, hcalls⟩ := calls_of_entered hnext hop hentered hstep
    have hsize : s.frames.size < t.frames.size := by
      rw [hentered.frames, Stack.size_push]
      omega
    have hsince : start.Deeper p cfg n (n + 1) s.frames.size :=
      Deeper.succ (fun j w hj hjn => absurd hj (by omega)) ht hsize
    have houter := h.succ ht (by rw [← s.frames.size_eq]; omega)
    rw [hactive, hentered.frames, Stack.topDown_push]
    exact .call (Nat.lt_succ_self n) hs hcalls hsince houter
  | leave _ hleft =>
    obtain ⟨frame, operands, hframes, -, -, hactive, -, -⟩ := hleft.resumed
    rw [hframes, Stack.topDown_push] at h
    rw [hactive]
    exact h.outer.succ ht (Nat.le_of_eq t.frames.size_eq.symm)

/-- All places but the outermost are those of functions. -/
theorem function_eq_none_iff {n : Nat} {active : Option Nat} {frames : List Frame}
    (h : start.InProgress p cfg n active frames) (ip j : Nat) (place : CodePoint)
    (hplace : (traceFrom active ip frames)[j]? = some place) :
    place.function = none ↔ j = frames.length := by
  induction h generalizing ip j with
  | top =>
    cases j with
    | zero =>
      cases hplace
      simp
    | succ j => simp [traceFrom] at hplace
  | call _ _ _ _ _ ih =>
    cases j with
    | zero =>
      cases hplace
      simp
    | succ j =>
      rw [ih _ j hplace, List.length_cons]
      omega

end InProgress

/-- The calls in progress at any point of a run from the top level. -/
theorem inProgress_steps {n : Nat} (hactive : start.active = none)
    (hframes : start.frames = .empty) (ht : start.steps p cfg n = .unfinished t) :
    start.InProgress p cfg n t.active t.frames.topDown := by
  induction n generalizing t with
  | zero =>
    cases ht
    rw [hactive, hframes]
    exact .top
  | succ n ih =>
    obtain ⟨s, hs, hstep⟩ := steps_succ_eq_unfinished.mp ht
    exact (ih hs).step hs hstep

/-- One of the first `n` steps from `start`, with `depth` calls in progress, executed a call
    instruction at `caller` that entered the function of `callee` and has not returned since. -/
def Made (p : Program) (cfg : Settings) (start : State) (n depth : Nat)
    (caller callee : CodePoint) : Prop :=
  ∃ k u i function, k < n ∧ start.steps p cfg k = .unfinished u ∧ u.Calls p cfg i function ∧
    caller = ⟨u.active, u.ip⟩ ∧ callee.function = some function ∧ u.frames.size = depth ∧
      start.Deeper p cfg k n depth

/-- Each place on the way outwards is that of the call to the one before it. -/
theorem InProgress.made {n : Nat} {active : Option Nat} {frames : List Frame}
    (h : start.InProgress p cfg n active frames) (ip j : Nat) (callee caller : CodePoint)
    (hcallee : (traceFrom active ip frames)[j]? = some callee)
    (hcaller : (traceFrom active ip frames)[j + 1]? = some caller) :
    ∃ depth, depth + (j + 1) = frames.length ∧ start.Made p cfg n depth caller callee := by
  induction h generalizing ip j with
  | top => simp [traceFrom] at hcaller
  | @call k u i function before reached calls since _ ih =>
    cases j with
    | zero =>
      cases hcallee
      cases hcaller
      refine ⟨u.frames.size, ?_, k, u, i, function, before, reached, calls, rfl, rfl, rfl, since⟩
      rw [List.length_cons, u.frames.size_eq]
    | succ j =>
      obtain ⟨depth, hdepth, hmade⟩ := ih _ j hcallee hcaller
      refine ⟨depth, ?_, hmade⟩
      rw [List.length_cons]
      omega

/-- The places are where `t` is and, going outwards, where the calls in progress were made in the
    first `n` steps from `start`. -/
structure Faithful (p : Program) (cfg : Settings) (start : State) (n : Nat) (t : State)
    (places : List CodePoint) : Prop where
  length : places.length = t.frames.size + 1
  innermost : places[0]? = some ⟨t.active, t.ip⟩
  outermost : ∀ j place, places[j]? = some place →
    (place.function = none ↔ j + 1 = places.length)
  calls : ∀ j callee caller, places[j]? = some callee → places[j + 1]? = some caller →
    ∃ depth, depth + (j + 1) = t.frames.size ∧ start.Made p cfg n depth caller callee

theorem InProgress.faithful {n : Nat}
    (h : start.InProgress p cfg n t.active t.frames.topDown) :
    start.Faithful p cfg n t t.stackTrace := by
  have hlength : t.stackTrace.length = t.frames.size + 1 := by
    simp [stackTrace_eq, traceFrom, t.frames.size_eq]
  refine ⟨hlength, rfl, fun j place hplace => ?_, fun j callee caller hcallee hcaller => ?_⟩
  · rw [h.function_eq_none_iff t.ip j place hplace, hlength, t.frames.size_eq]
    omega
  · rw [t.frames.size_eq]
    exact h.made t.ip j callee caller hcallee hcaller

/-- The only step that fails is one that executes an instruction. -/
theorem next?_of_step_failed {f : Fault} (hsize : s.frames.size = s.suspended.size)
    (h : s.step p cfg = .failed f t) : ∃ i, s.next? p = some i := by
  cases hnext : s.next? p with
  | some i => exact ⟨i, rfl⟩
  | none =>
    unfold step at h
    rw [hnext] at h
    exact absurd hsize (Exec.leave_eq_error (Progress.of_eq_failed h))

/-- The trace of a run that fails in an instruction has one place more than calls are in progress:
    that of the instruction, then those of the call instructions that led there, the innermost
    first.  If only the last flush fails, the trace is the place at the top level where the run
    stopped. -/
theorem trace_of_failed {fuel : Nat} {failure : Failure}
    (h : s.run p cfg fuel = .failed failure t) :
    (∃ n u i, s.reset.steps p cfg n = .unfinished u ∧ u.step p cfg = .failed failure.fault t ∧
      u.next? p = some i ∧ failure.trace[0]? = some ⟨u.active, u.ip⟩ ∧
        s.reset.Faithful p cfg n t failure.trace) ∨
    ∃ n u reason, s.reset.steps p cfg n = .unfinished u ∧ u.step p cfg = .halted t ∧
      t.sink.flushFailure = some reason ∧ failure.fault = .output reason ∧
        failure.trace = [⟨none, u.ip⟩] := by
  obtain ⟨n, u, hu, htrace, hends⟩ := steps_eq_failed h
  have hcontrolled : u.Controlled p cfg := by
    have hsteps := controlled_steps (controlled_reset p cfg s) n
    rw [hu] at hsteps
    exact hsteps
  rcases hends with hstep | ⟨hstep, reason, hreason, hfault⟩
  · obtain ⟨i, hnext⟩ := next?_of_step_failed hcontrolled.sizes hstep
    have hcalls := step_failed hcontrolled.sizes hstep
    have hprogress := inProgress_steps rfl rfl hu
    rw [← hcalls.active, ← hcalls.frames] at hprogress
    have hhead : failure.trace[0]? = some ⟨u.active, u.ip⟩ := by
      rw [htrace, stackTrace_eq, hcalls.active, hcalls.ip]
      rfl
    have hfaithful : s.reset.Faithful p cfg n t failure.trace := by
      rw [htrace]
      exact hprogress.faithful
    exact Or.inl ⟨n, u, i, hu, hstep, hnext, hhead, hfaithful⟩
  · obtain ⟨hframes, hcalls⟩ := step_halted hstep
    refine Or.inr ⟨n, u, reason, hu, hstep, hreason, hfault, ?_⟩
    have hactive := hcontrolled.active_none.mpr hframes
    rw [htrace, stackTrace_eq, hcalls.active, hcalls.ip, hcalls.frames, hactive, hframes]
    rfl

/-- The top level calls a function that returns, and then one that calls a third, where an addition
    has no operands. -/
theorem trace_of_failed_nested :
    let p : Program := ⟨#[], #[],
      #[⟨.function, 0⟩, ⟨.call, 0⟩, ⟨.pop, 0⟩, ⟨.function, 1⟩, ⟨.call, 0⟩],
      #[⟨#[], #[⟨.ret, 0⟩]⟩, ⟨#[], #[⟨.function, 2⟩, ⟨.call, 0⟩]⟩, ⟨#[], #[⟨.add, 0⟩]⟩]⟩
    let s := initial ((Store.empty fun _ => ⟨0⟩).newScope none).2 {}
    let places : List CodePoint := [⟨some 2, 0⟩, ⟨some 1, 1⟩, ⟨none, 4⟩]
    ∃ n u i t, s.run p {} 9 = .failed ⟨.stackUnderflow, places⟩ t ∧
      s.reset.steps p {} n = .unfinished u ∧ u.step p {} = .failed .stackUnderflow t ∧
        u.next? p = some i ∧ s.reset.Faithful p {} n t places := by
  intro p s places
  have hfailure : (s.run p {} 9).failure? = some ⟨.stackUnderflow, places⟩ := by decide +kernel
  obtain ⟨t, hrun⟩ := Outcome.failure?_eq_some_iff.mp hfailure
  rcases trace_of_failed hrun with hinstruction | ⟨_, _, _, -, -, -, hfault, -⟩
  · obtain ⟨n, u, i, hu, hstep, hnext, -, hplaces⟩ := hinstruction
    exact ⟨n, u, i, t, hrun, hu, hstep, hnext, hplaces⟩
  · cases hfault

end StackMachine.State
