import StackMachine.Machine.Run

/-!
# Properties along runs

What holds at the start of a run and is kept by every step holds all along it, and a run of one
step more is a run and a step.
-/

namespace StackMachine

namespace Outcome

theorem failure?_eq_some_iff {o : Outcome} {failure : Failure} :
    o.failure? = some failure ↔ ∃ t, o = .failed failure t := by
  cases o <;> simp [failure?]

/-- The state where a run can be taken up again, if it has not ended. -/
def unfinished? : Outcome → Option State
  | .unfinished s => some s
  | _ => none

theorem isSome_unfinished? {o : Outcome} : o.unfinished?.isSome ↔ ∃ t, o = .unfinished t := by
  cases o <;> simp [unfinished?]

end Outcome

/-- The state that a step leads to, whether or not the run goes on there. -/
def Progress.state : Progress → State
  | .running s => s
  | .halted s => s
  | .failed _ s => s

namespace State

variable {p : Program} {cfg : Settings} {s t : State}

/-- A property that every step keeps holds in every state that a run passes through, and in the
    one it ends in. -/
theorem steps_invariant {P : State → Prop}
    (hrunning : ∀ s t, P s → s.step p cfg = .running t → P t)
    (hhalted : ∀ s t, P s → s.step p cfg = .halted t → P t)
    (hfailed : ∀ s f t, P s → s.step p cfg = .failed f t → P t)
    (fuel : Nat) (s : State) (hs : P s) : P (s.steps p cfg fuel).state := by
  induction fuel generalizing s with
  | zero => exact hs
  | succ fuel ih =>
    unfold steps
    split
    · rename_i t hstep
      exact ih t (hrunning s t hs hstep)
    · rename_i t hstep
      have ht := hhalted s t hs hstep
      unfold flush
      split <;> exact ht
    · rename_i f t hstep
      exact hfailed s f t hs hstep

theorem state_flush (s : State) : s.flush.state = s := by
  unfold flush
  split <;> rfl

/-- A property that the steps of a run keep holds in the state that it comes to. -/
theorem state_steps_of_step {P : State → Prop} (fuel : Nat) (hs : P s)
    (h : ∀ n < fuel, ∀ u, s.steps p cfg n = .unfinished u → P u → P (u.step p cfg).state) :
    P (s.steps p cfg fuel).state := by
  induction fuel generalizing s with
  | zero => exact hs
  | succ fuel ih =>
    have hfirst := h 0 (Nat.succ_pos fuel) s rfl hs
    rw [steps]
    cases hstep : s.step p cfg with
    | running t =>
      rw [hstep] at hfirst
      refine ih hfirst fun n hn u hu => h (n + 1) (Nat.succ_lt_succ hn) u ?_
      rw [steps, hstep]
      exact hu
    | halted t =>
      rw [hstep] at hfirst
      rw [state_flush]
      exact hfirst
    | failed f t =>
      rw [hstep] at hfirst
      exact hfirst

theorem flush_ne_unfinished : s.flush ≠ .unfinished t := by
  unfold flush
  split <;> simp

theorem steps_one_eq_unfinished : s.steps p cfg 1 = .unfinished t ↔ s.step p cfg = .running t := by
  rw [steps]
  cases s.step p cfg with
  | running u => simp [steps]
  | halted u => simp [flush_ne_unfinished]
  | failed f u => simp

/-- After one step more a run is where one step leads from where it was. -/
theorem steps_succ_eq_unfinished {n : Nat} :
    s.steps p cfg (n + 1) = .unfinished t ↔
      ∃ u, s.steps p cfg n = .unfinished u ∧ u.step p cfg = .running t := by
  induction n generalizing s with
  | zero =>
    rw [steps_one_eq_unfinished]
    constructor
    · intro h
      exact ⟨s, rfl, h⟩
    · rintro ⟨u, hu, h⟩
      cases hu
      exact h
  | succ n ih =>
    rw [steps, steps]
    cases s.step p cfg with
    | running u => exact ih
    | halted u => simp [flush_ne_unfinished]
    | failed f u => simp

/-- A run goes on from any state it passes through as a run from there does. -/
theorem steps_add {n : Nat} (h : s.steps p cfg n = .unfinished t) (k : Nat) :
    s.steps p cfg (n + k) = t.steps p cfg k := by
  induction n generalizing s with
  | zero =>
    cases h
    rw [Nat.zero_add]
  | succ n ih =>
    rw [Nat.succ_add, steps]
    rw [steps] at h
    cases hstep : s.step p cfg with
    | running u =>
      rw [hstep] at h
      exact ih h
    | halted u =>
      rw [hstep] at h
      exact absurd h flush_ne_unfinished
    | failed f u =>
      rw [hstep] at h
      cases h

/-- A run that goes on after `n` steps went on before them. -/
theorem unfinished_of_le {n k : Nat} (h : s.steps p cfg n = .unfinished t) (hk : k ≤ n) :
    ∃ u, s.steps p cfg k = .unfinished u := by
  induction n generalizing t with
  | zero =>
    obtain rfl := Nat.le_zero.mp hk
    exact ⟨t, h⟩
  | succ n ih =>
    by_cases heq : k = n + 1
    · subst heq
      exact ⟨t, h⟩
    · obtain ⟨u, hu, -⟩ := steps_succ_eq_unfinished.mp h
      exact ih hu (by omega)

/-- A run of one step more is a run and, if that has not ended, a step. -/
theorem steps_succ (p : Program) (cfg : Settings) (n : Nat) (s : State) :
    s.steps p cfg (n + 1) =
      match s.steps p cfg n with
      | .unfinished u => u.steps p cfg 1
      | o => o := by
  induction n generalizing s with
  | zero => rfl
  | succ n ih =>
    rw [steps]
    conv => rhs; rw [steps]
    cases s.step p cfg with
    | running t => exact ih t
    | halted t =>
      dsimp only
      unfold flush
      split <;> rfl
    | failed f t => rfl

theorem state_steps_one (p : Program) (cfg : Settings) (s : State) :
    (s.steps p cfg 1).state = (s.step p cfg).state := by
  rw [steps]
  cases s.step p cfg with
  | running t => rfl
  | halted t => exact state_flush t
  | failed f t => rfl

/-- Runs differ only where steps do that both come to. -/
theorem steps_congr {q : Program} {cfg' : Settings} (fuel : Nat)
    (h : ∀ n < fuel, ∀ u, s.steps p cfg n = .unfinished u → u.step q cfg' = u.step p cfg) :
    s.steps q cfg' fuel = s.steps p cfg fuel := by
  induction fuel generalizing s with
  | zero => rfl
  | succ fuel ih =>
    rw [steps, steps, h 0 (Nat.succ_pos fuel) s rfl]
    cases hstep : s.step p cfg with
    | running t =>
      refine ih fun n hn u hu => h (n + 1) (Nat.succ_lt_succ hn) u ?_
      rw [steps, hstep]
      exact hu
    | halted t => rfl
    | failed f t => rfl

/-- A run of the program from this state never ends. -/
def Diverges (p : Program) (cfg : Settings) (s : State) : Prop :=
  ∀ fuel, ∃ t, run p cfg fuel s = .unfinished t

/-- A run fails in a step, or in the flush after a step that halts. -/
theorem steps_eq_failed {fuel : Nat} {failure : Failure}
    (h : s.steps p cfg fuel = .failed failure t) :
    ∃ n u, s.steps p cfg n = .unfinished u ∧ failure.trace = t.stackTrace ∧
      (u.step p cfg = .failed failure.fault t ∨
        u.step p cfg = .halted t ∧ ∃ reason, t.sink.flushFailure = some reason ∧
          failure.fault = .output reason) := by
  induction fuel generalizing s with
  | zero => cases h
  | succ fuel ih =>
    rw [steps] at h
    cases hstep : s.step p cfg with
    | running u =>
      rw [hstep] at h
      obtain ⟨n, w, hw, hends⟩ := ih h
      refine ⟨n + 1, w, ?_, hends⟩
      rw [steps, hstep]
      exact hw
    | halted u =>
      rw [hstep] at h
      dsimp only at h
      unfold flush at h
      split at h <;> cases h
      rename_i reason hflush
      exact ⟨0, s, rfl, rfl, Or.inr ⟨hstep, reason, hflush, rfl⟩⟩
    | failed f u =>
      rw [hstep] at h
      cases h
      exact ⟨0, s, rfl, rfl, Or.inl hstep⟩

/-- A run of the program can be about to take a step in this state. -/
def Reachable (p : Program) (cfg : Settings) (s : State) : Prop :=
  ∃ start fuel, run p cfg fuel start = .unfinished s

end State

end StackMachine
