import StackMachine.Proofs.Machine.Run
import StackMachine.Proofs.Machine.Transition

/-!
# The calls in progress

The frames, the suspended operands and the active chunk of a machine belong together:
`State.Controlled` says how, every run keeps it (`State.controlled_run`), and so two branches of
the machine are never taken: a return always finds its caller's operands, and the active chunk is
always one of the program's.
-/

namespace StackMachine.State

variable {p : Program} {cfg : Settings} {s t : State}

/-- The frames and the suspended operands pair up and are within the depth limit; the top level is
    active exactly if nothing has been called, and it made the first call and no other; and every
    function that is active or waits for a call to return is one of the program's. -/
structure Controlled (p : Program) (cfg : Settings) (s : State) : Prop where
  sizes : s.frames.size = s.suspended.size
  depth : s.frames.size ≤ cfg.maxCallDepth
  active_none : s.active = none ↔ s.frames = .empty
  caller_none : ∀ k frame, s.frames.items[k]? = some frame → (frame.caller = none ↔ k = 0)
  active_lt : ∀ n, s.active = some n → n < p.functions.size
  caller_lt : ∀ frame ∈ s.frames.items, ∀ n, frame.caller = some n → n < p.functions.size

theorem controlled_reset (p : Program) (cfg : Settings) (s : State) :
    s.reset.Controlled p cfg where
  sizes := rfl
  depth := Nat.zero_le _
  active_none := ⟨fun _ => rfl, fun _ => rfl⟩
  caller_none := by intro k frame h; simp [reset, initial] at h
  active_lt := by intro n h; cases h
  caller_lt := by intro frame h; simp [reset, initial] at h

namespace Controlled

theorem stay (hs : s.Controlled p cfg) (hactive : t.active = s.active)
    (hframes : t.frames = s.frames) (hsuspended : t.suspended = s.suspended) :
    t.Controlled p cfg where
  sizes := by rw [hframes, hsuspended]; exact hs.sizes
  depth := by rw [hframes]; exact hs.depth
  active_none := by rw [hactive, hframes]; exact hs.active_none
  caller_none := by rw [hframes]; exact hs.caller_none
  active_lt := by rw [hactive]; exact hs.active_lt
  caller_lt := by rw [hframes]; exact hs.caller_lt

theorem enter {i : Instruction} (hs : s.Controlled p cfg) (h : s.Entered p cfg i t) :
    t.Controlled p cfg := by
  obtain ⟨n, hn, hactive⟩ := h.active
  have hroom := h.room
  constructor
  · rw [h.frames, h.suspended, Stack.size_push, Stack.size_push, hs.sizes]
  · rw [h.frames, Stack.size_push]
    omega
  · rw [hactive, h.frames, Stack.eq_empty_iff_size, Stack.size_push]
    simp
  · -- The new frame is that of the state before, whose chunk is the top level exactly if there
    -- was no frame so far.
    intro k frame hk
    rw [h.frames, Stack.items_push, List.getElem?_append] at hk
    split at hk
    · exact hs.caller_none k frame hk
    · rename_i hlt
      obtain ⟨hk0, rfl⟩ : k - s.frames.items.length = 0 ∧
          frame = ⟨s.active, s.ip + 1, s.scope⟩ := by
        have hlen := (List.getElem?_eq_some_iff.mp hk).1
        rw [List.length_singleton] at hlen
        have hzero : k - s.frames.items.length = 0 := by omega
        rw [hzero] at hk
        exact ⟨hzero, (Option.some.inj hk).symm⟩
      rw [hs.active_none, Stack.eq_empty_iff_size, Stack.size_eq_length_items]
      omega
  · intro m hm
    rw [hactive] at hm
    cases hm
    exact hn
  · intro frame hframe m hm
    rw [h.frames, Stack.items_push, List.mem_append, List.mem_singleton] at hframe
    rcases hframe with hframe | rfl
    · exact hs.caller_lt frame hframe m hm
    · exact hs.active_lt m hm

theorem leave {v : Value} (hs : s.Controlled p cfg) (h : s.Left v t) : t.Controlled p cfg := by
  obtain ⟨frame, operands, hframes, hsuspended, -, hactive, -, -⟩ := h.resumed
  have hlast : s.frames.items[t.frames.items.length]? = some frame := by
    rw [hframes, Stack.items_push]
    exact List.getElem?_concat_length
  have hmem : ∀ f, f ∈ t.frames.items → f ∈ s.frames.items := by
    intro f hf
    rw [hframes, Stack.items_push]
    exact List.mem_append_left _ hf
  constructor
  · have hsizes := hs.sizes
    rw [hframes, hsuspended, Stack.size_push, Stack.size_push] at hsizes
    omega
  · have hdepth := hs.depth
    rw [hframes, Stack.size_push] at hdepth
    omega
  · rw [hactive, hs.caller_none _ frame hlast, Stack.eq_empty_iff_size,
      Stack.size_eq_length_items]
  · intro k f hk
    have hlt := (List.getElem?_eq_some_iff.mp hk).1
    apply hs.caller_none k f
    rw [hframes, Stack.items_push, List.getElem?_append_left hlt]
    exact hk
  · intro n hn
    rw [hactive] at hn
    exact hs.caller_lt frame (List.mem_of_getElem? hlast) n hn
  · intro f hf
    exact hs.caller_lt f (hmem f hf)

theorem step (hs : s.Controlled p cfg) (h : s.step p cfg = .running t) :
    t.Controlled p cfg := by
  cases step_running h with
  | stay hactive hframes hsuspended => exact hs.stay hactive hframes hsuspended
  | enter _ _ hentered => exact hs.enter hentered
  | leave _ hleft => exact hs.leave hleft

end Controlled

theorem controlled_steps (hs : s.Controlled p cfg) (fuel : Nat) :
    (s.steps p cfg fuel).state.Controlled p cfg := by
  refine steps_invariant (fun s t hs h => hs.step h) (fun s t hs h => ?_) (fun s f t hs h => ?_)
    fuel s hs
  · have hcalls := (step_halted h).2
    exact hs.stay hcalls.active hcalls.frames hcalls.suspended
  · have hcalls := step_failed hs.sizes h
    exact hs.stay hcalls.active hcalls.frames hcalls.suspended

theorem chunk_of_controlled (hs : s.Controlled p cfg) {n : Nat} (hn : s.active = some n) :
    ∃ f, p.functions[n]? = some f ∧ p.chunk s.active = f.code := by
  have hlt := hs.active_lt n hn
  refine ⟨p.functions[n], Array.getElem?_eq_getElem hlt, ?_⟩
  rw [hn, Program.chunk, Array.getElem?_eq_getElem hlt]

/-- A return succeeds wherever frames and suspended operands pair up. -/
theorem leave_of_sizes (hs : s.frames.size = s.suspended.size) (v : Value) :
    ∃ flow t, Exec.leave v s = .ok flow t := by
  cases h : Exec.leave v s with
  | ok flow t => exact ⟨flow, t, rfl⟩
  | error f t => exact absurd hs (Exec.leave_eq_error h)

/-- Every state of a run, the one it ends in included, is controlled.  So its active chunk is the
    code of a function of the program or the top level, and a return there, from whatever operands
    and with whatever value, never fails. -/
theorem controlled_run (p : Program) (cfg : Settings) (s : State) (fuel : Nat) :
    (s.run p cfg fuel).state.Controlled p cfg ∧
      (∀ n, (s.run p cfg fuel).state.active = some n →
        ∃ f, p.functions[n]? = some f ∧
          p.chunk (s.run p cfg fuel).state.active = f.code) ∧
      ∀ v t, t.frames = (s.run p cfg fuel).state.frames →
        t.suspended = (s.run p cfg fuel).state.suspended →
          ∃ flow u, Exec.leave v t = .ok flow u := by
  have hrun : (s.run p cfg fuel).state.Controlled p cfg :=
    controlled_steps (controlled_reset p cfg s) fuel
  refine ⟨hrun, fun n hn => chunk_of_controlled hrun hn, fun v t hframes hsuspended => ?_⟩
  apply leave_of_sizes
  rw [hframes, hsuspended, hrun.sizes]

end StackMachine.State
