import StackMachine.Machine.Step
import StackMachine.Proofs.Sequence

/-!
# What operations leave alone

The operations of the machine are put together from pops, pushes, reads and writes.  What these
leave alone, and when they fail, is said here; the rest follows along their sequences.
-/

namespace StackMachine

namespace State

/-- `t` is `s` with some of the top operands gone. -/
def Popped (s t : State) : Prop :=
  ∃ rest : Stack Value, rest.topDown <:+ s.operands.topDown ∧ t = { s with operands := rest }

/-- Both states execute the same call, at the same instruction and for the same callers. -/
structure SameCalls (s t : State) : Prop where
  ip : t.ip = s.ip
  active : t.active = s.active
  frames : t.frames = s.frames
  suspended : t.suspended = s.suspended

namespace Popped

theorem refl (s : State) : s.Popped s := ⟨s.operands, List.suffix_refl _, rfl⟩

theorem trans {s t u : State} (hst : s.Popped t) (htu : t.Popped u) : s.Popped u := by
  obtain ⟨rest, hrest, rfl⟩ := hst
  obtain ⟨rest', hrest', rfl⟩ := htu
  exact ⟨rest', hrest'.trans hrest, rfl⟩

instance : IsPreorder State Popped where
  refl := refl
  trans _ _ _ := trans

end Popped

namespace SameCalls

theorem refl (s : State) : s.SameCalls s := ⟨rfl, rfl, rfl, rfl⟩

theorem trans {s t u : State} (hst : s.SameCalls t) (htu : t.SameCalls u) : s.SameCalls u :=
  ⟨htu.ip.trans hst.ip, htu.active.trans hst.active, htu.frames.trans hst.frames,
    htu.suspended.trans hst.suspended⟩

theorem of_popped {s t : State} (h : s.Popped t) : s.SameCalls t := by
  obtain ⟨rest, -, rfl⟩ := h
  exact ⟨rfl, rfl, rfl, rfl⟩

instance : IsPreorder State SameCalls where
  refl := refl
  trans _ _ _ := trans

end SameCalls

/-- An instruction about to be executed leaves its lines in the log, and nothing else. -/
theorem logged_eq (cfg : Settings) (i : Instruction) (s : State) :
    ∃ log, s.logged cfg i = { s with log } := by
  unfold logged
  split
  · exact ⟨_, rfl⟩
  · exact ⟨s.log, rfl⟩

theorem sameCalls_logged (cfg : Settings) (i : Instruction) (s : State) :
    s.SameCalls (s.logged cfg i) := by
  obtain ⟨log, hlog⟩ := logged_eq cfg i s
  rw [hlog]
  exact ⟨rfl, rfl, rfl, rfl⟩

end State

namespace Exec

variable {α : Type}

theorem yields_fault {P : α → Prop} (f : Fault) : Yields P (fault f : Exec α) := by
  intro s a t h
  cases h

/-! ## Reads and pops -/

theorem read_eq_ok {f : State → α} {s t : State} {a : α} (h : read f s = .ok a t) :
    f s = a ∧ t = s := by
  cases h
  exact ⟨rfl, rfl⟩

theorem pop_eq_ok {s t : State} {v : Value} (h : pop s = .ok v t) :
    ∃ rest, s.operands = Stack.push rest v ∧ t = { s with operands := rest } := by
  unfold pop at h
  split at h <;> cases h
  rename_i rest hpop
  exact ⟨rest, Stack.ext_topDown (Stack.pop?_eq_some_iff.mp hpop), rfl⟩

theorem pop_eq_error {s t : State} {f : Fault} (h : pop s = .error f t) : t = s := by
  unfold pop at h
  split at h <;> cases h
  rfl

theorem popN_eq_ok {s t : State} {n : Nat} {vs : List Value} (h : popN n s = .ok vs t) :
    ∃ rest : Stack Value, s.operands.topDown = vs.reverse ++ rest.topDown ∧ vs.length = n ∧
      t = { s with operands := rest } := by
  unfold popN at h
  rw [Stack.popN?_eq] at h
  split at h <;> cases h
  rename_i rest hpop
  split at hpop <;> cases hpop
  rename_i hsize
  rw [s.operands.size_eq] at hsize
  exact ⟨_, by simp, by simp [hsize], rfl⟩

/-- Popping several operands fails where there are fewer, and then pops none. -/
theorem popN_eq_error {s t : State} {n : Nat} {f : Fault} (h : popN n s = .error f t) :
    s.operands.size < n ∧ t = s := by
  unfold popN at h
  rw [Stack.popN?_eq] at h
  split at h <;> cases h
  rename_i hpop
  split at hpop
  · cases hpop
  · exact ⟨by omega, rfl⟩

/-! ## The parts -/

section Parts

variable {R : State → State → Prop}

theorem keeps_change {f : State → State} (hf : ∀ s, R s (f s)) : Keeps R (change f) := by
  intro s
  refine ⟨fun u t h => ?_, fun e t h => ?_⟩ <;> cases h
  exact hf s

theorem keeps_updateStore {f : Store → α × Store}
    (hf : ∀ s : State, R s { s with store := (f s.store).2 }) : Keeps R (updateStore f) := by
  intro s
  refine ⟨fun a t h => ?_, fun e t h => ?_⟩ <;> cases h
  exact hf s

theorem keeps_act {wrap : Library.NativeError → Fault} {action : Library.Action α}
    (hR : ∀ (s : State) store, R s { s with store }) : Keeps R (act wrap action) := by
  intro s
  refine ⟨fun a t h => ?_, fun e t h => ?_⟩ <;> simp only [act] at h <;> split at h <;>
    cases h <;> exact hR s _

variable [IsPreorder State R]

theorem keeps_fault (f : Fault) : Keeps R (fault f : Exec α) := by
  apply keeps_of_eq
  intro s
  refine ⟨fun b t h => ?_, fun f t h => ?_⟩ <;> cases h
  rfl

theorem keeps_read (f : State → α) : Keeps R (read f) := by
  apply keeps_of_eq
  intro s
  refine ⟨fun b t h => ?_, fun f t h => ?_⟩ <;> cases h
  rfl

theorem keeps_orFault (f : Fault) (o : Option α) : Keeps R (orFault f o) := by
  cases o with
  | none => exact keeps_fault f
  | some a => exact keeps_pure a

theorem keeps_ofExcept (r : Except Fault α) : Keeps R (ofExcept r) := by
  cases r with
  | error f => exact keeps_fault f
  | ok a => exact keeps_pure a

/-- A result that depends on the state, and that changes nothing in it. -/
theorem keeps_query (f : State → Except Fault α) : Keeps R (fun s => ofExcept (f s) s) :=
  fun s => keeps_ofExcept (f s) s

theorem keeps_peek : Keeps R peek := by
  apply keeps_of_eq
  intro s
  refine ⟨fun v t h => ?_, fun f t h => ?_⟩ <;> simp only [peek] at h <;> split at h <;>
    cases h <;> rfl

theorem keeps_pop (hR : ∀ {s t : State}, s.Popped t → R s t) : Keeps R pop := by
  intro s
  refine ⟨fun v t h => ?_, fun f t h => ?_⟩
  · obtain ⟨rest, hoperands, rfl⟩ := pop_eq_ok h
    exact hR ⟨rest, hoperands ▸ List.suffix_cons v _, rfl⟩
  · rw [pop_eq_error h]
    exact Std.Refl.refl s

theorem keeps_popN (hR : ∀ {s t : State}, s.Popped t → R s t) (n : Nat) : Keeps R (popN n) := by
  intro s
  refine ⟨fun vs t h => ?_, fun f t h => ?_⟩
  · obtain ⟨rest, hoperands, -, rfl⟩ := popN_eq_ok h
    exact hR ⟨rest, hoperands ▸ List.suffix_append _ _, rfl⟩
  · rw [(popN_eq_error h).2]
    exact Std.Refl.refl s

end Parts

end Exec

end StackMachine
