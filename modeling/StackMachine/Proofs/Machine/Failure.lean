import StackMachine.Proofs.Library.Failure
import StackMachine.Proofs.Machine.Control

/-!
# Instructions that fail

An instruction does everything that may fail before it changes anything but the operands.  So one
that fails leaves the machine as it was, with some operands popped at most (`State.Aborted`).  The
exception is a print whose output is refused, which may have written a part of its line.
-/

namespace StackMachine

namespace State

/-- `t` is `s` with some of the top operands gone, and with nothing in the store changed. -/
def Spared (s t : State) : Prop :=
  ∃ (rest : Stack Value) (store : Store), rest.topDown <:+ s.operands.topDown ∧
    s.store.Kept store ∧ t = { s with operands := rest, store }

/-- The line that printing the top `n` operands writes. -/
def line (s : State) (n : Nat) : String :=
  String.intercalate " " ((s.operands.topDown.take n).reverse.map s.store.text) ++ "\n"

/-- An instruction that fails in this state has popped nothing: it only looks at the operands, or
    it pops several at once and there are fewer. -/
def PopsNone (s : State) (i : Instruction) : Prop :=
  i.op ∈ [.loadConst, .load, .declare, .assign, .dup, .function, .leaveScope] ∨
    i.op ∈ [.print, .call, .callWith] ∧ s.operands.size < i.operand.toNat

/-- What an instruction has done to `s` when it fails in `t`: it has popped operands at most, and a
    print whose output was refused has written the beginning of its line. -/
structure Aborted (s : State) (i : Instruction) (f : Fault) (t : State) : Prop where
  ip : t.ip = s.ip
  active : t.active = s.active
  scope : t.scope = s.scope
  frames : t.frames = s.frames
  suspended : t.suspended = s.suspended
  store : s.store.Kept t.store
  operands : t.operands.items <+: s.operands.items
  operands_eq : s.PopsNone i → t.operands = s.operands
  sink : t.sink = s.sink ∨
    i.op = .print ∧ f = .output s.sink.refusal ∧
      ∃ k < (s.line i.operand.toNat).utf8ByteSize,
        t.sink = { s.sink with
          written := s.sink.written ++ (s.line i.operand.toNat).toUTF8.extract 0 k
          room := some 0 }

namespace Spared

theorem of_popped {s t : State} (h : s.Popped t) : s.Spared t := by
  obtain ⟨rest, hrest, rfl⟩ := h
  exact ⟨rest, s.store, hrest, .refl _, rfl⟩

theorem trans {s t u : State} (hst : s.Spared t) (htu : t.Spared u) : s.Spared u := by
  obtain ⟨rest, store, hrest, hstore, rfl⟩ := hst
  obtain ⟨rest', store', hrest', hstore', rfl⟩ := htu
  exact ⟨rest', store', hrest'.trans hrest, hstore.trans hstore', rfl⟩

instance : IsPreorder State Spared where
  refl s := of_popped (.refl s)
  trans _ _ _ := trans

end Spared

namespace Aborted

variable {i : Instruction} {f : Fault} {s t : State}

theorem of_spared (h : s.Spared t) (hoperands : s.PopsNone i → t.operands = s.operands) :
    s.Aborted i f t := by
  obtain ⟨rest, store, hrest, hstore, rfl⟩ := h
  exact ⟨rfl, rfl, rfl, rfl, rfl, hstore, List.reverse_prefix.mpr hrest, hoperands, Or.inl rfl⟩

theorem refl (i : Instruction) (f : Fault) (s : State) : s.Aborted i f s :=
  of_spared (Std.Refl.refl s) fun _ => rfl

end Aborted

end State

theorem Sink.write_eq_false {s t : Sink} {bytes : ByteArray} (h : s.write bytes = (false, t)) :
    ∃ k < bytes.size,
      t = { s with written := s.written ++ bytes.extract 0 k, room := some 0 } := by
  unfold write at h
  split at h
  · cases h
  · rename_i room hroom
    split at h
    · cases h
    · cases h
      exact ⟨room, by omega, rfl⟩

namespace Exec

open State

variable {p : Program} {cfg : Settings} {α : Type}

/-! ## Instructions that only look before they change anything -/

theorem neverFails_change (f : State → State) : NeverFails (change f) := by
  intro s e t h
  cases h

theorem neverFails_updateStore (f : Store → α × Store) : NeverFails (updateStore f) := by
  intro s e t h
  cases h

theorem neverFails_push_next (v : Value) :
    NeverFails (push v >>= fun _ => (pure .next : Exec Flow)) :=
  (neverFails_change _).bind fun _ => neverFails_pure _

/-- An assignment to a name that is not bound changes nothing. -/
theorem failsBy_assign (scope : ScopeRef) (name : String) (v : Value) :
    FailsBy Eq (do
      if ← updateStore fun st => st.assign scope name v then return Flow.next
      else fault (.undefinedVariable name)) := by
  intro s f t h
  obtain hassign | ⟨found, u, hassign, h⟩ := bind_eq_error h
  · exact absurd hassign (neverFails_updateStore _ s f t)
  · simp only [updateStore, Store.assign] at hassign
    split at hassign
    · cases hassign
      cases h
    · cases hassign
      cases h
      rfl

theorem failsBy_eq_instruction {i : Instruction}
    (h : i.op ∈ [.loadConst, .load, .declare, .assign, .dup, .function, .leaveScope]) :
    FailsBy Eq (instruction p cfg i) := by
  obtain ⟨op, operand⟩ := i
  simp only [List.mem_cons, List.not_mem_nil, or_false] at h
  rcases h with rfl | rfl | rfl | rfl | rfl | rfl | rfl
  · exact FailsBy.bind (keeps_orFault _ _) fun l => (neverFails_push_next _).failsBy
  · refine FailsBy.bind (keeps_orFault _ _) fun name => FailsBy.bind (keeps_read _) fun found => ?_
    exact FailsBy.bind (keeps_orFault _ found) fun v => (neverFails_push_next v).failsBy
  · refine FailsBy.bind (keeps_orFault _ _) fun name => FailsBy.bind keeps_peek fun v => ?_
    exact ((neverFails_change _).bind fun _ => neverFails_pure _).failsBy
  · refine FailsBy.bind (keeps_orFault _ _) fun name => FailsBy.bind keeps_peek fun v => ?_
    exact FailsBy.bind (keeps_read _) fun scope => failsBy_assign scope name v
  · exact FailsBy.bind keeps_peek fun v => (neverFails_push_next v).failsBy
  · simp only [instruction]
    split
    · refine FailsBy.bind (keeps_read _) fun scope => ?_
      exact ((neverFails_updateStore _).bind fun c => neverFails_push_next _).failsBy
    · exact (keeps_fault _).failsBy
  · refine FailsBy.bind (keeps_read _) fun outer => FailsBy.bind (keeps_orFault _ outer) fun r => ?_
    exact ((neverFails_change _).bind fun _ => neverFails_pure _).failsBy

/-! ## Instructions that pop before they change anything -/

private theorem keepsPopped_pop : Keeps Popped pop := keeps_pop id

theorem failsBy_getProperty (keepContainer : Bool) :
    FailsBy Popped (getProperty keepContainer) := by
  refine FailsBy.bind keepsPopped_pop fun key => ?_
  refine FailsBy.bind keepsPopped_pop fun container => ?_
  refine FailsBy.bind (keeps_query fun s => s.store.property container key) fun v => ?_
  cases keepContainer with
  | false => exact (neverFails_change _).failsBy
  | true => exact ((neverFails_change _).bind fun _ => neverFails_change _).failsBy

theorem failsBy_setProperty : FailsBy Popped setProperty := by
  refine FailsBy.bind keepsPopped_pop fun v => FailsBy.bind keepsPopped_pop fun key => ?_
  refine FailsBy.bind keepsPopped_pop fun container => ?_
  refine FailsBy.bind (keeps_ofExcept _) fun target => ?_
  exact ((neverFails_change _).bind fun _ => neverFails_change _).failsBy

theorem failsBy_binaryOperator (op : Opcode) : FailsBy Popped (binaryOperator op) := by
  refine FailsBy.bind keepsPopped_pop fun right => FailsBy.bind keepsPopped_pop fun left => ?_
  split
  · exact (neverFails_change _).failsBy
  · exact (keeps_fault _).failsBy

/-- Outside calls, returns and prints, an instruction that fails has popped operands and done
    nothing else. -/
theorem failsBy_popped_instruction {i : Instruction} (htransfers : i.op.transfers = false)
    (hprint : i.op ≠ .print) : FailsBy Popped (instruction p cfg i) := by
  by_cases hlooks : i.op ∈ [.loadConst, .load, .declare, .assign, .dup, .function, .leaveScope]
  · refine (failsBy_eq_instruction hlooks).mono fun {s t} h => ?_
    rw [h]
    exact .refl t
  obtain ⟨op, operand⟩ := i
  cases op
  case call | callWith | ret | retValue => cases htransfers
  case print => exact absurd rfl hprint
  case loadConst | load | declare | assign | dup | function | leaveScope => simp at hlooks
  case pop | jumpTruthy | jumpFalsy =>
    exact FailsBy.bind keepsPopped_pop fun v => (neverFails_pure _).failsBy
  case jump =>
    intro s f t h
    cases h
  case enterScope =>
    refine FailsBy.bind (keeps_read _) fun scope => ?_
    refine ((neverFails_updateStore _).bind fun fresh => ?_).failsBy
    exact (neverFails_change _).bind fun _ => neverFails_pure _
  case get => exact (failsBy_getProperty false).bind_neverFails fun _ => neverFails_pure _
  case getWith => exact (failsBy_getProperty true).bind_neverFails fun _ => neverFails_pure _
  case set => exact failsBy_setProperty.bind_neverFails fun _ => neverFails_pure _
  case neg | not =>
    refine FailsBy.bind_neverFails ?_ fun _ => neverFails_pure _
    exact FailsBy.bind keepsPopped_pop fun v => (neverFails_change _).failsBy
  -- What is left are the binary operators.
  all_goals exact (failsBy_binaryOperator _).bind_neverFails fun _ => neverFails_pure _

/-! ## Calls and prints -/

/-- With fewer operands than it pops first, an operation fails at once. -/
theorem eq_of_popN_bind_eq_error {n : Nat} {g : List Value → Exec α} {s t : State} {f : Fault}
    (hsize : s.operands.size < n) (h : (popN n >>= g) s = .error f t) : t = s := by
  obtain hpop | ⟨vs, u, hpop, -⟩ := bind_eq_error h
  · exact (popN_eq_error hpop).2
  · obtain ⟨rest, htop, hlength, -⟩ := popN_eq_ok hpop
    rw [s.operands.size_eq, htop, List.length_append, List.length_reverse] at hsize
    omega

theorem failsBy_callNative (hhost : cfg.host.FailsClean) (native : Native) (site : Option Value)
    (args : List Value) : FailsBy Spared (callNative cfg native site args) := by
  unfold callNative
  split
  · refine FailsBy.bind_neverFails ?_ fun v => neverFails_push_next v
    intro s f t h
    simp only [act] at h
    split at h
    · cases h
    · rename_i e store hcall
      cases h
      have hkept := Library.failsBy_callWith hhost native _ args _ _ _ hcall
      exact ⟨s.operands, store, List.suffix_refl _, hkept, rfl⟩
  · exact (keeps_fault _).failsBy

theorem aborted_of_call {i : Instruction} {s t : State} {f : Fault} {withSite : Bool}
    (hhost : cfg.host.FailsClean) (hop : i.op ∈ [.call, .callWith])
    (h : call p cfg i.operand.toNat withSite s = .error f t) : s.Aborted i f t := by
  refine .of_spared ?_ fun hcase => ?_
  · exact failsBy_call .of_popped (failsBy_callNative hhost) _ _ s f t h
  · rcases hcase with hlooks | ⟨-, hsize⟩
    · simp only [List.mem_cons, List.not_mem_nil, or_false] at hop
      rcases hop with hop | hop <;> simp [hop] at hlooks
    · rw [eq_of_popN_bind_eq_error hsize h]

/-- A print fails for want of operands, or because the sink takes only the beginning of its
    line. -/
theorem print_eq_error {n : Nat} {s t : State} {f : Fault} (h : print n s = .error f t) :
    t = s ∨
      n ≤ s.operands.size ∧ f = .output s.sink.refusal ∧
        ∃ (rest : Stack Value), rest.topDown <:+ s.operands.topDown ∧
          ∃ k < (s.line n).utf8ByteSize,
            t = { s with
              operands := rest
              sink := { s.sink with
                written := s.sink.written ++ (s.line n).toUTF8.extract 0 k
                room := some 0 } } := by
  obtain hpop | ⟨vs, u, hpop, h⟩ := bind_eq_error h
  · exact Or.inl (popN_eq_error hpop).2
  · obtain ⟨rest, htop, hlength, rfl⟩ := popN_eq_ok hpop
    have hline : s.line n = String.intercalate " " (vs.map s.store.text) ++ "\n" := by
      rw [line, htop, List.take_left' (by rw [List.length_reverse, hlength]), List.reverse_reverse]
    dsimp only at h
    rw [← hline] at h
    split at h
    · cases h
    · rename_i sink hwrite
      cases h
      obtain ⟨k, hk, rfl⟩ := Sink.write_eq_false hwrite
      refine Or.inr ⟨?_, rfl, rest, htop ▸ List.suffix_append _ _, k, hk, rfl⟩
      rw [s.operands.size_eq, htop, List.length_append, List.length_reverse]
      omega

theorem aborted_of_print {i : Instruction} {s t : State} {f : Fault} (hop : i.op = .print)
    (h : print i.operand.toNat s = .error f t) : s.Aborted i f t := by
  rcases print_eq_error h with rfl | ⟨hsize, rfl, rest, hrest, k, hk, rfl⟩
  · exact .refl i f t
  · refine ⟨rfl, rfl, rfl, rfl, rfl, .refl _, List.reverse_prefix.mpr hrest, ?_, ?_⟩
    · rintro (hlooks | ⟨-, hlt⟩)
      · simp [hop] at hlooks
      · omega
    · exact Or.inr ⟨hop, rfl, k, hk, rfl⟩

/-- An instruction that fails has done nothing but pop operands or begin to print, as long as
    every frame has its operands. -/
theorem aborted_of_instruction {i : Instruction} {s t : State} {f : Fault}
    (hhost : cfg.host.FailsClean) (hsize : s.frames.size = s.suspended.size)
    (h : instruction p cfg i s = .error f t) : s.Aborted i f t := by
  by_cases htransfers : i.op.transfers = false
  · by_cases hprint : i.op = .print
    · obtain ⟨op, operand⟩ := i
      cases hprint
      obtain hprinted | ⟨-, u, -, hpure⟩ := bind_eq_error h
      · exact aborted_of_print rfl hprinted
      · cases hpure
    · refine .of_spared (.of_popped (failsBy_popped_instruction htransfers hprint s f t h)) ?_
      rintro (hlooks | ⟨hop, -⟩)
      · rw [failsBy_eq_instruction hlooks s f t h]
      · simp only [List.mem_cons, List.not_mem_nil, or_false] at hop
        rcases hop with hop | hop | hop
        · exact absurd hop hprint
        · simp [hop, Opcode.transfers] at htransfers
        · simp [hop, Opcode.transfers] at htransfers
  by_cases hop : i.op = .ret ∨ i.op = .retValue
  · rw [return_eq_error hop hsize h]
    exact .refl i f s
  · obtain ⟨op, operand⟩ := i
    cases op
    case call => exact aborted_of_call hhost (by simp) h
    case callWith => exact aborted_of_call hhost (by simp) h
    all_goals simp [Opcode.transfers] at htransfers hop

end Exec

namespace State

theorem controlled_of_reachable {p : Program} {cfg : Settings} {s : State}
    (h : s.Reachable p cfg) : s.Controlled p cfg := by
  obtain ⟨start, fuel, hrun⟩ := h
  have hsteps := controlled_steps (controlled_reset p cfg start) fuel
  rw [← run, hrun] at hsteps
  exact hsteps

/-- In every state that a run can come to, an instruction that fails leaves the calls in progress,
    the scope and the store as they were.  All it may have done is to pop operands, and the
    beginning of a line is all that a print may have written. -/
theorem aborted_of_reachable {p : Program} {cfg : Settings} {i : Instruction} {s t : State}
    {f : Fault} (hhost : cfg.host.FailsClean) (hs : s.Reachable p cfg)
    (h : Exec.instruction p cfg i (s.logged cfg i) = .error f t) : s.Aborted i f t := by
  obtain ⟨log, hlog⟩ := logged_eq cfg i s
  rw [hlog] at h
  have hsize : ({ s with log } : State).frames.size = s.suspended.size :=
    (controlled_of_reachable hs).sizes
  have haborted := Exec.aborted_of_instruction hhost hsize h
  exact ⟨haborted.ip, haborted.active, haborted.scope, haborted.frames, haborted.suspended,
    haborted.store, haborted.operands, haborted.operands_eq, haborted.sink⟩

/-- The addition of two booleans fails after it popped both. -/
theorem aborted_of_reachable_add :
    let p : Program := ⟨#[], #[], #[⟨.loadConst, 0⟩, ⟨.loadConst, 1⟩, ⟨.add, 0⟩], #[]⟩
    ∃ s f t, s.Reachable p {} ∧ Exec.instruction p {} ⟨.add, 0⟩ s = .error f t ∧
      s.operands.items = [.bool false, .bool true] ∧ t.operands.items = [] ∧
        s.Aborted ⟨.add, 0⟩ f t := by
  intro p
  let start := initial (Store.empty fun _ => ⟨0⟩) {}
  have hhost : (({} : Settings).host).FailsClean := fun _ _ _ =>
    (keeps_of_eq (Library.keeps_fail _)).failsBy
  have hs : (start.run p {} 2).state.Reachable p {} := ⟨start, 2, rfl⟩
  exact ⟨_, _, _, hs, rfl, rfl, rfl, aborted_of_reachable hhost hs rfl⟩

end State

end StackMachine
