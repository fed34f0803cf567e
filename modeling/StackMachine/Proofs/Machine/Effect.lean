import StackMachine.Proofs.Machine.Transition
import StackMachine.Proofs.Store.Holding

/-!
# What a step does

The instructions fall into a few kinds by what they do to the operands, the current scope and the
store.  `State.Effect` has a case for each kind, and every step that does not fail is one of these
(`State.effect_of_step`).
-/

namespace StackMachine

/-- Whether an instruction only computes: it takes operands, puts others in their place, and
    touches neither scopes nor the store. -/
def Opcode.computes : Opcode → Bool
  | .declare | .assign | .function | .enterScope | .leaveScope | .set => false
  | op => !op.transfers

namespace State

/-- If the value is a closure, it is an operand of the active call or held by the store. -/
def Known (s : State) (v : Value) : Prop := s.store.Known s.operands.topDown v

/-- What a step does that executes an instruction, or that returns for want of one. -/
inductive Effect (p : Program) (cfg : Settings) (s : State) : Option Instruction → State → Prop
  | computes {i : Instruction} {operands : Stack Value} {ip : Nat} {sink : Sink} {log : String}
      (hop : i.op.computes = true) (hoperands : ∀ v ∈ operands.topDown, s.Known v) :
      Effect p cfg s (some i) { s with ip, log, sink, operands }
  | declares {i : Instruction} {name : String} {v : Value} {ip : Nat} {log : String}
      (hop : i.op = .declare) (hname : p.symbols[i.operand.toNat]? = some name)
      (hv : s.operands.peek? = some v) :
      Effect p cfg s (some i) { s with ip, log, store := s.store.define s.scope name v }
  | assigns {i : Instruction} {name : String} {v : Value} {b : ScopeRef} {ip : Nat} {log : String}
      (hop : i.op = .assign) (hname : p.symbols[i.operand.toNat]? = some name)
      (hv : s.operands.peek? = some v) (hb : s.store.binder? s.scope name = some b) :
      Effect p cfg s (some i) { s with ip, log, store := s.store.define b name v }
  | makes_closure {i : Instruction} {ip : Nat} {log : String} (hop : i.op = .function)
      (hfunction : i.operand.toNat < p.functions.size) :
      Effect p cfg s (some i)
        { s with
          ip, log
          operands := s.operands.push (.closure s.store.closures.size)
          store := (s.store.newClosure i.operand.toNat s.scope).2 }
  | opens_scope {i : Instruction} {ip : Nat} {log : String} (hop : i.op = .enterScope) :
      Effect p cfg s (some i)
        { s with
          ip, log
          scope := s.store.scopes.size
          store := (s.store.newScope (some s.scope)).2 }
  | closes_scope {i : Instruction} {outer : ScopeRef} {ip : Nat} {log : String}
      (hop : i.op = .leaveScope) (houter : s.store.enclosing? s.scope = some outer) :
      Effect p cfg s (some i) { s with ip, log, scope := outer }
  | writes {i : Instruction} {v key container : Value} {target : Target} {rest : Stack Value}
      {ip : Nat} {log : String} (hop : i.op = .set)
      (htop : s.operands.topDown = v :: key :: container :: rest.topDown)
      (htarget : Target.of container key = .ok target) :
      Effect p cfg s (some i)
        { s with ip, log, operands := rest.push v, store := target.store s.store v }
  | calls_native {i : Instruction} {args : List Value} {native : Native} {site : Option Value}
      {rest : Stack Value} {v : Value} {store : Store} {ip : Nat} {log : String}
      (hcalls : s.CallsNative i native site args rest)
      (hcall : Library.callWith cfg.host native (site.getD .null) args s.store = .ok v store) :
      Effect p cfg s (some i) { s with ip, log, operands := rest.push v, store }
  | enters {i : Instruction} {args : List Value} {callee : Value} {c : ClosureRef}
      {site : Option Value} {rest : Stack Value} {closure : Closure} {function : FunctionDef}
      {bound : List (String × Value)} {ip : Nat} {log : String}
      (hop : i.op = .call ∨ i.op = .callWith)
      (htop : s.operands.topDown = args.reverse ++ callee :: (site.toList ++ rest.topDown))
      (hroom : s.frames.size < cfg.maxCallDepth)
      (hcallee : s.store.calledClosure? callee = some c)
      (hclosure : s.store.closures[c]? = some closure)
      (hfunction : p.functions[closure.function]? = some function)
      (hbound : bindings p function.params.toList args = .ok bound) :
      Effect p cfg s (some i)
        { s with
          ip, log
          active := some closure.function
          scope := s.store.scopes.size
          operands := .empty
          frames := s.frames.push ⟨s.active, s.ip + 1, s.scope⟩
          suspended := s.suspended.push rest
          store := (s.store.newScope (some closure.scope)).2.defineAll s.store.scopes.size
            (bound ++ callBindings c site) }
  | leaves {next : Option Instruction} {v : Value} {frame : Frame} {frames : Stack Frame}
      {operands : Stack Value} {suspended : Stack (Stack Value)} {ip : Nat} {log : String}
      (hop : ∀ i ∈ next, i.op = .ret ∨ i.op = .retValue)
      (hv : v = .null ∨ s.operands.peek? = some v) (hframes : s.frames = frames.push frame)
      (hsuspended : s.suspended = suspended.push operands) :
      Effect p cfg s next
        { s with
          ip, log
          active := frame.caller
          scope := frame.scope
          operands := operands.push v
          frames
          suspended }
  | halts {next : Option Instruction} {rest : Stack Value} {ip : Nat} {log : String}
      (hop : ∀ i ∈ next, i.op = .ret ∨ i.op = .retValue) (hframes : s.frames = .empty)
      (hrest : rest.topDown <:+ s.operands.topDown) :
      Effect p cfg s next { s with ip, log, operands := rest }

variable {p : Program} {cfg : Settings} {s t : State} {v : Value} {next : Option Instruction}

/-- What is in the log, and where execution goes on, is left open. -/
theorem Effect.of_log {log : String} (h : Effect p cfg { s with log } next t) (ip : Nat) :
    s.Effect p cfg next { t with ip } := by
  cases h with
  | computes hop hoperands => exact .computes hop hoperands
  | declares hop hname hv => exact .declares hop hname hv
  | assigns hop hname hv hb => exact .assigns hop hname hv hb
  | makes_closure hop hfunction => exact .makes_closure hop hfunction
  | opens_scope hop => exact .opens_scope hop
  | closes_scope hop houter => exact .closes_scope hop houter
  | writes hop htop htarget => exact .writes hop htop htarget
  | calls_native hcalls hcall =>
    exact .calls_native ⟨hcalls.op, hcalls.callee, hcalls.args, hcalls.site⟩ hcall
  | enters hop htop hroom hcallee hclosure hfunction hbound =>
    exact .enters hop htop hroom hcallee hclosure hfunction hbound
  | leaves hop hv hframes hsuspended => exact .leaves hop hv hframes hsuspended
  | halts hop hframes hrest => exact .halts hop hframes hrest

/-! ## Computations -/

/-- `t` is `s` with other operands, all of them known in `s`, and with other output. -/
def Computed (s t : State) : Prop :=
  ∃ (operands : Stack Value) (sink : Sink),
    (∀ v ∈ operands.topDown, s.Known v) ∧ t = { s with operands, sink }

theorem known_of_operand (h : v ∈ s.operands.topDown) : s.Known v := Store.known_of_mem h

namespace Computed

theorem refl (s : State) : s.Computed s := ⟨s.operands, s.sink, fun _ => known_of_operand, rfl⟩

theorem known (h : s.Computed t) (hv : t.Known v) : s.Known v := by
  obtain ⟨operands, sink, hoperands, rfl⟩ := h
  intro c hc
  rcases hv c hc with hv | hv
  · exact hoperands v hv c hc
  · exact Or.inr hv

theorem trans {u : State} (hst : s.Computed t) (htu : t.Computed u) : s.Computed u := by
  obtain ⟨operands, sink, hoperands, rfl⟩ := htu
  have hknown : ∀ v ∈ operands.topDown, s.Known v := fun v hv => hst.known (hoperands v hv)
  obtain ⟨-, -, -, rfl⟩ := hst
  exact ⟨operands, sink, hknown, rfl⟩

theorem of_popped (h : s.Popped t) : s.Computed t := by
  obtain ⟨rest, hrest, rfl⟩ := h
  exact ⟨rest, s.sink, fun v hv => known_of_operand (hrest.subset hv), rfl⟩

theorem push (h : s.Computed t) (hv : s.Known v) :
    s.Computed { t with operands := t.operands.push v } := by
  obtain ⟨operands, sink, hoperands, rfl⟩ := h
  refine ⟨operands.push v, sink, fun w hw => ?_, rfl⟩
  rcases List.mem_cons.mp hw with rfl | hw
  · exact hv
  · exact hoperands w hw

instance : IsPreorder State Computed where
  refl := refl
  trans _ _ _ := trans

end Computed

end State

namespace Exec

open State

variable {p : Program} {cfg : Settings} {s t : State} {flow : Flow} {v : Value}

/-! ## Parts of sequences that end well -/

section Parts

variable {α β : Type} {g : α → Exec β} {b : β}

theorem orFault_bind_eq_ok {f : Fault} {o : Option α} (h : (orFault f o >>= g) s = .ok b t) :
    ∃ a, o = some a ∧ g a s = .ok b t := by
  cases o with
  | none => cases h
  | some a => exact ⟨a, rfl, h⟩

theorem query_bind_eq_ok {f : State → Except Fault α}
    (h : ((fun s => ofExcept (f s) s) >>= g) s = .ok b t) :
    ∃ a, f s = .ok a ∧ g a s = .ok b t := by
  obtain ⟨a, u, hquery, hrest⟩ := bind_eq_ok h
  cases hf : f s with
  | error e =>
    rw [hf] at hquery
    cases hquery
  | ok a' =>
    rw [hf] at hquery
    cases hquery
    exact ⟨a, rfl, hrest⟩

theorem peek_bind_eq_ok {g : Value → Exec β} (h : (peek >>= g) s = .ok b t) :
    ∃ v, s.operands.peek? = some v ∧ g v s = .ok b t := by
  obtain ⟨v, u, hpeek, hrest⟩ := bind_eq_ok h
  unfold peek at hpeek
  split at hpeek <;> cases hpeek
  rename_i hv
  exact ⟨v, hv, hrest⟩

theorem pop_bind_eq_ok {g : Value → Exec β} (h : (pop >>= g) s = .ok b t) :
    ∃ v rest, s.operands = Stack.push rest v ∧ g v { s with operands := rest } = .ok b t := by
  obtain ⟨v, u, hpop, hrest⟩ := bind_eq_ok h
  obtain ⟨rest, hoperands, rfl⟩ := pop_eq_ok hpop
  exact ⟨v, rest, hoperands, hrest⟩

end Parts

theorem mem_of_peek? (h : s.operands.peek? = some v) : v ∈ s.operands.topDown :=
  List.mem_of_mem_head? h

/-! ## Instructions that compute -/

theorem keepsComputed_push (hv : ∀ c, v ≠ .closure c) : Keeps Computed (push v) :=
  keeps_change fun s => (Computed.refl s).push (Store.known_of_ne_closure hv)

theorem keepsComputed_pop : Keeps Computed pop := keeps_pop Computed.of_popped

theorem binary_ne_closure {op : Opcode} {left right : Value} (h : binary op left right = .ok v)
    (c : ClosureRef) : v ≠ .closure c := by
  rintro rfl
  unfold binary at h
  split at h
  any_goals cases h
  -- What is left is the remainder, which a zero divisor does not have.
  split at h <;> cases h

theorem keepsComputed_binaryOperator (op : Opcode) : Keeps Computed (binaryOperator op) := by
  refine keepsComputed_pop.bind fun right => keepsComputed_pop.bind fun left => ?_
  cases hresult : binary op left right with
  | ok v => exact keepsComputed_push (binary_ne_closure hresult)
  | error f => exact keeps_fault f

theorem keepsComputed_print (n : Nat) : Keeps Computed (print n) := by
  refine (keeps_popN Computed.of_popped n).bind fun vs s => ?_
  dsimp only
  split <;> refine ⟨fun a t h => ?_, fun f t h => ?_⟩ <;> cases h <;>
    exact ⟨s.operands, _, fun _ => known_of_operand, rfl⟩

theorem known_of_property {container key : Value} (h : s.store.property container key = .ok v) :
    s.Known v := by
  have hget : ∀ o name, s.Known ((s.store.get? o name).getD .null) := fun o name =>
    Store.known_getD _ fun w hw => Store.known_of_holds (Store.holds_of_get? hw)
  unfold Store.property at h
  split at h
  · cases h
    exact hget _ _
  · cases h
  · cases h
    exact Store.known_getD _ fun w hw => Store.known_of_holds (Store.holds_of_arrayGet? hw)
  · split at h <;> cases h
    exact hget _ _
  · split at h <;> cases h

theorem computed_of_getProperty {keepContainer : Bool}
    (h : (getProperty keepContainer >>= fun _ => pure Flow.next) s = .ok flow t) :
    s.Computed t := by
  obtain ⟨_, u, hget, hnext⟩ := bind_eq_ok h
  cases hnext
  obtain ⟨key, rest₁, hrest₁, hget⟩ := pop_bind_eq_ok hget
  obtain ⟨container, rest₂, hrest₂, hget⟩ := pop_bind_eq_ok hget
  obtain ⟨v, hproperty, hget⟩ := query_bind_eq_ok hget
  change rest₁ = rest₂.push container at hrest₂
  have htop : s.operands.topDown = key :: container :: rest₂.topDown := by
    rw [hrest₁, hrest₂]
    rfl
  have hpopped : s.Computed { s with operands := rest₂ } := by
    refine .of_popped ⟨rest₂, ?_, rfl⟩
    rw [htop]
    exact (List.suffix_cons _ _).trans (List.suffix_cons _ _)
  have hv : s.Known v := hpopped.known (known_of_property hproperty)
  have hcontainer : s.Known container := known_of_operand (by simp [htop])
  cases keepContainer with
  | false =>
    cases hget
    exact hpopped.push hv
  | true =>
    cases hget
    exact (hpopped.push hcontainer).push hv

/-- An instruction that computes leaves operands that were known, and does nothing else but
    print. -/
theorem computed_of_instruction {i : Instruction} (hop : i.op.computes = true)
    (h : instruction p cfg i s = .ok flow t) : s.Computed t := by
  obtain ⟨op, operand⟩ := i
  have hkeeps : Keeps Computed (instruction p cfg ⟨op, operand⟩) → s.Computed t :=
    fun hkeeps => (hkeeps s).1 _ _ h
  cases op
  case declare | assign | function | enterScope | leaveScope | set => cases hop
  case call | callWith | ret | retValue => cases hop
  case loadConst =>
    refine hkeeps ((keeps_orFault _ _).bind fun l => ?_)
    exact (keepsComputed_push fun c => by cases l <;> nofun).bind fun _ => keeps_pure _
  case load =>
    obtain ⟨name, -, hload⟩ := orFault_bind_eq_ok h
    obtain ⟨v, hv, hpush⟩ := orFault_bind_eq_ok hload
    cases hpush
    exact (Computed.refl s).push (Store.known_of_holds (Store.holds_of_lookup? hv))
  case dup =>
    obtain ⟨v, hv, hpush⟩ := peek_bind_eq_ok h
    cases hpush
    exact (Computed.refl s).push (known_of_operand (mem_of_peek? hv))
  case pop => exact hkeeps (keepsComputed_pop.bind fun _ => keeps_pure _)
  case jump => exact hkeeps (keeps_pure _)
  case jumpTruthy | jumpFalsy => exact hkeeps (keepsComputed_pop.bind fun _ => keeps_pure _)
  case get | getWith => exact computed_of_getProperty h
  case neg | not =>
    refine hkeeps (Keeps.bind (keepsComputed_pop.bind fun v => ?_) fun _ => keeps_pure _)
    exact keepsComputed_push nofun
  case print => exact hkeeps ((keepsComputed_print _).bind fun _ => keeps_pure _)
  -- What is left are the binary operators.
  all_goals exact hkeeps ((keepsComputed_binaryOperator _).bind fun _ => keeps_pure _)

/-! ## All instructions -/

theorem effect_of_leave {next : Option Instruction}
    (hop : ∀ i ∈ next, i.op = .ret ∨ i.op = .retValue)
    (hv : v = .null ∨ s.operands.peek? = some v) {rest : Stack Value}
    (hrest : rest.topDown <:+ s.operands.topDown)
    (h : leave v { s with operands := rest } = .ok flow t) : s.Effect p cfg next t := by
  rcases leave_eq_ok_state h with
    ⟨-, hframes, rfl⟩ | ⟨-, frame, frames, operands, suspended, hf, hs, rfl⟩
  · exact .halts hop hframes hrest
  · exact .leaves hop hv hf hs

theorem effect_of_call {i : Instruction} (hop : i.op = .call ∨ i.op = .callWith)
    (h : call p cfg i.operand.toNat (decide (i.op = .callWith)) s = .ok flow t) :
    s.Effect p cfg (some i) t := by
  obtain ⟨args, callee, site, rest, htop, hargs, hsite, hvalue⟩ := call_eq_ok h
  rcases callValue_eq_ok hvalue with ⟨c, hc, henter⟩ | ⟨n, native, rfl, hn, hnative⟩
  · obtain ⟨-, hroom, closure, function, bound, hclosure, hfunction, hbound, rfl⟩ :=
      enter_eq_ok henter
    exact .enters hop htop hroom hc hclosure hfunction hbound
  · obtain ⟨-, v, store, hcall, rfl⟩ := callNative_eq_ok hnative
    exact .calls_native ⟨hop, ⟨n, hn, htop⟩, hargs, hsite⟩ hcall

theorem effect_of_set {i : Instruction} (hop : i.op = .set)
    (h : (setProperty >>= fun _ => pure Flow.next) s = .ok flow t) :
    s.Effect p cfg (some i) t := by
  obtain ⟨_, u, hset, hnext⟩ := bind_eq_ok h
  cases hnext
  obtain ⟨v, rest₁, hrest₁, hset⟩ := pop_bind_eq_ok hset
  obtain ⟨key, rest₂, hrest₂, hset⟩ := pop_bind_eq_ok hset
  obtain ⟨container, rest₃, hrest₃, hset⟩ := pop_bind_eq_ok hset
  obtain ⟨target, htarget, hset⟩ := query_bind_eq_ok (f := fun _ => Target.of container key) hset
  change rest₁ = rest₂.push key at hrest₂
  change rest₂ = rest₃.push container at hrest₃
  cases hset
  refine .writes hop ?_ htarget
  rw [hrest₁, hrest₂, hrest₃]
  rfl

/-- What an instruction does where it ends well. -/
theorem effect_of_instruction {i : Instruction} (h : instruction p cfg i s = .ok flow t) :
    s.Effect p cfg (some i) t := by
  by_cases hcomputes : i.op.computes = true
  · obtain ⟨operands, sink, hoperands, rfl⟩ := computed_of_instruction hcomputes h
    exact .computes hcomputes hoperands
  obtain ⟨op, operand⟩ := i
  cases op
  case declare =>
    obtain ⟨name, hname, hdeclare⟩ := orFault_bind_eq_ok h
    obtain ⟨v, hv, hdeclare⟩ := peek_bind_eq_ok hdeclare
    cases hdeclare
    exact .declares rfl hname hv
  case assign =>
    obtain ⟨name, hname, hassign⟩ := orFault_bind_eq_ok h
    obtain ⟨v, hv, hassign⟩ := peek_bind_eq_ok hassign
    obtain ⟨scope, u, hscope, hassign⟩ := bind_eq_ok hassign
    cases hscope
    obtain ⟨found, u, hfound, hnext⟩ := bind_eq_ok hassign
    simp only [updateStore, Store.assign] at hfound
    cases hb : s.store.binder? s.scope name with
    | none =>
      rw [hb] at hfound
      cases hfound
      cases hnext
    | some b =>
      rw [hb] at hfound
      cases hfound
      cases hnext
      exact .assigns rfl hname hv hb
  case function =>
    simp only [instruction] at h
    split at h
    · rename_i hfunction
      cases h
      exact .makes_closure rfl hfunction
    · cases h
  case enterScope =>
    cases h
    exact .opens_scope rfl
  case leaveScope =>
    obtain ⟨outer, houter, hleave⟩ := orFault_bind_eq_ok h
    cases hleave
    exact .closes_scope rfl houter
  case set => exact effect_of_set rfl h
  case call => exact effect_of_call (Or.inl rfl) h
  case callWith => exact effect_of_call (Or.inr rfl) h
  case ret => exact effect_of_leave (by simp) (Or.inl rfl) (List.suffix_refl _) h
  case retValue =>
    obtain ⟨v, rest, hrest, hleave⟩ := pop_bind_eq_ok h
    refine effect_of_leave (by simp) (Or.inr ?_) ?_ hleave
    · rw [hrest]
      rfl
    · rw [hrest]
      exact List.suffix_cons _ _
  all_goals exact absurd rfl hcomputes

end Exec

namespace Progress

/-- A step goes on or halts after an operation that ended well. -/
theorem eq_ok_of_running_or_halted {r : EStateM.Result Fault State Flow} {t : State}
    (h : of r = .running t ∨ of r = .halted t) :
    ∃ flow u ip, r = .ok flow u ∧ t = { u with ip } := by
  unfold of at h
  split at h <;> rcases h with h | h <;> cases h <;> exact ⟨_, _, _, rfl, rfl⟩

end Progress

namespace State

variable {p : Program} {cfg : Settings} {s t : State}

/-- What a step does that does not fail. -/
theorem effect_of_step (h : s.step p cfg = .running t ∨ s.step p cfg = .halted t) :
    s.Effect p cfg (s.next? p) t := by
  unfold step at h
  cases hnext : s.next? p with
  | some i =>
    rw [hnext] at h
    obtain ⟨flow, u, ip, hok, rfl⟩ := Progress.eq_ok_of_running_or_halted h
    obtain ⟨log, hlog⟩ := logged_eq cfg i s
    rw [hlog] at hok
    exact (Exec.effect_of_instruction hok).of_log ip
  | none =>
    rw [hnext] at h
    obtain ⟨flow, u, ip, hok, rfl⟩ := Progress.eq_ok_of_running_or_halted h
    exact (Exec.effect_of_leave (by simp) (Or.inl rfl) (List.suffix_refl _) hok).of_log ip

end State

end StackMachine
