import StackMachine.Proofs.Library.Effect
import StackMachine.Proofs.Machine.Effect
import StackMachine.Proofs.Machine.Faults

/-!
# Where closures come from

A machine has the closures that are operands of a call in progress and those that its store holds.
One that it has after a step it had before, unless the step made it or a function of the host
brought it in (`State.origin_of_step`).
-/

namespace StackMachine

/-! ## Stores -/

/-- From `st` to `st'` scopes and closures stay as they are, and no closure is held afterwards that
    was neither given nor held before. -/
structure Store.Rearranges (given : List Value) (st st' : Store) : Prop where
  scopes_eq : st'.scopes = st.scopes
  closures_eq : st'.closures = st.closures
  known : ∀ v, st'.Holds v → st.Known given v

theorem Store.Rearranges.refl (given : List Value) (st : Store) : st.Rearranges given st :=
  ⟨rfl, rfl, fun _ h => known_of_holds h⟩

namespace Target

theorem closures_store (target : Target) (st : Store) (v : Value) :
    (target.store st v).closures = st.closures := by
  cases target <;> rfl

theorem holds_of_store {target : Target} {st : Store} {v w : Value}
    (h : (target.store st v).Holds w) : st.Holds w ∨ w = v := by
  cases target with
  | entry o key => exact Store.holds_of_set h
  | item r position =>
    rcases Store.holds_of_modifyArray h with h | h
    · exact Or.inl h
    · exact (Items.mem_of_mem_set h).imp_left .item

end Target

/-! ## Natives -/

namespace Library

/-- A native that is not one of the host's own only moves values around, and gives one that it
    found, as far as closures go. -/
theorem rearranges_of_callWith {native : Native}
    (hbody : ∀ number, native.body ≠ .host (.supplied number)) (host : Host) (site : Value)
    (args : List Value) (st : Store) :
    (∀ v st', callWith host native site args st = .ok v st' →
      st.Rearranges (site :: args) st' ∧ st.Known (site :: args) v) ∧
    ∀ e st', callWith host native site args st = .error e st' →
      st.Rearranges (site :: args) st' := by
  obtain ⟨name, arity, body⟩ := native
  cases body with
  | builtin b =>
    refine ⟨fun v st' h => ?_, fun e st' h => ?_⟩
    · have heffect := effect_of_callBuiltin h
      have hknown : ∀ w, st'.Holds w → st.Known (site :: args) w :=
        fun w hw => heffect.known_of_holds hw
      exact ⟨⟨heffect.scopes_eq, heffect.closures_eq, hknown⟩, heffect.known⟩
    · rw [← failsBy_callBuiltin site args b st e st' h]
      exact .refl _ st
  | host f =>
    cases f with
    | collect =>
      refine ⟨fun v st' h => ?_, nofun⟩
      cases h
      refine ⟨⟨rfl, rfl, fun w hw => ?_⟩, Store.known_of_ne_closure nofun⟩
      rcases Store.holds_of_newArray hw with hw | hw
      · exact Store.known_of_holds hw
      · exact Store.known_of_mem (List.mem_cons_of_mem _ (by simpa using hw))
    | callSite =>
      refine ⟨fun v st' h => ?_, nofun⟩
      cases h
      exact ⟨.refl _ st, Store.known_of_mem List.mem_cons_self⟩
    | count =>
      refine ⟨fun v st' h => ?_, nofun⟩
      cases h
      exact ⟨.refl _ st, Store.known_of_ne_closure nofun⟩
    | fail message =>
      refine ⟨nofun, fun e st' h => ?_⟩
      cases h
      exact .refl _ st
    | supplied number => exact absurd rfl (hbody number)

end Library

/-! ## What a machine has -/

namespace State

variable {p : Program} {cfg : Settings} {s t : State} {next : Option Instruction} {c : ClosureRef}
  {v : Value}

/-- The closure is an operand of a call in progress, or held by the store. -/
inductive Has (s : State) (c : ClosureRef) : Prop
  | operand (h : .closure c ∈ s.operands.topDown) : Has s c
  | suspended {operands : Stack Value} (hmem : operands ∈ s.suspended.topDown)
      (h : .closure c ∈ operands.topDown) : Has s c
  | stored (h : s.store.Holds (.closure c)) : Has s c

/-- The next step calls a function of the host, which leaves this store and gives this value, if
    it gives one. -/
inductive HostActs (cfg : Settings) (s : State) (next : Option Instruction) :
    Store → Option Value → Prop
  | returns {i : Instruction} {native : Native} {number : Nat} {site : Option Value}
      {args : List Value} {rest : Stack Value} {v : Value} {store : Store} (hnext : i ∈ next)
      (hcalls : s.CallsNative i native site args rest)
      (hbody : native.body = .host (.supplied number))
      (hcall : cfg.host number (site.getD .null) args s.store = .ok v store) :
      HostActs cfg s next store (some v)
  | fails {i : Instruction} {native : Native} {number : Nat} {site : Option Value}
      {args : List Value} {rest : Stack Value} {e : Library.NativeError} {store : Store}
      (hnext : i ∈ next) (hcalls : s.CallsNative i native site args rest)
      (hbody : native.body = .host (.supplied number))
      (hcall : cfg.host number (site.getD .null) args s.store = .error e store) :
      HostActs cfg s next store none

/-- How the machine comes to have a closure after a step from `s` to `t`. -/
inductive Origin (p : Program) (cfg : Settings) (s : State) (next : Option Instruction) (t : State)
    (c : ClosureRef) : Prop
  | had (h : s.Has c) : Origin p cfg s next t c
  | made {function : Nat} (hc : c = s.store.closures.size) (hfunction : function < p.functions.size)
      (hstore : t.store = (s.store.newClosure function s.scope).2) : Origin p cfg s next t c
  | supplied {v : Option Value} (hacts : s.HostActs cfg next t.store v)
      (h : v = some (.closure c) ∨ t.store.Holds (.closure c)) : Origin p cfg s next t c

theorem HostActs.of_none {store : Store} {v : Option Value} (hnone : cfg.host = .none)
    (h : s.HostActs cfg next store v) : store = s.store ∧ v = none := by
  cases h with
  | returns hnext hcalls hbody hcall =>
    rw [hnone] at hcall
    cases hcall
  | fails hnext hcalls hbody hcall =>
    rw [hnone] at hcall
    cases hcall
    exact ⟨rfl, rfl⟩

/-- A call of a native is one of a function of the host, or only moves values around. -/
theorem acts_or_rearranges {i : Instruction} {native : Native} {site : Option Value}
    {args : List Value} {rest : Stack Value} (hcalls : s.CallsNative i native site args rest) :
    (∀ v store, Library.callWith cfg.host native (site.getD .null) args s.store = .ok v store →
      s.HostActs cfg (some i) store (some v) ∨
        s.store.Rearranges (site.getD .null :: args) store ∧
          s.store.Known (site.getD .null :: args) v) ∧
    ∀ e store, Library.callWith cfg.host native (site.getD .null) args s.store = .error e store →
      s.HostActs cfg (some i) store none ∨
        s.store.Rearranges (site.getD .null :: args) store := by
  by_cases hbody : ∃ number, native.body = .host (.supplied number)
  · obtain ⟨number, hbody⟩ := hbody
    rw [Library.callWith, hbody]
    exact ⟨fun v store h => Or.inl (.returns rfl hcalls hbody h),
      fun e store h => Or.inl (.fails rfl hcalls hbody h)⟩
  · have hrearranges := Library.rearranges_of_callWith (not_exists.mp hbody) cfg.host
      (site.getD .null) args s.store
    exact ⟨fun v store h => Or.inr (hrearranges.1 v store h),
      fun e store h => Or.inr (hrearranges.2 e store h)⟩

theorem has_of_known (h : s.Known (.closure c)) : s.Has c := by
  rcases h c rfl with h | h
  · exact .operand h
  · exact .stored h

/-! ### Calls -/

theorem mem_of_bindings {params : List UInt16} {args : List Value} {bound : List (String × Value)}
    {name : String} (h : bindings p params args = .ok bound) (hv : (name, v) ∈ bound) :
    v ∈ args := by
  fun_induction bindings p params args generalizing bound with
  | case1 => cases h
  | case2 param params arg args symbol hsymbol rest hrest ih =>
    cases h
    rcases List.mem_cons.mp hv with heq | hv
    · cases heq
      exact List.mem_cons_self
    · exact List.mem_cons_of_mem _ (ih hrest hv)
  | case3 => cases h
  | case4 =>
    cases h
    cases hv

/-- The closure that a call enters is the callee, or is held by the callee. -/
theorem known_of_calledClosure? {callee : Value} {c : ClosureRef}
    (hcallee : callee ∈ s.operands.topDown) (h : s.store.calledClosure? callee = some c) :
    s.Known (.closure c) := by
  cases callee with
  | closure c' =>
    cases h
    exact known_of_operand hcallee
  | object o =>
    unfold Store.calledClosure? Store.function? at h
    dsimp only at h
    split at h <;> cases h
    rename_i hget
    exact Store.known_of_holds (Store.holds_of_get? hget)
  | _ => cases h

section Calls

variable {i : Instruction} {args : List Value} {callee : Value} {site : Option Value}
  {rest : Stack Value}
  (htop : s.operands.topDown = args.reverse ++ callee :: (site.toList ++ rest.topDown))

include htop

/-- What a call takes off the operands, and what it leaves of them, the machine had. -/
theorem has_of_call (h : .closure c ∈ args ++ site.toList ++ rest.topDown) : s.Has c := by
  apply Has.operand
  rw [htop]
  simp only [List.mem_append] at h
  rcases h with (h | h) | h <;> simp [h]

theorem has_of_known_argument (h : s.store.Known (site.getD .null :: args) (.closure c)) :
    s.Has c := by
  rcases h c rfl with h | h
  · rcases List.mem_cons.mp h with h | h
    · cases site with
      | none => cases h
      | some v =>
        cases h
        exact has_of_call htop (by simp)
    · exact has_of_call htop (by simp [h])
  · exact .stored h

/-- What a call of a closure binds, the machine had. -/
theorem has_of_bound {c' : ClosureRef} {params : List UInt16} {bound : List (String × Value)}
    {name : String} (hcallee : s.store.calledClosure? callee = some c')
    (hbound : bindings p params args = .ok bound)
    (h : (name, .closure c) ∈ bound ++ callBindings c' site) : s.Has c := by
  rcases List.mem_append.mp h with h | h
  · exact has_of_call htop (by simp [mem_of_bindings hbound h])
  · rcases List.mem_cons.mp h with h | h
    · cases h
      exact has_of_known (known_of_calledClosure? (by simp [htop]) hcallee)
    · cases site with
      | none => cases h
      | some v =>
        cases List.mem_singleton.mp h
        exact has_of_call htop (by simp)

end Calls

/-! ### All steps -/

/-- The callers' operands are left alone, and what else the machine has is accounted for. -/
theorem Origin.of_suspended (hsuspended : t.suspended = s.suspended)
    (hoperands : .closure c ∈ t.operands.topDown → s.Origin p cfg next t c)
    (hstored : t.store.Holds (.closure c) → s.Origin p cfg next t c) (h : t.Has c) :
    s.Origin p cfg next t c := by
  cases h with
  | operand h => exact hoperands h
  | suspended hmem h =>
    rw [hsuspended] at hmem
    exact .had (.suspended hmem h)
  | stored h => exact hstored h

/-- After a step that goes on or halts. -/
theorem origin_of_effect (h : s.Effect p cfg next t) (hc : t.Has c) :
    s.Origin p cfg next t c := by
  cases h with
  | computes hop hoperands =>
    exact .of_suspended rfl (fun h => .had (has_of_known (hoperands _ h)))
      (fun h => .had (.stored h)) hc
  | declares hop hname hv | assigns hop hname hv =>
    refine .of_suspended rfl (fun h => .had (.operand h)) (fun h => ?_) hc
    rcases Store.holds_of_define h with h | h
    · exact .had (.stored h)
    · rw [← h] at hv
      exact .had (.operand (List.mem_of_mem_head? hv))
  | makes_closure hop hfunction =>
    refine .of_suspended rfl (fun h => ?_) (fun h => .had (.stored (h.congr rfl rfl rfl))) hc
    rcases List.mem_cons.mp h with h | h
    · cases h
      exact .made rfl hfunction rfl
    · exact .had (.operand h)
  | opens_scope hop =>
    exact .of_suspended rfl (fun h => .had (.operand h))
      (fun h => .had (.stored (Store.holds_of_newScope h))) hc
  | closes_scope hop houter =>
    exact .of_suspended rfl (fun h => .had (.operand h)) (fun h => .had (.stored h)) hc
  | @writes i v key container target rest _ _ hop htop htarget =>
    have hv : .closure c ∈ v :: rest.topDown → s.Has c := by
      intro h
      apply Has.operand
      rw [htop]
      rcases List.mem_cons.mp h with h | h <;> simp [h]
    refine .of_suspended rfl (fun h => .had (hv h)) (fun h => ?_) hc
    rcases Target.holds_of_store h with h | h
    · exact .had (.stored h)
    · exact .had (hv (by simp [h]))
  | @calls_native i args native site rest v store _ _ hcalls hcall =>
    obtain ⟨n, -, htop⟩ := hcalls.callee
    have hrest : .closure c ∈ rest.topDown → s.Has c := fun h => has_of_call htop (by simp [h])
    rcases (acts_or_rearranges hcalls).1 v store hcall with hacts | ⟨hrearranges, hv⟩
    · refine .of_suspended rfl (fun h => ?_) (fun h => .supplied hacts (Or.inr h)) hc
      rcases List.mem_cons.mp h with h | h
      · exact .supplied hacts (Or.inl (by rw [h]))
      · exact .had (hrest h)
    · refine .of_suspended rfl (fun h => ?_) (fun h => ?_) hc
      · rcases List.mem_cons.mp h with h | h
        · rw [← h] at hv
          exact .had (has_of_known_argument htop hv)
        · exact .had (hrest h)
      · exact .had (has_of_known_argument htop (hrearranges.known _ h))
  | @enters i args callee c' site rest closure function bound _ _ hop htop hroom hcallee hclosure
      hfunction hbound =>
    cases hc with
    | operand h => cases h
    | suspended hmem h =>
      rcases List.mem_cons.mp hmem with rfl | hmem
      · exact .had (has_of_call htop (by simp [h]))
      · exact .had (.suspended hmem h)
    | stored h =>
      rcases Store.holds_of_defineAll h with h | ⟨name, h⟩
      · exact .had (.stored (Store.holds_of_newScope h))
      · exact .had (has_of_bound htop hcallee hbound h)
  | @leaves next v frame frames operands suspended _ _ hop hv hframes hsuspended =>
    cases hc with
    | operand h =>
      rcases List.mem_cons.mp h with h | h
      · rw [← h] at hv
        exact .had (.operand (List.mem_of_mem_head? (hv.resolve_left nofun)))
      · exact .had (.suspended (by simp [hsuspended]) h)
    | suspended hmem h => exact .had (.suspended (by simp [hsuspended, hmem]) h)
    | stored h => exact .had (.stored h)
  | halts hop hframes hrest =>
    exact .of_suspended rfl (fun h => .had (.operand (hrest.subset h)))
      (fun h => .had (.stored h)) hc

/-- After a step that fails. -/
theorem origin_of_refusal {f : Fault} (h : s.Refusal p cfg next f t) (hc : t.Has c) :
    s.Origin p cfg next t c := by
  cases h with
  | stops hrest | unpaired hrest =>
    exact .of_suspended rfl (fun h => .had (.operand (hrest.subset h)))
      (fun h => .had (.stored h)) hc
  | @native_fails i args native site rest e store log hcalls hcall =>
    obtain ⟨n, -, htop⟩ := hcalls.callee
    refine .of_suspended rfl (fun h => .had (has_of_call htop (by simp [h]))) (fun h => ?_) hc
    rcases (acts_or_rearranges hcalls).2 e store hcall with hacts | hrearranges
    · exact .supplied hacts (Or.inr h)
    · exact .had (has_of_known_argument htop (hrearranges.known _ h))

/-- A closure that the machine has after a step it had before, the step made it, or the host
    brought it in. -/
theorem origin_of_step (hc : (s.step p cfg).state.Has c) :
    s.Origin p cfg (s.next? p) (s.step p cfg).state c := by
  cases hstep : s.step p cfg with
  | running t =>
    rw [hstep] at hc
    exact origin_of_effect (effect_of_step (Or.inl hstep)) hc
  | halted t =>
    rw [hstep] at hc
    exact origin_of_effect (effect_of_step (Or.inr hstep)) hc
  | failed f t =>
    rw [hstep] at hc
    exact origin_of_refusal (refusal_of_step hstep) hc

end State

end StackMachine
