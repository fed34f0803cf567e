import StackMachine.Proofs.Machine.Comparison
import StackMachine.Proofs.Machine.Provenance

/-!
# Indexes that are in range

Closures pass through operands, scopes, arrays, objects and natives, but only a function
instruction makes one, and that checks its index.  So a machine whose host supplies no closure of a
function that does not exist never comes to hold one (`State.Sound`), and if the operands of the
code are in range too, no run fails because of an index (`Session.sound_after`).
-/

namespace StackMachine

/-! ## Stores -/

namespace Store

variable {st st' : Store} {limit : Nat} {v : Value} {given : List Value}

/-- If the value is a closure, the store has it, and its function is one of the first `limit`. -/
def InRange (st : Store) (limit : Nat) (v : Value) : Prop :=
  ∀ c, v = .closure c → ∃ closure, st.closures[c]? = some closure ∧ closure.function < limit

/-- The closures of `st` are the same in `st'`, which may have more. -/
def KeepsClosures (st st' : Store) : Prop :=
  ∀ (c : ClosureRef) closure, st.closures[c]? = some closure → st'.closures[c]? = some closure

/-- From `st` to `st'`, closures that were neither in the store nor given came in only of the first
    `limit` functions. -/
structure Supplied (limit : Nat) (given : List Value) (st st' : Store) : Prop where
  keeps : st.KeepsClosures st'
  holds : ∀ v, st'.Holds v → st.Known given v ∨ st'.InRange limit v

theorem KeepsClosures.of_eq (h : st'.closures = st.closures) : st.KeepsClosures st' := by
  intro c closure hc
  rw [h]
  exact hc

theorem KeepsClosures.trans {st'' : Store} (h : st.KeepsClosures st')
    (h' : st'.KeepsClosures st'') : st.KeepsClosures st'' :=
  fun c closure hc => h' c closure (h c closure hc)

theorem InRange.mono (h : st.InRange limit v) (hkeeps : st.KeepsClosures st') :
    st'.InRange limit v := by
  intro c hc
  obtain ⟨closure, hclosure, hlt⟩ := h c hc
  exact ⟨closure, hkeeps c closure hclosure, hlt⟩

theorem Supplied.refl (limit : Nat) (given : List Value) (st : Store) :
    st.Supplied limit given st :=
  ⟨.of_eq rfl, fun _ h => Or.inl (known_of_holds h)⟩

theorem keepsClosures_newClosure (st : Store) (function : Nat) (scope : ScopeRef) :
    st.KeepsClosures (st.newClosure function scope).2 := by
  intro c closure hc
  have hlt := (Array.getElem?_eq_some_iff.mp hc).1
  rw [newClosure, Array.getElem?_push, if_neg (Nat.ne_of_lt hlt)]
  exact hc

theorem inRange_newClosure (st : Store) {function : Nat} (scope : ScopeRef)
    (h : function < limit) :
    (st.newClosure function scope).2.InRange limit (.closure st.closures.size) := by
  intro c hc
  cases hc
  exact ⟨⟨function, scope⟩, Array.getElem?_push_size, h⟩

theorem inRange_of_known (hgiven : ∀ w ∈ given, st.InRange limit w)
    (hholds : ∀ w, st.Holds w → st.InRange limit w) (h : st.Known given v) :
    st.InRange limit v := by
  intro c hc
  rcases h c hc with hv | hv
  · exact hgiven v hv c hc
  · exact hholds v hv c hc

/-- With closures in range before, all are in range after. -/
theorem Supplied.inRange (h : st.Supplied limit given st')
    (hgiven : ∀ w ∈ given, st.InRange limit w) (hholds : ∀ w, st.Holds w → st.InRange limit w)
    (hv : st.Known given v ∨ st'.InRange limit v) : st'.InRange limit v := by
  rcases hv with hv | hv
  · exact (inRange_of_known hgiven hholds hv).mono h.keeps
  · exact hv

end Store

/-! ## Natives -/

namespace Library

/-- However a call of a native ends, what it gives and what it leaves in the store was known before
    as far as closures go, or is in range. -/
def Supplies (limit : Nat) (site : Value) (args : List Value) (st : Store) :
    EStateM.Result NativeError Store Value → Prop
  | .ok v st' => st.Supplied limit (site :: args) st' ∧
      (st.Known (site :: args) v ∨ st'.InRange limit v)
  | .error _ st' => st.Supplied limit (site :: args) st'

end Library

/-! ## Steps -/

namespace State

variable {p : Program} {cfg : Settings} {s t : State} {limit : Nat} {v : Value}

/-- If the next step calls a function of the host, that supplies no closure but such of the first
    `limit` functions. -/
def HostSupplies (limit : Nat) (cfg : Settings) (s : State) (next : Option Instruction) : Prop :=
  ∀ i ∈ next, ∀ native number site args rest, s.CallsNative i native site args rest →
    native.body = .host (.supplied number) →
      Library.Supplies limit (site.getD .null) args s.store
        (cfg.host number (site.getD .null) args s.store)

/-- Every closure that is an operand of a call in progress, or that the store holds, is in
    range. -/
structure Sound (limit : Nat) (s : State) : Prop where
  operands : ∀ v ∈ s.operands.topDown, s.store.InRange limit v
  suspended : ∀ operands ∈ s.suspended.topDown, ∀ v ∈ operands.topDown, s.store.InRange limit v
  stored : ∀ v, s.store.Holds v → s.store.InRange limit v

namespace Sound

theorem reset (hs : s.Sound limit) : s.reset.Sound limit where
  operands := by simp [State.reset, initial]
  suspended := by simp [State.reset, initial]
  stored := hs.stored

theorem inRange_of_has {c : ClosureRef} (hs : s.Sound limit) (h : s.Has c) :
    s.store.InRange limit (.closure c) := by
  cases h with
  | operand h => exact hs.operands _ h
  | suspended hmem h => exact hs.suspended _ hmem _ h
  | stored h => exact hs.stored _ h

theorem of_has (h : ∀ c, s.Has c → s.store.InRange limit (.closure c)) : s.Sound limit := by
  refine ⟨fun v hv c hc => ?_, fun operands hmem v hv c hc => ?_, fun v hv c hc => ?_⟩
  all_goals subst hc
  · exact h c (.operand hv) c rfl
  · exact h c (.suspended hmem hv) c rfl
  · exact h c (.stored hv) c rfl

end Sound

/-- A function of the host keeps the closures that there are, and those that it brings in are in
    range. -/
theorem HostSupplies.of_acts {next : Option Instruction} {store : Store} {given : Option Value}
    (hhost : s.HostSupplies limit cfg next) (h : s.HostActs cfg next store given) :
    s.store.KeepsClosures store ∧ ∀ c, given = some (.closure c) ∨ store.Holds (.closure c) →
      s.Has c ∨ store.InRange limit (.closure c) := by
  cases h with
  | returns hnext hcalls hbody hcall =>
    have hsupplies := hhost _ hnext _ _ _ _ _ hcalls hbody
    rw [hcall] at hsupplies
    obtain ⟨hsupplied, hgiven⟩ := hsupplies
    obtain ⟨n, -, htop⟩ := hcalls.callee
    refine ⟨hsupplied.keeps, fun c hc => ?_⟩
    rcases hc with hc | hc
    · cases hc
      exact hgiven.imp_left (has_of_known_argument htop)
    · exact (hsupplied.holds _ hc).imp_left (has_of_known_argument htop)
  | fails hnext hcalls hbody hcall =>
    have hsupplied := hhost _ hnext _ _ _ _ _ hcalls hbody
    rw [hcall] at hsupplied
    obtain ⟨n, -, htop⟩ := hcalls.callee
    refine ⟨hsupplied.keeps, fun c hc => ?_⟩
    rcases hc with hc | hc
    · cases hc
    · exact (hsupplied.holds _ hc).imp_left (has_of_known_argument htop)

theorem keepsClosures_of_effect {next : Option Instruction}
    (hhost : s.HostSupplies limit cfg next) (h : s.Effect p cfg next t) :
    s.store.KeepsClosures t.store := by
  cases h with
  | computes | declares | assigns | opens_scope | closes_scope | leaves | halts => exact .of_eq rfl
  | makes_closure => exact Store.keepsClosures_newClosure _ _ _
  | @writes _ _ _ _ target => exact .of_eq (target.closures_store _ _)
  | calls_native hcalls hcall =>
    rcases (acts_or_rearranges hcalls).1 _ _ hcall with hacts | ⟨hrearranges, -⟩
    · exact (hhost.of_acts hacts).1
    · exact .of_eq hrearranges.closures_eq
  | enters => exact .of_eq (Store.closures_defineAll _ _ _)

theorem keepsClosures_of_refusal {next : Option Instruction} {f : Fault}
    (hhost : s.HostSupplies limit cfg next) (h : s.Refusal p cfg next f t) :
    s.store.KeepsClosures t.store := by
  cases h with
  | stops | unpaired => exact .of_eq rfl
  | native_fails hcalls hcall =>
    rcases (acts_or_rearranges hcalls).2 _ _ hcall with hacts | hrearranges
    · exact (hhost.of_acts hacts).1
    · exact .of_eq hrearranges.closures_eq

theorem keepsClosures_of_step (hhost : s.HostSupplies limit cfg (s.next? p)) :
    s.store.KeepsClosures (s.step p cfg).state.store := by
  cases hstep : s.step p cfg with
  | running t => exact keepsClosures_of_effect hhost (effect_of_step (Or.inl hstep))
  | halted t => exact keepsClosures_of_effect hhost (effect_of_step (Or.inr hstep))
  | failed f t => exact keepsClosures_of_refusal hhost (refusal_of_step hstep)

namespace Sound

/-- A step keeps all closures in range: one that it makes has a function whose index the
    instruction has checked. -/
theorem step (hs : s.Sound p.functions.size)
    (hhost : s.HostSupplies p.functions.size cfg (s.next? p)) :
    (s.step p cfg).state.Sound p.functions.size := by
  have hkeeps := keepsClosures_of_step hhost
  refine of_has fun c hc => ?_
  cases origin_of_step hc with
  | had h => exact (hs.inRange_of_has h).mono hkeeps
  | made hc hfunction hstore =>
    rw [hstore, hc]
    exact Store.inRange_newClosure s.store s.scope hfunction
  | supplied hacts h =>
    rcases (hhost.of_acts hacts).2 c h with hhad | hrange
    · exact (hs.inRange_of_has hhad).mono hkeeps
    · exact hrange

theorem steps (hs : s.Sound p.functions.size) (fuel : Nat)
    (hhost : ∀ n < fuel, ∀ u, s.steps p cfg n = .unfinished u →
      u.HostSupplies p.functions.size cfg (u.next? p)) :
    (s.steps p cfg fuel).state.Sound p.functions.size :=
  state_steps_of_step fuel hs fun n hn u hu hsound => hsound.step (hhost n hn u hu)

/-- A function that a closure in range has is there. -/
theorem function_of_callee {i : Instruction} {closure : Closure}
    (hs : s.Sound p.functions.size) (h : s.Callee i closure) :
    p.functions[closure.function]? ≠ none := by
  obtain ⟨callee, c, hcallee, hc, hclosure⟩ := h.found
  have hhas := has_of_known (known_of_calledClosure? (List.mem_of_getElem? hcallee) hc)
  obtain ⟨closure', hclosure', hlt⟩ := hs.inRange_of_has hhas c rfl
  obtain rfl : closure = closure' := Option.some.inj (hclosure.symm.trans hclosure')
  rw [Array.getElem?_eq_getElem hlt]
  nofun

end Sound

end State

/-! ## Programs -/

/-- The size of the table that the operand of the instruction is an index of, if it is one. -/
def Instruction.tableSize? (p : Program) (i : Instruction) : Option Nat :=
  match i.op with
  | .loadConst => some p.pool.size
  | .load | .declare | .assign => some p.symbols.size
  | .function => some p.functions.size
  | _ => none

/-- The operand of the instruction is in range where it is an index. -/
def Instruction.Indexed (p : Program) (i : Instruction) : Prop :=
  ∀ size ∈ i.tableSize? p, i.operand.toNat < size

instance (p : Program) (i : Instruction) : Decidable (i.Indexed p) :=
  inferInstanceAs (Decidable (∀ size ∈ i.tableSize? p, i.operand.toNat < size))

/-- All indexes in the program's code, and those of its parameters, are in range. -/
structure Program.Indexed (p : Program) : Prop where
  code : ∀ i ∈ p.code, i.Indexed p
  functions : ∀ f ∈ p.functions, ∀ i ∈ f.code, i.Indexed p
  params : ∀ f ∈ p.functions, ∀ param ∈ f.params, param.toNat < p.symbols.size

theorem Instruction.Indexed.not_misindexes {p : Program} {i : Instruction} {f : Fault}
    (hi : i.Indexed p) : ¬i.Misindexes p f := by
  obtain ⟨op, operand⟩ := i
  intro h
  cases h with
  | literal hop h =>
    cases hop
    rw [← Program.getElem?_pool, Array.getElem?_eq_getElem (hi _ rfl)] at h
    cases h
  | symbol hop h =>
    simp only [List.mem_cons, List.not_mem_nil, or_false] at hop
    rcases hop with rfl | rfl | rfl <;> rw [Array.getElem?_eq_getElem (hi _ rfl)] at h <;> cases h
  | function hop h =>
    cases hop
    exact h (hi _ rfl)

theorem Program.Indexed.next? {p : Program} {s : State} {i : Instruction} (hp : p.Indexed)
    (h : s.next? p = some i) : i.Indexed p := by
  have hmem := Array.mem_of_getElem? h
  unfold Program.chunk at hmem
  split at hmem
  · exact hp.code i hmem
  · split at hmem
    · rename_i f hf
      exact hp.functions f (Array.mem_of_getElem? hf) i hmem
    · exact absurd hmem (Array.not_mem_empty i)

/-- The fault is about an index. -/
def Fault.OfIndex (f : Fault) : Prop :=
  ∃ n, f = .invalidLiteral n ∨ f = .invalidSymbol n ∨ f = .invalidFunction n

namespace State

variable {p : Program} {cfg : Settings} {s t : State} {f : Fault}

/-- A call never finds that a closure has no function. -/
theorem Sound.call_ne_invalidFunction {i : Instruction} {n : Nat} (hs : s.Sound p.functions.size)
    (hnext : s.next? p = some i) (hop : i.op = .call ∨ i.op = .callWith) :
    s.step p cfg ≠ .failed (.invalidFunction n) t := by
  intro h
  have hrefusal := refusal_of_step h
  rw [hnext] at hrefusal
  cases hrefusal with
  | stops hrest hblames =>
    cases hblames with
    | ordinary hf => cases hf
    | operand hoperand =>
      cases hoperand with
      | function hop' => rcases hop with hop | hop <;> rw [hop'] at hop <;> cases hop
    | callee hcallee hnone => exact hs.function_of_callee hcallee hnone

/-- Where the operands of the code are in range, no step fails because of an index. -/
theorem Sound.not_ofIndex (hs : s.Sound p.functions.size) (hp : p.Indexed)
    (h : s.step p cfg = .failed f t) : ¬f.OfIndex := by
  rintro ⟨n, hf⟩
  have hrefusal := refusal_of_step h
  generalize hnext : s.next? p = next at hrefusal
  cases hrefusal with
  | stops hrest hblames =>
    cases hblames with
    | ordinary hordinary => rcases hf with rfl | rfl | rfl <;> cases hordinary
    | operand hoperand => exact (hp.next? hnext).not_misindexes hoperand
    | depth => simp at hf
    | callee hcallee hnone => exact hs.function_of_callee hcallee hnone
    | parameter hcallee hfunction hparam hnone =>
      have hlt := hp.params _ (Array.mem_of_getElem? hfunction) _ hparam
      rw [Array.getElem?_eq_getElem hlt] at hnone
      cases hnone
  | native_fails => simp at hf
  | unpaired => simp at hf

end State

/-! ## The initial store -/

/-- The store holds no closure. -/
def Store.ClosureFree (st : Store) : Prop := ∀ c, ¬st.Holds (.closure c)

namespace Store.ClosureFree

variable {st : Store} {v : Value}

theorem empty (clock : Nat → Binary64) : (Store.empty clock).ClosureFree := by
  rintro c (h | h | h) <;> simp [ownBinding?, items, own?, entries, Store.empty] at h

theorem define (h : st.ClosureFree) (s : ScopeRef) (name : String) (hv : ∀ c, v ≠ .closure c) :
    (st.define s name v).ClosureFree := by
  intro c hc
  rcases holds_of_define hc with hc | hc
  · exact h c hc
  · exact hv c hc.symm

theorem set (h : st.ClosureFree) (o : ObjectRef) (key : String) (hv : ∀ c, v ≠ .closure c) :
    (st.set o key v).ClosureFree := by
  intro c hc
  rcases holds_of_set hc with hc | hc
  · exact h c hc
  · exact hv c hc.symm

theorem newObject (h : st.ClosureFree) {entries : Table Value}
    (hentries : ∀ key c, entries.get? key ≠ some (.closure c)) :
    (st.newObject entries).2.ClosureFree := by
  intro c hc
  rcases holds_of_newObject hc with hc | ⟨key, hc⟩
  · exact h c hc
  · exact hentries key c hc

theorem newNative (h : st.ClosureFree) (native : Native) :
    (st.newNative native).2.ClosureFree :=
  fun c hc => h c (hc.congr rfl rfl rfl)

theorem newScope (h : st.ClosureFree) (parent : Option ScopeRef) :
    (st.newScope parent).2.ClosureFree :=
  fun c hc => h c (holds_of_newScope hc)

end Store.ClosureFree

namespace Library

theorem closureFree_installPrototype {st : Store} (h : st.ClosureFree) (p : Prototype) :
    (installPrototype st p).ClosureFree := by
  refine List.foldlRecOn _ _ (h.newObject fun key c hkey => ?_) fun st hst b _ => ?_
  · split at hkey
    · rw [Table.get?_empty] at hkey
      cases hkey
    · rw [Store.linkedTo, Table.get?_insert, Table.get?_empty] at hkey
      split at hkey <;> cases hkey
  · exact (hst.newNative _).set _ _ (by simp)

theorem closureFree_initialStore (clock : Nat → Binary64) : (initialStore clock).ClosureFree := by
  have hprototypes := List.foldlRecOn Prototype.all installPrototype
    ((Store.ClosureFree.empty clock).newScope none) fun st hst p _ =>
      closureFree_installPrototype hst p
  have hglobals := List.foldlRecOn globals installGlobal hprototypes fun st hst b _ =>
    (hst.newNative b.native).define Scope.global b.name nofun
  exact List.foldlRecOn _ _ hglobals fun st hst p _ => hst.define _ _ nofun

end Library

/-! ## Sessions -/

/-- While the machine answers the request, the host supplies no closure but such of the first
    `limit` functions. -/
def Request.Supplies (limit : Nat) (m : Session) : Request → Prop
  | .define _ make => m.state.store.Supplied limit [] (make m.state.store).2 ∧
      (m.state.store.Known [] (make m.state.store).1 ∨
        (make m.state.store).2.InRange limit (make m.state.store).1)
  | .run fuel => ∀ n < fuel, ∀ s, m.state.run m.program m.settings n = .unfinished s →
      s.HostSupplies limit m.settings (s.next? m.program)
  | _ => True

namespace Session

variable {m : Session} {request : Request}

/-- Neither does it while the machine answers one request after the other. -/
def Supplied (limit : Nat) : List Request → Session → Prop
  | [], _ => True
  | request :: requests, m => request.Supplies limit m ∧
      Supplied limit requests (m.perform request).2

theorem program_perform (m : Session) (request : Request) :
    (m.perform request).2.program = m.program := by
  cases request <;> rfl

/-- Whatever the host asks for, all closures stay in range. -/
theorem sound_perform (hm : m.state.Sound m.program.functions.size)
    (hrequest : request.Supplies m.program.functions.size m) :
    (m.perform request).2.state.Sound m.program.functions.size := by
  cases request with
  | define name make =>
    obtain ⟨hsupplied, hdefined⟩ := hrequest
    refine .of_has fun c hc => ?_
    cases hc with
    | operand h => exact (hm.operands _ h).mono hsupplied.keeps
    | suspended hmem h => exact (hm.suspended _ hmem _ h).mono hsupplied.keeps
    | stored h =>
      refine hsupplied.inRange (fun w hw => absurd hw List.not_mem_nil) hm.stored ?_
      rcases Store.holds_of_define h with h | h
      · exact hsupplied.holds _ h
      · rw [h]
        exact hdefined
  | setMaxCallDepth depth => exact hm
  | setTracing on => exact hm
  | run fuel => exact hm.reset.steps fuel hrequest

/-- A run does not fail because of an index. -/
theorem not_ofIndex_of_run {fuel : Nat} {failure : Failure} {t : State} (hp : m.program.Indexed)
    (hm : m.state.Sound m.program.functions.size)
    (hrequest : (Request.run fuel).Supplies m.program.functions.size m)
    (h : m.state.run m.program m.settings fuel = .failed failure t) : ¬failure.fault.OfIndex := by
  obtain ⟨n, u, hu, -, hends⟩ := State.steps_eq_failed h
  rcases hends with hstep | ⟨-, reason, -, hfault⟩
  · have hlt : n < fuel := by
      refine Nat.lt_of_not_le fun hle => ?_
      obtain ⟨w, hw⟩ := State.unfinished_of_le hu hle
      rw [State.run, hw] at h
      cases h
    have hsound := hm.reset.steps n fun k hk => hrequest k (Nat.lt_trans hk hlt)
    rw [hu] at hsound
    exact hsound.not_ofIndex hp hstep
  · rw [hfault]
    simp [Fault.OfIndex]

theorem sound_after (requests : List Request) (hm : m.state.Sound m.program.functions.size)
    (hrequests : m.Supplied m.program.functions.size requests) :
    (m.after requests).program = m.program ∧
      (m.after requests).state.Sound m.program.functions.size ∧
        (m.program.Indexed → ∀ view ∈ m.views requests, ∀ failure,
          view.reply = .failed failure → ¬failure.fault.OfIndex) := by
  induction requests generalizing m with
  | nil => exact ⟨rfl, hm, fun _ view hview => absurd hview List.not_mem_nil⟩
  | cons request requests ih =>
    obtain ⟨hrequest, hrest⟩ := hrequests
    have hprogram := program_perform m request
    have hperformed := sound_perform hm hrequest
    rw [← hprogram] at hperformed hrest
    obtain ⟨hafter, hsound, hviews⟩ := ih hperformed hrest
    rw [hprogram] at hafter hsound hviews
    refine ⟨hafter, hsound, fun hp view hview failure hfailure => ?_⟩
    rcases List.mem_cons.mp hview with rfl | hview
    · cases request with
      | run fuel =>
        obtain ⟨t, hrun⟩ := Outcome.eq_failed_of_reply hfailure
        exact not_ofIndex_of_run hp hm hrequest hrun
      | _ => cases hfailure
    · exact hviews hp view hview failure hfailure

/-- A machine that has not run yet, with settings of its own. -/
def startWith (p : Program) (cfg : Settings) (clock : Nat → Binary64) (sink : Sink) : Session :=
  { start p clock sink with settings := cfg }

theorem sound_startWith (p : Program) (cfg : Settings) (clock : Nat → Binary64) (sink : Sink)
    (limit : Nat) : (startWith p cfg clock sink).state.Sound limit := by
  refine ⟨?_, ?_, fun v hv c hc => ?_⟩
  · simp [startWith, start, State.initial]
  · simp [startWith, start, State.initial]
  · rw [hc] at hv
    exact absurd hv (Library.closureFree_initialStore clock c)

/-- Whatever a host that supplies no closure out of range asks of its machine, all closures that
    the machine then holds are in range, so that a call never fails for want of a function.  If the
    operands of the code are in range too, none of its runs fails because of an index. -/
theorem indexes_in_range (p : Program) (cfg : Settings) (clock : Nat → Binary64) (sink : Sink)
    (requests : List Request)
    (hsupplied : (startWith p cfg clock sink).Supplied p.functions.size requests) :
    let m := (startWith p cfg clock sink).after requests
    m.state.Sound p.functions.size ∧
      (∀ i, m.state.next? p = some i → (i.op = .call ∨ i.op = .callWith) →
        ∀ n t, m.state.step p m.settings ≠ .failed (.invalidFunction n) t) ∧
      (p.Indexed → ∀ view ∈ (startWith p cfg clock sink).views requests, ∀ failure,
        view.reply = .failed failure → ¬failure.fault.OfIndex) := by
  intro m
  obtain ⟨-, hsound, hviews⟩ := sound_after (m := startWith p cfg clock sink) requests
    (sound_startWith p cfg clock sink _) hsupplied
  exact ⟨hsound, fun i hnext hop n t => hsound.call_ne_invalidFunction hnext hop, hviews⟩

/-- The host defines a closure of the only function, which a run calls. -/
theorem indexes_in_range_defined :
    let p : Program := ⟨#["f"], #[], #[⟨.load, 0⟩, ⟨.call, 0⟩],
      #[⟨#[], #[⟨.loadConst, 1⟩, ⟨.retValue, 0⟩]⟩]⟩
    let m := startWith p {} (fun _ => ⟨0⟩) {}
    let requests : List Request :=
      [.define "f" fun st => (.closure st.closures.size, (st.newClosure 0 Scope.global).2), .run 2]
    m.Supplied 1 requests ∧ p.Indexed ∧ (m.after requests).callDepth = 1 ∧
      (m.after requests).state.Sound 1 ∧
        ∀ view ∈ m.views requests, ∀ failure, view.reply = .failed failure →
          ¬failure.fault.OfIndex := by
  intro p m requests
  have hdefine : ∀ m : Session, (Request.define "f" fun st =>
      (.closure st.closures.size, (st.newClosure 0 Scope.global).2)).Supplies 1 m := by
    intro m
    have hkeeps := Store.keepsClosures_newClosure m.state.store 0 Scope.global
    refine ⟨⟨hkeeps, fun v hv => Or.inl ?_⟩, Or.inr ?_⟩
    · exact Store.known_of_holds (hv.congr rfl rfl rfl)
    · exact Store.inRange_newClosure m.state.store Scope.global (by decide)
  have hrun : ∀ m : Session, m.settings.host = .none → (Request.run 2).Supplies 1 m := by
    intro m hhost n _ s _ i _ native number site args rest _ _
    rw [hhost]
    exact .refl _ _ _
  have hsupplied : m.Supplied 1 requests := ⟨hdefine m, hrun _ rfl, trivial⟩
  have hindexed : p.Indexed := ⟨by decide +kernel, by decide +kernel, by simp [p]⟩
  obtain ⟨hsound, -, hviews⟩ := indexes_in_range p {} (fun _ => ⟨0⟩) {} requests hsupplied
  exact ⟨hsupplied, hindexed, by decide +kernel, hsound, hviews hindexed⟩

end Session

end StackMachine
