import StackMachine.Proofs.Machine.Confinement
import StackMachine.Proofs.Machine.Indexes

/-!
# Chains of scopes

A scope is made around one that exists already, and is never moved.  So every chain of scopes comes
to an end (`Store.WalksEnd`), although values may refer to each other in circles, and if the host
supplies only closures made under the global scope, then that is where it ends
(`Session.scope_chains`).
-/

namespace StackMachine

/-! ## Stores that grow -/

namespace Store

variable {st st' st'' : Store} {r outer : ScopeRef} {n : Nat}

/-- The store `st'` comes from `st` by what a program and its host can do to scopes and closures:
    scopes are made, outermost or around existing ones, and written to; closures are made over
    existing scopes; and everything else is changed at will. -/
inductive Evolves (st : Store) : Store → Prop
  | refl : Evolves st st
  | newScope {st' : Store} {parent : Option ScopeRef} (h : Evolves st st')
      (hparent : ∀ outer ∈ parent, outer < st'.scopes.size) : Evolves st (st'.newScope parent).2
  | define {st' : Store} (h : Evolves st st') (r : ScopeRef) (name : String) (v : Value) :
      Evolves st (st'.define r name v)
  | newClosure {st' : Store} {scope : ScopeRef} (h : Evolves st st') (function : Nat)
      (hscope : scope < st'.scopes.size) : Evolves st (st'.newClosure function scope).2
  | elsewhere {st' st'' : Store} (h : Evolves st st') (hscopes : st''.scopes = st'.scopes)
      (hclosures : st''.closures = st'.closures) : Evolves st st''

/-- Every scope of `st` is in `st'` inside the same one, or outermost as it was. -/
structure KeepsLinks (st st' : Store) : Prop where
  size : st.scopes.size ≤ st'.scopes.size
  enclosing : ∀ r < st.scopes.size, st'.enclosing? r = st.enclosing? r

/-- Every link leads to an older scope, and closures are over scopes that exist. -/
structure Linked (st : Store) : Prop where
  descending : st.Descending
  captured : ∀ (c : ClosureRef) closure, st.closures[c]? = some closure →
    closure.scope < st.scopes.size

/-- The way outward from the scope ends in the global one. -/
def Rooted (st : Store) (r : ScopeRef) : Prop := ∃ n, st.outward? r n = some Scope.global

/-- The closure is over a scope from which the way outward ends in the global one. -/
def ClosureRooted (st : Store) (c : ClosureRef) : Prop :=
  ∃ closure, st.closures[c]? = some closure ∧ st.Rooted closure.scope

/-- The walks outward of lookups, assignments and depths end from every scope, and they look at
    every scope on their way. -/
structure WalksEnd (st : Store) : Prop where
  /-- No scope comes again on the way outward from it. -/
  acyclic : ∀ r n, st.outward? r (n + 1) ≠ some r
  wellFounded : WellFounded fun outer r => st.enclosing? r = some outer
  lookup : ∀ r name, st.lookup? r name =
    (st.ownBinding? r name).or ((st.enclosing? r).bind fun outer => st.lookup? outer name)
  binder : ∀ r name, st.binder? r name =
    if (st.ownBinding? r name).isSome then some r
    else (st.enclosing? r).bind fun outer => st.binder? outer name
  depth : ∀ r, st.depth r = ((st.enclosing? r).map st.depth).getD 0 + 1

theorem lt_size_of_enclosing? (h : st.enclosing? r = some outer) : r < st.scopes.size := by
  apply Nat.lt_of_not_le
  intro hle
  rw [enclosing?, Array.getElem?_eq_none hle] at h
  cases h

/-! ### Links that stay -/

namespace KeepsLinks

theorem of_eq (h : st'.scopes = st.scopes) : st.KeepsLinks st' := by
  refine ⟨Nat.le_of_eq (congrArg Array.size h.symm), fun r _ => ?_⟩
  rw [enclosing?, enclosing?, h]

theorem trans (h : st.KeepsLinks st') (h' : st'.KeepsLinks st'') : st.KeepsLinks st'' := by
  refine ⟨Nat.le_trans h.size h'.size, fun r hr => ?_⟩
  rw [h'.enclosing r (Nat.lt_of_lt_of_le hr h.size), h.enclosing r hr]

theorem newScope (st : Store) (parent : Option ScopeRef) :
    st.KeepsLinks (st.newScope parent).2 := by
  refine ⟨(extends_newScope st parent).size, fun r hr => ?_⟩
  rw [enclosing?_newScope, if_neg (Nat.ne_of_lt hr)]

theorem define (st : Store) (r : ScopeRef) (name : String) (v : Value) :
    st.KeepsLinks (st.define r name v) :=
  ⟨(extends_define st r name v).size, fun s _ => enclosing?_define st r s name v⟩

end KeepsLinks

theorem KeepsLinks.extends (h : st.KeepsLinks st') : st.Extends st' := by
  refine ⟨h.size, fun r outer houter => ?_⟩
  rw [h.enclosing r (lt_size_of_enclosing? houter), houter]

namespace Evolves

theorem trans (h : st.Evolves st') (h' : st'.Evolves st'') : st.Evolves st'' := by
  induction h' with
  | refl => exact h
  | newScope _ hparent ih => exact ih.newScope hparent
  | define _ r name v ih => exact ih.define r name v
  | newClosure _ function hscope ih => exact ih.newClosure function hscope
  | elsewhere _ hscopes hclosures ih => exact ih.elsewhere hscopes hclosures

theorem defineAll (h : st.Evolves st') (r : ScopeRef) (bound : List (String × Value)) :
    st.Evolves (st'.defineAll r bound) := by
  induction bound generalizing st' with
  | nil => exact h
  | cons b bound ih => exact ih (h.define r b.1 b.2)

theorem keepsLinks (h : st.Evolves st') : st.KeepsLinks st' := by
  induction h with
  | refl => exact .of_eq rfl
  | newScope _ _ ih => exact ih.trans (.newScope _ _)
  | define _ r name v ih => exact ih.trans (.define _ r name v)
  | newClosure _ _ _ ih => exact ih.trans (.of_eq rfl)
  | elsewhere _ hscopes _ ih => exact ih.trans (.of_eq hscopes)

theorem keepsClosures (h : st.Evolves st') : st.KeepsClosures st' := by
  induction h with
  | refl => exact .of_eq rfl
  | newScope _ _ ih => exact ih.trans (.of_eq rfl)
  | define _ _ _ _ ih => exact ih.trans (.of_eq rfl)
  | newClosure _ function _ ih => exact ih.trans (keepsClosures_newClosure _ function _)
  | elsewhere _ _ hclosures ih => exact ih.trans (.of_eq hclosures)

theorem linked (h : st.Evolves st') (hst : st.Linked) : st'.Linked := by
  induction h with
  | refl => exact hst
  | @newScope st' parent _ hparent ih =>
    refine ⟨ih.descending.newScope hparent, fun c closure hc => ?_⟩
    exact Nat.lt_of_lt_of_le (ih.captured c closure hc) (extends_newScope st' parent).size
  | @define st' _ r name v ih =>
    refine ⟨ih.descending.define r name v, fun c closure hc => ?_⟩
    exact Nat.lt_of_lt_of_le (ih.captured c closure hc) (extends_define st' r name v).size
  | @newClosure st' scope _ function hscope ih =>
    refine ⟨ih.descending, fun c closure hc => ?_⟩
    rw [Store.newClosure, Array.getElem?_push] at hc
    split at hc
    · cases hc
      exact hscope
    · exact ih.captured c closure hc
  | elsewhere _ hscopes hclosures ih =>
    refine ⟨fun r outer houter => ?_, fun c closure hc => ?_⟩
    · rw [enclosing?, hscopes] at houter
      exact ih.descending r outer houter
    · rw [hclosures] at hc
      rw [hscopes]
      exact ih.captured c closure hc

end Evolves

theorem Rearranges.evolves {given : List Value} (h : st.Rearranges given st') : st.Evolves st' :=
  .elsewhere .refl h.scopes_eq h.closures_eq

/-! ### Walks outward -/

/-- Each link leads further down. -/
theorem le_of_outward? (hst : st.Descending) {r u : Nat} (h : st.outward? r n = some u) :
    u + n ≤ r := by
  induction n generalizing u with
  | zero =>
    cases h
    exact Nat.le_refl _
  | succ n ih =>
    obtain ⟨w, hw, hu⟩ := Option.bind_eq_some_iff.mp h
    have hlt : u < w := hst w u hu
    have hle := ih hw
    omega

theorem Descending.walksEnd (hst : st.Descending) : st.WalksEnd where
  acyclic r n h := by
    have hle := le_of_outward? hst h
    omega
  wellFounded := Subrelation.wf (fun {outer r} h => hst r outer h) Nat.lt_wfRel.wf
  lookup r name := by
    rw [lookup?]
    cases st.ownBinding? r name with
    | some v => rfl
    | none =>
      cases houter : st.enclosing? r with
      | none => rfl
      | some outer => exact if_pos (hst r outer houter)
  binder r name := by
    rw [binder?]
    cases houter : st.enclosing? r with
    | none => rfl
    | some outer =>
      dsimp only
      rw [if_pos (hst r outer houter)]
      rfl
  depth r := by
    rw [depth]
    cases houter : st.enclosing? r with
    | none => rfl
    | some outer => exact if_pos (hst r outer houter)

namespace Rooted

theorem global (st : Store) : st.Rooted Scope.global := ⟨0, rfl⟩

theorem mono (h : st.Rooted r) (hst : st.KeepsLinks st') : st'.Rooted r := by
  obtain ⟨n, hn⟩ := h
  exact ⟨n, hst.extends.outward? hn⟩

/-- A scope inside one whose chain ends in the global scope. -/
theorem of_enclosing? (h : st.Rooted outer) (houter : st.enclosing? r = some outer) :
    st.Rooted r := by
  obtain ⟨n, hn⟩ := h
  refine ⟨n + 1, ?_⟩
  rw [outward?_succ_of_enclosing? houter, hn]

theorem enclosing? (h : st.Rooted r) (hglobal : st.enclosing? Scope.global = none)
    (houter : st.enclosing? r = some outer) : st.Rooted outer := by
  obtain ⟨n, hn⟩ := h
  cases n with
  | zero =>
    cases hn
    rw [hglobal] at houter
    cases houter
  | succ n =>
    rw [outward?_succ_of_enclosing? houter] at hn
    exact ⟨n, hn⟩

/-- The global scope is the only outermost one among those under it. -/
theorem enclosing?_eq_none_iff (h : st.Rooted r) (hglobal : st.enclosing? Scope.global = none) :
    st.enclosing? r = none ↔ r = Scope.global := by
  constructor
  · intro hnone
    obtain ⟨n, hn⟩ := h
    cases n with
    | zero => exact Option.some.inj hn
    | succ n =>
      rw [outward?_succ_of_enclosing?_eq_none hnone] at hn
      cases hn
  · rintro rfl
    exact hglobal

end Rooted

theorem ClosureRooted.mono {c : ClosureRef} (h : st.ClosureRooted c) (hst : st.Evolves st') :
    st'.ClosureRooted c := by
  obtain ⟨closure, hclosure, hrooted⟩ := h
  exact ⟨closure, hst.keepsClosures c closure hclosure, hrooted.mono hst.keepsLinks⟩

end Store

/-! ## Steps -/

namespace State

variable {p : Program} {cfg : Settings} {s t : State} {next : Option Instruction} {r : ScopeRef}

/-- The scope is the current one, or that of a caller. -/
inductive Placed (s : State) : ScopeRef → Prop
  | current : Placed s s.scope
  | frame {f : Frame} (h : f ∈ s.frames.topDown) : Placed s f.scope

/-- The scope can be come to from the calls in progress and the closures that the machine has. -/
inductive Reaches (s : State) : ScopeRef → Prop
  | placed {r : ScopeRef} (h : s.Placed r) : Reaches s r
  | captured {c : ClosureRef} {closure : Closure} (hc : s.Has c)
      (hclosure : s.store.closures[c]? = some closure) : Reaches s closure.scope
  | outer {r outer : ScopeRef} (h : Reaches s r) (houter : s.store.enclosing? r = some outer) :
      Reaches s outer

/-- The scopes that the machine works with are there, and each frame has its operands. -/
structure Scoped (s : State) : Prop where
  linked : s.store.Linked
  global : Scope.global < s.store.scopes.size
  placed : ∀ r, s.Placed r → r < s.store.scopes.size
  sizes : s.frames.size = s.suspended.size

theorem Placed.congr (h : t.Placed r) (hscope : t.scope = s.scope) (hframes : t.frames = s.frames) :
    s.Placed r := by
  cases h with
  | current =>
    rw [hscope]
    exact .current
  | frame hf =>
    rw [hframes] at hf
    exact .frame hf

/-- In whatever the next step has the host do, it does to scopes and closures what it can. -/
def HostEvolves (cfg : Settings) (s : State) (next : Option Instruction) : Prop :=
  ∀ store v, s.HostActs cfg next store v → s.store.Evolves store

/-! ### What a step does to the store -/

theorem Effect.evolves (hs : s.Scoped) (hhost : s.HostEvolves cfg next)
    (h : s.Effect p cfg next t) : s.store.Evolves t.store := by
  have hcurrent := hs.placed _ .current
  cases h with
  | computes | closes_scope | leaves | halts => exact .refl
  | declares | assigns => exact .define .refl _ _ _
  | makes_closure => exact .newClosure .refl _ hcurrent
  | opens_scope => exact .newScope .refl (by simpa using hcurrent)
  | @writes _ _ _ _ target => cases target <;> exact .elsewhere .refl rfl rfl
  | calls_native hcalls hcall =>
    rcases (acts_or_rearranges hcalls).1 _ _ hcall with hacts | ⟨hrearranges, -⟩
    · exact hhost _ _ hacts
    · exact hrearranges.evolves
  | @enters _ _ _ c _ _ closure _ _ _ _ _ _ _ _ hclosure =>
    have hscope := hs.linked.captured c closure hclosure
    exact (Store.Evolves.newScope .refl (by simpa using hscope)).defineAll _ _

theorem Refusal.evolves {f : Fault} (hhost : s.HostEvolves cfg next)
    (h : s.Refusal p cfg next f t) : s.store.Evolves t.store := by
  cases h with
  | stops | unpaired => exact .refl
  | native_fails hcalls hcall =>
    rcases (acts_or_rearranges hcalls).2 _ _ hcall with hacts | hrearranges
    · exact hhost _ _ hacts
    · exact hrearranges.evolves

/-! ### Where calls come to be -/

/-- After a step, calls are in scopes that the machine could come to, or in a fresh one inside of
    such a scope. -/
theorem Effect.placed (h : s.Effect p cfg next t) (hr : t.Placed r) :
    s.Reaches r ∨ ∃ outer, t.store.enclosing? r = some outer ∧ s.Reaches outer := by
  cases h with
  | computes | declares | assigns | makes_closure | writes | calls_native | halts =>
    exact Or.inl (.placed (hr.congr rfl rfl))
  | opens_scope =>
    cases hr with
    | current =>
      refine Or.inr ⟨s.scope, ?_, .placed .current⟩
      rw [Store.enclosing?_newScope, if_pos rfl]
    | frame hf => exact Or.inl (.placed (.frame hf))
  | closes_scope hop houter =>
    cases hr with
    | current => exact Or.inl (.outer (.placed .current) houter)
    | frame hf => exact Or.inl (.placed (.frame hf))
  | @enters i args callee c site rest closure _ bound _ _ hop htop hroom hcallee hclosure =>
    cases hr with
    | current =>
      have hhas : s.Has c := has_of_known (known_of_calledClosure? (by simp [htop]) hcallee)
      refine Or.inr ⟨closure.scope, ?_, .captured hhas hclosure⟩
      apply (Store.extends_defineAll _ _ _).enclosing
      rw [Store.enclosing?_newScope, if_pos rfl]
    | frame hf =>
      rcases List.mem_cons.mp hf with rfl | hf
      · exact Or.inl (.placed .current)
      · exact Or.inl (.placed (.frame hf))
  | @leaves next v frame frames operands suspended _ _ hop hv hframes hsuspended =>
    have hmem : ∀ f, f ∈ frame :: frames.topDown → f ∈ s.frames.topDown := by
      intro f hf
      rw [hframes]
      exact hf
    cases hr with
    | current => exact Or.inl (.placed (.frame (hmem frame List.mem_cons_self)))
    | frame hf => exact Or.inl (.placed (.frame (hmem _ (List.mem_cons_of_mem _ hf))))

theorem Effect.sizes (hs : s.frames.size = s.suspended.size) (h : s.Effect p cfg next t) :
    t.frames.size = t.suspended.size := by
  cases h with
  | enters => simpa using hs
  | leaves hop hv hframes hsuspended =>
    rw [hframes, hsuspended] at hs
    simpa using hs
  | _ => exact hs

/-- If frames have their operands, they are left as they are by a step that fails. -/
theorem Refusal.frames_eq {f : Fault} (hs : s.frames.size = s.suspended.size)
    (h : s.Refusal p cfg next f t) :
    t.scope = s.scope ∧ t.frames = s.frames ∧ t.suspended = s.suspended := by
  cases h with
  | stops | native_fails => exact ⟨rfl, rfl, rfl⟩
  | unpaired hrest hsizes => exact absurd hs hsizes

/-- What a step leads to: the store evolves, and calls are where they could be. -/
structure Moves (s t : State) : Prop where
  evolves : s.store.Evolves t.store
  placed : ∀ r, t.Placed r →
    s.Reaches r ∨ ∃ outer, t.store.enclosing? r = some outer ∧ s.Reaches outer
  sizes : t.frames.size = t.suspended.size

theorem moves_of_step (hs : s.Scoped) (hhost : s.HostEvolves cfg (s.next? p)) :
    s.Moves (s.step p cfg).state := by
  cases hstep : s.step p cfg with
  | running t =>
    have heffect := effect_of_step (Or.inl hstep)
    exact ⟨heffect.evolves hs hhost, fun r => heffect.placed, heffect.sizes hs.sizes⟩
  | halted t =>
    have heffect := effect_of_step (Or.inr hstep)
    exact ⟨heffect.evolves hs hhost, fun r => heffect.placed, heffect.sizes hs.sizes⟩
  | failed f t =>
    have hrefusal := refusal_of_step hstep
    obtain ⟨hscope, hframes, hsuspended⟩ := hrefusal.frames_eq hs.sizes
    refine ⟨hrefusal.evolves hhost, fun r hr => Or.inl (.placed (hr.congr hscope hframes)), ?_⟩
    rw [Progress.state, hframes, hsuspended]
    exact hs.sizes

/-! ### Scopes that exist -/

namespace Scoped

theorem lt_size_of_reaches (hs : s.Scoped) (h : s.Reaches r) : r < s.store.scopes.size := by
  induction h with
  | placed h => exact hs.placed _ h
  | captured _ hclosure => exact hs.linked.captured _ _ hclosure
  | outer _ houter ih => exact Nat.lt_trans (hs.linked.descending _ _ houter) ih

theorem reset (hs : s.Scoped) : s.reset.Scoped where
  linked := hs.linked
  global := hs.global
  placed r hr := by
    cases hr with
    | current => exact hs.global
    | frame h => cases h
  sizes := rfl

theorem of_moves (hs : s.Scoped) (h : s.Moves t) : t.Scoped where
  linked := h.evolves.linked hs.linked
  global := Nat.lt_of_lt_of_le hs.global h.evolves.keepsLinks.size
  placed r hr := by
    rcases h.placed r hr with hreached | ⟨outer, houter, -⟩
    · exact Nat.lt_of_lt_of_le (hs.lt_size_of_reaches hreached) h.evolves.keepsLinks.size
    · exact Store.lt_size_of_enclosing? houter
  sizes := h.sizes

theorem steps (hs : s.Scoped) (fuel : Nat)
    (hhost : ∀ n < fuel, ∀ u, s.steps p cfg n = .unfinished u → u.HostEvolves cfg (u.next? p)) :
    (s.steps p cfg fuel).state.Scoped :=
  state_steps_of_step fuel hs fun n hn u hu hscoped =>
    hscoped.of_moves (moves_of_step hscoped (hhost n hn u hu))

/-- The store evolves along a run, from wherever the run was. -/
theorem evolves_steps (hs : s.Scoped) {k fuel : Nat} (hle : k ≤ fuel)
    (hhost : ∀ n < fuel, ∀ u, s.steps p cfg n = .unfinished u → u.HostEvolves cfg (u.next? p)) :
    (s.steps p cfg k).state.store.Evolves (s.steps p cfg fuel).state.store := by
  -- The induction takes off the last step, so that the start of what is left stays the same.
  induction hle with
  | refl => exact .refl
  | @step fuel hle ih =>
    have hearlier := ih fun n hn => hhost n (Nat.lt_succ_of_lt hn)
    have hscoped := hs.steps fuel fun n hn => hhost n (Nat.lt_succ_of_lt hn)
    rw [steps_succ]
    cases hu : s.steps p cfg fuel with
    | unfinished u =>
      rw [hu] at hearlier hscoped
      have hmoves := moves_of_step hscoped (hhost fuel (Nat.lt_succ_self fuel) u hu)
      dsimp only
      rw [state_steps_one]
      exact hearlier.trans hmoves.evolves
    | finished u =>
      rw [hu] at hearlier
      exact hearlier
    | failed failure u =>
      rw [hu] at hearlier
      exact hearlier

end Scoped

/-! ### Scopes under the global one -/

/-- All scopes that the machine works with are under the global one, which is outermost. -/
structure Rooted (s : State) : Prop where
  global : s.store.enclosing? Scope.global = none
  placed : ∀ r, s.Placed r → s.store.Rooted r
  closures : ∀ c, s.Has c → s.store.ClosureRooted c

/-- Of the closures that come into the store, or are given besides it, those that the machine did
    not have are over scopes under the global one. -/
def SuppliesRooted (s : State) (store : Store) (v : Option Value) : Prop :=
  ∀ c, v = some (.closure c) ∨ store.Holds (.closure c) → ¬s.Has c → store.ClosureRooted c

theorem SuppliesRooted.refl (s : State) : s.SuppliesRooted s.store none := by
  intro c hc hnot
  rcases hc with hc | hc
  · cases hc
  · exact absurd (.stored hc) hnot

namespace Rooted

theorem reaches (hs : s.Rooted) (h : s.Reaches r) : s.store.Rooted r := by
  induction h with
  | placed h => exact hs.placed _ h
  | captured hc hclosure =>
    obtain ⟨closure', hclosure', hrooted⟩ := hs.closures _ hc
    rw [hclosure] at hclosure'
    cases hclosure'
    exact hrooted
  | outer _ houter ih => exact ih.enclosing? hs.global houter

theorem reset (hs : s.Rooted) : s.reset.Rooted where
  global := hs.global
  placed r hr := by
    cases hr with
    | current => exact .global s.store
    | frame h => cases h
  closures c hc := by
    cases hc with
    | operand h => cases h
    | suspended hmem h => cases hmem
    | stored h => exact hs.closures c (.stored h)

theorem supplied (hs : s.Rooted) {store : Store} {v : Option Value} {c : ClosureRef}
    (hevolves : s.store.Evolves store) (hsupplies : s.SuppliesRooted store v)
    (h : v = some (.closure c) ∨ store.Holds (.closure c)) : store.ClosureRooted c := by
  by_cases hhad : s.Has c
  · exact (hs.closures c hhad).mono hevolves
  · exact hsupplies c h hhad

theorem step (hs : s.Rooted) (hscoped : s.Scoped) (hhost : s.HostEvolves cfg (s.next? p))
    (hsupplies : ∀ store v, s.HostActs cfg (s.next? p) store v → s.SuppliesRooted store v) :
    (s.step p cfg).state.Rooted := by
  have hmoves := moves_of_step hscoped hhost
  have hlinks := hmoves.evolves.keepsLinks
  refine ⟨?_, fun r hr => ?_, fun c hc => ?_⟩
  · rw [hlinks.enclosing _ hscoped.global, hs.global]
  · -- Only a fresh scope was not reached before, and the one around it was.
    rcases hmoves.placed r hr with hreached | ⟨outer, houter, hreached⟩
    · exact (hs.reaches hreached).mono hlinks
    · exact ((hs.reaches hreached).mono hlinks).of_enclosing? houter
  · cases origin_of_step hc with
    | had h => exact (hs.closures c h).mono hmoves.evolves
    | @made function hc _ hstore =>
      refine ⟨⟨function, s.scope⟩, ?_, (hs.placed _ .current).mono hlinks⟩
      rw [hstore, hc]
      exact Array.getElem?_push_size
    | supplied hacts h => exact hs.supplied hmoves.evolves (hsupplies _ _ hacts) h

theorem steps (hs : s.Rooted) (hscoped : s.Scoped) (fuel : Nat)
    (hhost : ∀ n < fuel, ∀ u, s.steps p cfg n = .unfinished u → u.HostEvolves cfg (u.next? p))
    (hsupplies : ∀ n < fuel, ∀ u, s.steps p cfg n = .unfinished u →
      ∀ store v, u.HostActs cfg (u.next? p) store v → u.SuppliesRooted store v) :
    (s.steps p cfg fuel).state.Rooted := by
  have hboth : (s.steps p cfg fuel).state.Scoped ∧ (s.steps p cfg fuel).state.Rooted := by
    refine state_steps_of_step (P := fun u => u.Scoped ∧ u.Rooted) fuel ⟨hscoped, hs⟩ ?_
    rintro n hn u hu ⟨hscoped, hrooted⟩
    exact ⟨hscoped.of_moves (moves_of_step hscoped (hhost n hn u hu)),
      hrooted.step hscoped (hhost n hn u hu) (hsupplies n hn u hu)⟩
  exact hboth.2

/-- Leaving a scope fails in the global scope, and only there. -/
theorem leaveScope_fails_iff (hs : s.Rooted) {i : Instruction} (hnext : s.next? p = some i)
    (hop : i.op = .leaveScope) :
    (∃ t, s.step p cfg = .failed .scopeUnderflow t) ↔ s.scope = Scope.global := by
  rw [← (hs.placed _ .current).enclosing?_eq_none_iff hs.global]
  obtain ⟨log, hlog⟩ := logged_eq cfg i s
  obtain ⟨op, operand⟩ := i
  cases hop
  rw [State.step, hnext]
  simp only [hlog, Exec.instruction, bind, EStateM.bind, Exec.read]
  cases houter : s.store.enclosing? s.scope with
  | none => exact iff_of_true ⟨_, rfl⟩ rfl
  | some outer =>
    refine iff_of_false ?_ (Option.some_ne_none outer)
    rintro ⟨t, h⟩
    cases h

end Rooted

end State

/-! ## Sessions -/

namespace Library

theorem evolves_installPrototype {st st' : Store} (h : st.Evolves st') (p : Prototype) :
    st.Evolves (installPrototype st' p) := by
  refine List.foldlRecOn _ _ ?_ fun st hst b _ => ?_
  · exact h.elsewhere rfl rfl
  · exact hst.elsewhere rfl rfl

/-- Beyond the global scope, the library makes no scope and no closure. -/
theorem evolves_initialStore (clock : Nat → Binary64) :
    ((Store.empty clock).newScope none).2.Evolves (initialStore clock) := by
  have hprototypes := List.foldlRecOn Prototype.all installPrototype
    (motive := ((Store.empty clock).newScope none).2.Evolves) .refl fun st hst p _ =>
      evolves_installPrototype hst p
  have hglobals := List.foldlRecOn globals installGlobal hprototypes fun st hst b _ => by
    have hnative : Store.Evolves _ (st.newNative b.native).2 := hst.elsewhere rfl rfl
    exact hnative.define Scope.global b.name _
  exact List.foldlRecOn _ _ hglobals fun st hst p _ => hst.define _ _ _

end Library

/-- While the machine answers the request, the host acts on it in state `s`, where it leaves this
    store and gives this value, if it gives one. -/
inductive Request.HostActs (m : Session) : Request → State → Store → Option Value → Prop
  | defines {name : String} {make : Store → Value × Store} :
      HostActs m (.define name make) m.state (make m.state.store).2 (some (make m.state.store).1)
  | calls {fuel n : Nat} {s : State} {store : Store} {v : Option Value} (hn : n < fuel)
      (hs : m.state.run m.program m.settings n = .unfinished s)
      (h : s.HostActs m.settings (s.next? m.program) store v) : HostActs m (.run fuel) s store v

/-- The machine passes through where it is after the requests `earlier` on its way to where it is
    after others: these come first, but the last of them may be a run that is cut short. -/
inductive Request.Passed : List Request → List Request → Prop
  | nil {requests : List Request} : Passed [] requests
  | within {k fuel : Nat} {requests : List Request} (hle : k ≤ fuel) :
      Passed [.run k] (.run fuel :: requests)
  | cons {request : Request} {earlier requests : List Request} (h : Passed earlier requests) :
      Passed (request :: earlier) (request :: requests)

namespace Session

variable {m : Session} {request : Request} {requests : List Request}

/-- The host acts on the machine while that answers one of the requests. -/
inductive HostActs : List Request → Session → State → Store → Option Value → Prop
  | head {request : Request} {requests : List Request} {m : Session} {s : State} {store : Store}
      {v : Option Value} (h : request.HostActs m s store v) :
      HostActs (request :: requests) m s store v
  | tail {request : Request} {requests : List Request} {m : Session} {s : State} {store : Store}
      {v : Option Value} (h : HostActs requests (m.perform request).2 s store v) :
      HostActs (request :: requests) m s store v

theorem scoped_perform (hm : m.state.Scoped)
    (hhost : ∀ s store v, request.HostActs m s store v → s.store.Evolves store) :
    (m.perform request).2.state.Scoped ∧
      m.state.store.Evolves (m.perform request).2.state.store := by
  cases request with
  | define name make =>
    have hevolves := (hhost _ _ _ .defines).define Scope.global name (make m.state.store).1
    have hmoves : m.state.Moves (m.perform (.define name make)).2.state :=
      ⟨hevolves, fun r hr => Or.inl (.placed (hr.congr rfl rfl)), hm.sizes⟩
    exact ⟨hm.of_moves hmoves, hevolves⟩
  | setMaxCallDepth depth => exact ⟨hm, .refl⟩
  | setTracing on => exact ⟨hm, .refl⟩
  | run fuel =>
    have hhost' : ∀ n < fuel, ∀ u, m.state.reset.steps m.program m.settings n = .unfinished u →
        u.HostEvolves m.settings (u.next? m.program) :=
      fun n hn u hu store v hacts => hhost u store v (.calls hn hu hacts)
    exact ⟨hm.reset.steps fuel hhost', hm.reset.evolves_steps (Nat.zero_le fuel) hhost'⟩

theorem rooted_perform (hm : m.state.Rooted) (hscoped : m.state.Scoped)
    (hhost : ∀ s store v, request.HostActs m s store v → s.store.Evolves store)
    (hsupplies : ∀ s store v, request.HostActs m s store v → s.SuppliesRooted store v) :
    (m.perform request).2.state.Rooted := by
  cases request with
  | define name make =>
    have hmade := hhost _ _ _ .defines
    have hevolves := hmade.define Scope.global name (make m.state.store).1
    have hlinks := hevolves.keepsLinks
    refine ⟨?_, fun r hr => ?_, fun c hc => ?_⟩
    · exact (hlinks.enclosing _ hscoped.global).trans hm.global
    · have hplaced : m.state.Placed r := hr.congr rfl rfl
      exact (hm.placed r hplaced).mono hlinks
    · cases hc with
      | operand h => exact (hm.closures c (.operand h)).mono hevolves
      | suspended hmem h => exact (hm.closures c (.suspended hmem h)).mono hevolves
      | stored h =>
        have hgiven : some (make m.state.store).1 = some (.closure c) ∨
            (make m.state.store).2.Holds (.closure c) := by
          rcases Store.holds_of_define h with h | h
          · exact Or.inr h
          · exact Or.inl (by rw [h])
        have hrooted := hm.supplied hmade (hsupplies _ _ _ .defines) hgiven
        exact hrooted.mono (.define .refl _ _ _)
  | setMaxCallDepth depth => exact hm
  | setTracing on => exact hm
  | run fuel =>
    exact hm.reset.steps hscoped.reset fuel
      (fun n hn u hu store v hacts => hhost u store v (.calls hn hu hacts))
      (fun n hn u hu store v hacts => hsupplies u store v (.calls hn hu hacts))

theorem scoped_after (hm : m.state.Scoped)
    (hhost : ∀ s store v, HostActs requests m s store v → s.store.Evolves store) :
    (m.after requests).state.Scoped ∧ m.state.store.Evolves (m.after requests).state.store := by
  induction requests generalizing m with
  | nil => exact ⟨hm, .refl⟩
  | cons request requests ih =>
    obtain ⟨hperformed, hfirst⟩ := scoped_perform hm fun s store v h => hhost s store v (.head h)
    obtain ⟨hafter, hrest⟩ := ih hperformed fun s store v h => hhost s store v (.tail h)
    exact ⟨hafter, hfirst.trans hrest⟩

/-- The store evolves from wherever the machine was. -/
theorem evolves_of_passed {earlier : List Request} (h : Request.Passed earlier requests)
    (hm : m.state.Scoped)
    (hhost : ∀ s store v, HostActs requests m s store v → s.store.Evolves store) :
    (m.after earlier).state.store.Evolves (m.after requests).state.store := by
  induction h generalizing m with
  | nil => exact (scoped_after hm hhost).2
  | @within k fuel requests hle =>
    have hrun : ∀ n < fuel, ∀ u, m.state.reset.steps m.program m.settings n = .unfinished u →
        u.HostEvolves m.settings (u.next? m.program) :=
      fun n hn u hu store v hacts => hhost u store v (.head (.calls hn hu hacts))
    have hperformed := hm.reset.steps fuel hrun
    have hrest := scoped_after (m := (m.perform (.run fuel)).2) hperformed
      fun s store v h => hhost s store v (.tail h)
    exact (hm.reset.evolves_steps hle hrun).trans hrest.2
  | cons _ ih =>
    obtain ⟨hperformed, -⟩ := scoped_perform hm fun s store v h => hhost s store v (.head h)
    exact ih hperformed fun s store v h => hhost s store v (.tail h)

theorem rooted_after (hm : m.state.Rooted) (hscoped : m.state.Scoped)
    (hhost : ∀ s store v, HostActs requests m s store v → s.store.Evolves store)
    (hsupplies : ∀ s store v, HostActs requests m s store v → s.SuppliesRooted store v) :
    (m.after requests).state.Rooted := by
  induction requests generalizing m with
  | nil => exact hm
  | cons request requests ih =>
    obtain ⟨hperformed, -⟩ := scoped_perform hscoped fun s store v h => hhost s store v (.head h)
    have hrooted := rooted_perform hm hscoped (fun s store v h => hhost s store v (.head h))
      fun s store v h => hsupplies s store v (.head h)
    exact ih hrooted hperformed (fun s store v h => hhost s store v (.tail h))
      fun s store v h => hsupplies s store v (.tail h)

/-! ### Machines that have not run yet -/

theorem scoped_startWith (p : Program) (cfg : Settings) (clock : Nat → Binary64) (sink : Sink) :
    (startWith p cfg clock sink).state.Scoped ∧ (startWith p cfg clock sink).state.Rooted := by
  have hempty : (Store.empty clock).Linked := ⟨nofun, nofun⟩
  have hbare : ((Store.empty clock).newScope none).2.Linked :=
    Store.Evolves.linked (.newScope .refl nofun) hempty
  have hevolves := Library.evolves_initialStore clock
  have hglobal := hevolves.keepsLinks.enclosing Scope.global Nat.zero_lt_one
  have hplaced : ∀ r, (startWith p cfg clock sink).state.Placed r → r = Scope.global := by
    intro r hr
    cases hr with
    | current => rfl
    | frame h => cases h
  refine ⟨⟨hevolves.linked hbare, hevolves.keepsLinks.size, fun r hr => ?_, rfl⟩,
    ⟨hglobal, fun r hr => ?_, fun c hc => ?_⟩⟩
  · rw [hplaced r hr]
    exact hevolves.keepsLinks.size
  · rw [hplaced r hr]
    exact .global _
  · cases hc with
    | operand h => cases h
    | suspended hmem h => cases hmem
    | stored h => exact absurd h (Library.closureFree_initialStore clock c)

/-- If its host does to scopes and closures what it can, then in all states that a machine comes to
    chains of scopes end, and links between scopes are what they were in every state that it passed
    through.  If besides all closures that the host supplies are over scopes under the global one,
    then all scopes that the machine comes to are under it, and it fails to leave a scope exactly
    in the global one. -/
theorem scope_chains (p : Program) (cfg : Settings) (clock : Nat → Binary64) (sink : Sink)
    (requests : List Request)
    (hhost : ∀ s store v, HostActs requests (startWith p cfg clock sink) s store v →
      s.store.Evolves store) :
    let start := startWith p cfg clock sink
    let m := start.after requests
    m.state.store.WalksEnd ∧
      (∀ earlier, Request.Passed earlier requests →
        (start.after earlier).state.store.KeepsLinks m.state.store) ∧
      ((∀ s store v, HostActs requests start s store v → s.SuppliesRooted store v) →
        (∀ r, m.state.Reaches r → m.state.store.Rooted r) ∧
          m.state.store.enclosing? Scope.global = none ∧
          ∀ i, m.state.next? p = some i → i.op = .leaveScope →
            ((∃ t, m.state.step p m.settings = .failed .scopeUnderflow t) ↔
              m.state.scope = Scope.global)) := by
  intro start m
  obtain ⟨hscoped, hrooted⟩ := scoped_startWith p cfg clock sink
  have hafter : m.state.Scoped := (scoped_after hscoped hhost).1
  refine ⟨hafter.linked.descending.walksEnd, fun earlier h => ?_, fun hsupplies => ?_⟩
  · exact (evolves_of_passed h hscoped hhost).keepsLinks
  · have hm : m.state.Rooted := rooted_after hrooted hscoped hhost hsupplies
    exact ⟨fun r hr => hm.reaches hr, hm.global,
      fun i hnext hop => hm.leaveScope_fails_iff hnext hop⟩

/-- A closure of the first function over a fresh scope under the global one, as a host may make
    it. -/
def closureUnderGlobal (st : Store) : Value × Store :=
  (.closure st.closures.size,
    ((st.newScope (some Scope.global)).2.newClosure 0 st.scopes.size).2)

theorem supplies_closureUnderGlobal (s : State) (hglobal : Scope.global < s.store.scopes.size) :
    s.store.Evolves (closureUnderGlobal s.store).2 ∧
      s.SuppliesRooted (closureUnderGlobal s.store).2 (some (closureUnderGlobal s.store).1) := by
  have hscope : s.store.Evolves (s.store.newScope (some Scope.global)).2 :=
    .newScope .refl (by simpa using hglobal)
  refine ⟨hscope.newClosure 0 (by simp [Store.newScope]), fun c hc hnot => ?_⟩
  rcases hc with hc | hc
  · cases hc
    refine ⟨⟨0, s.store.scopes.size⟩, Array.getElem?_push_size, ?_⟩
    have hrooted : (s.store.newScope (some Scope.global)).2.Rooted s.store.scopes.size := by
      apply (Store.Rooted.global _).of_enclosing?
      rw [Store.enclosing?_newScope, if_pos rfl]
    exact hrooted.mono (.of_eq rfl)
  · exact absurd (.stored (Store.holds_of_newScope (hc.congr rfl rfl rfl))) hnot

theorem supplies_of_define_run {m : Session} {name : String} {fuel : Nat} {s : State}
    {store : Store} {v : Option Value} (hglobal : Scope.global < m.state.store.scopes.size)
    (hnone : m.settings.host = .none)
    (h : HostActs [.define name closureUnderGlobal, .run fuel] m s store v) :
    s.store.Evolves store ∧ s.SuppliesRooted store v := by
  cases h with
  | head h =>
    cases h
    exact supplies_closureUnderGlobal m.state hglobal
  | tail h =>
    cases h with
    | head h =>
      cases h with
      | calls hn hs h =>
        obtain ⟨rfl, rfl⟩ := h.of_none hnone
        exact ⟨.refl, .refl s⟩
    | tail h => cases h

/-- A call of such a closure walks out of all scopes there are, and fails to leave the last. -/
theorem scope_chains_defined :
    let p : Program := ⟨#["f"], #[], #[⟨.load, 0⟩, ⟨.call, 0⟩], #[⟨#[], #[⟨.enterScope, 0⟩,
      ⟨.leaveScope, 0⟩, ⟨.leaveScope, 0⟩, ⟨.leaveScope, 0⟩, ⟨.leaveScope, 0⟩]⟩]⟩
    let start := startWith p {} (fun _ => ⟨0⟩) {}
    let requests : List Request := [.define "f" closureUnderGlobal, .run 6]
    let m := start.after requests
    (∀ s store v, HostActs requests start s store v → s.store.Evolves store) ∧
      (∀ s store v, HostActs requests start s store v → s.SuppliesRooted store v) ∧
        m.state.store.WalksEnd ∧ m.callDepth = 1 ∧
          ∃ t, m.state.step p m.settings = .failed .scopeUnderflow t := by
  intro p start requests m
  have hglobal := (scoped_startWith p {} (fun _ => ⟨0⟩) {}).1.global
  have hhost : ∀ s store v, HostActs requests start s store v → s.store.Evolves store :=
    fun s store v h => (supplies_of_define_run hglobal rfl h).1
  have hsupplies : ∀ s store v, HostActs requests start s store v → s.SuppliesRooted store v :=
    fun s store v h => (supplies_of_define_run hglobal rfl h).2
  obtain ⟨hends, -, hrooted⟩ := scope_chains p {} (fun _ => ⟨0⟩) {} requests hhost
  obtain ⟨-, -, hfails⟩ := hrooted hsupplies
  have hnext : m.state.next? p = some ⟨.leaveScope, 0⟩ := by decide +kernel
  have hscope : m.state.scope = Scope.global := by decide +kernel
  exact ⟨hhost, hsupplies, hends, by decide +kernel, (hfails _ hnext rfl).mpr hscope⟩

end Session

end StackMachine
