import Mathlib.Data.List.Forall2
import StackMachine.Proofs.Library.Effect
import StackMachine.Proofs.Machine.CallReturn
import StackMachine.Proofs.Machine.Effect

/-!
# Declarations stay inside calls

A declaration writes to whatever scope is the current one.  A call starts in a fresh scope, so as
long as no activation leaves more scopes than it has entered, the current scope is one that the
call has made (`State.Confined`).  The scopes that were there before then bind the names that they
bound, and only an assignment gives one of these another value (`State.bindings_of_call`).
-/

namespace StackMachine

/-! ## Scopes that stay as they are -/

namespace Store

variable {st st' : Store} {limit depth : Nat} {r outer : ScopeRef} {name : String}

/-- Every scope of `st` is in `st'` with the same contents. -/
def KeepsScopes (st st' : Store) : Prop :=
  ∀ (r : ScopeRef) scope, st.scopes[r]? = some scope → st'.scopes[r]? = some scope

/-- Every scope of `st` is in `st'` inside the same one. -/
structure Extends (st st' : Store) : Prop where
  size : st.scopes.size ≤ st'.scopes.size
  enclosing : ∀ r outer, st.enclosing? r = some outer → st'.enclosing? r = some outer

/-- The scope and the `depth` scopes around it are none of the first `limit`. -/
def Fresh (st : Store) (limit depth : Nat) (r : ScopeRef) : Prop :=
  ∀ n ≤ depth, ∃ u, st.outward? r n = some u ∧ limit ≤ u

theorem Extends.of_eq (h : st'.scopes = st.scopes) : st.Extends st' := by
  refine ⟨Nat.le_of_eq (congrArg Array.size h.symm), fun r outer houter => ?_⟩
  rw [enclosing?, h]
  exact houter

theorem KeepsScopes.extends (h : st.KeepsScopes st') : st.Extends st' := by
  refine ⟨?_, fun r outer houter => ?_⟩
  · cases hsize : st.scopes.size with
    | zero => exact Nat.zero_le _
    | succ n =>
      have hlt : n < st.scopes.size := by omega
      exact (Array.getElem?_eq_some_iff.mp (h n _ (Array.getElem?_eq_getElem hlt))).1
  · unfold enclosing? at houter ⊢
    split at houter
    · rename_i scope hscope
      rw [h r scope hscope]
      exact houter
    · cases houter

theorem KeepsScopes.ownBinding?_eq (h : st.KeepsScopes st') (hr : r < st.scopes.size)
    (name : String) : st'.ownBinding? r name = st.ownBinding? r name := by
  have hscope := Array.getElem?_eq_getElem hr
  rw [ownBinding?, ownBinding?, h r _ hscope, hscope]

theorem extends_define (st : Store) (r : ScopeRef) (name : String) (v : Value) :
    st.Extends (st.define r name v) := by
  refine ⟨?_, fun s outer houter => (enclosing?_define st r s name v).trans houter⟩
  exact Nat.le_of_eq Array.size_modify.symm

theorem extends_newScope (st : Store) (parent : Option ScopeRef) :
    st.Extends (st.newScope parent).2 := by
  refine ⟨?_, fun s outer houter => ?_⟩
  · rw [newScope, Array.size_push]
    omega
  · rw [enclosing?_newScope, if_neg, houter]
    rintro rfl
    rw [enclosing?, Array.getElem?_eq_none (Nat.le_refl _)] at houter
    cases houter

theorem Extends.trans {st'' : Store} (h : st.Extends st') (h' : st'.Extends st'') :
    st.Extends st'' :=
  ⟨Nat.le_trans h.size h'.size, fun r outer houter =>
    h'.enclosing r outer (h.enclosing r outer houter)⟩

theorem extends_defineAll (st : Store) (r : ScopeRef) (bound : List (String × Value)) :
    st.Extends (st.defineAll r bound) := by
  induction bound generalizing st with
  | nil => exact .of_eq rfl
  | cons b bound ih => exact (extends_define st r b.1 b.2).trans (ih _)

theorem ownBinding?_defineAll_of_ne {s : ScopeRef} (hne : r ≠ s) (bound : List (String × Value)) :
    (st.defineAll s bound).ownBinding? r name = st.ownBinding? r name := by
  induction bound generalizing st with
  | nil => rfl
  | cons b bound ih => exact ih.trans (ownBinding?_define_of_ne (Or.inl hne) b.2)

theorem own_of_binder? {s : ScopeRef} (h : st.binder? s name = some r) :
    (st.ownBinding? r name).isSome := by
  fun_induction binder? st s name with
  | case1 s hown =>
    cases h
    exact hown
  | case2 s hown p hp hlt ih => exact ih h
  | case3 => cases h
  | case4 => cases h

/-! ### Fresh scopes -/

theorem Extends.outward? (h : st.Extends st') {n : Nat} {u : ScopeRef}
    (hu : st.outward? r n = some u) : st'.outward? r n = some u := by
  induction n generalizing u with
  | zero => exact hu
  | succ n ih =>
    obtain ⟨w, hw, hu⟩ := Option.bind_eq_some_iff.mp hu
    rw [Store.outward?, ih hw]
    exact h.enclosing w u hu

namespace Fresh

theorem le (h : st.Fresh limit depth r) : limit ≤ r := by
  obtain ⟨u, hu, hle⟩ := h 0 (Nat.zero_le _)
  cases hu
  exact hle

theorem extend (h : st.Fresh limit depth r) (hst : st.Extends st') : st'.Fresh limit depth r := by
  intro n hn
  obtain ⟨u, hu, hle⟩ := h n hn
  exact ⟨u, hst.outward? hu, hle⟩

theorem zero (h : limit ≤ r) : st.Fresh limit 0 r := by
  intro n hn
  obtain rfl := Nat.le_zero.mp hn
  exact ⟨r, rfl, h⟩

/-- A scope inside a fresh one is fresh one link further out. -/
theorem succ (h : st.Fresh limit depth outer) (hr : limit ≤ r)
    (houter : st.enclosing? r = some outer) : st.Fresh limit (depth + 1) r := by
  intro n hn
  cases n with
  | zero => exact ⟨r, rfl, hr⟩
  | succ n =>
    rw [outward?_succ_of_enclosing? houter]
    exact h n (Nat.le_of_succ_le_succ hn)

theorem enclosing (h : st.Fresh limit (depth + 1) r) (houter : st.enclosing? r = some outer) :
    st.Fresh limit depth outer := by
  intro n hn
  rw [← outward?_succ_of_enclosing? houter]
  exact h (n + 1) (Nat.succ_le_succ hn)

end Fresh

end Store

/-! ## What a step does to scopes -/

namespace Library

/-- The functions of the host leave all scopes as they are. -/
def Host.KeepsScopes (host : Host) : Prop :=
  ∀ number site args st v st', host number site args st = .ok v st' → st.KeepsScopes st'

theorem keepsScopes_of_callWith {host : Host} (hhost : host.KeepsScopes) {native : Native}
    {site v : Value} {args : List Value} {st st' : Store}
    (h : callWith host native site args st = .ok v st') : st.KeepsScopes st' := by
  have hsame : st'.scopes = st.scopes → st.KeepsScopes st' := by
    intro heq r scope hscope
    rw [heq]
    exact hscope
  obtain ⟨name, arity, body⟩ := native
  cases body with
  | builtin b => exact hsame (effect_of_callBuiltin h).scopes_eq
  | host f =>
    cases f with
    | collect | callSite | count =>
      cases h
      exact hsame rfl
    | fail message => cases h
    | supplied number => exact hhost number site args st v st' h

end Library

namespace State

variable {p : Program} {cfg : Settings} {s t u : State} {next : Option Instruction} {limit : Nat}
  {r : ScopeRef} {name : String}

/-- The next step assigns to the binding of the name in the scope. -/
def Assigns (p : Program) (s : State) (r : ScopeRef) (name : String) : Prop :=
  ∃ i, s.next? p = some i ∧ i.op = .assign ∧ p.symbols[i.operand.toNat]? = some name ∧
    s.store.binder? s.scope name = some r

theorem Effect.extends (hhost : cfg.host.KeepsScopes) (h : s.Effect p cfg next t) :
    s.store.Extends t.store := by
  cases h with
  | computes | makes_closure | closes_scope | leaves | halts => exact .of_eq rfl
  | declares | assigns => exact Store.extends_define _ _ _ _
  | opens_scope => exact Store.extends_newScope _ _
  | @writes _ _ _ _ target => cases target <;> exact .of_eq rfl
  | calls_native _ hcall => exact (Library.keepsScopes_of_callWith hhost hcall).extends
  | enters => exact (Store.extends_newScope _ _).trans (Store.extends_defineAll _ _ _)

/-- A scope among the first `limit` keeps its bindings in a step that declares outside of them, but
    for one that the step assigns to. -/
theorem ownBinding?_of_effect (hhost : cfg.host.KeepsScopes) (hr : r < limit)
    (hsize : limit ≤ s.store.scopes.size)
    (hdeclare : ∀ i, s.next? p = some i → i.op = .declare → limit ≤ s.scope)
    (h : s.Effect p cfg (s.next? p) t) :
    t.store.ownBinding? r name = s.store.ownBinding? r name ∨
      s.Assigns p r name ∧ (s.store.ownBinding? r name).isSome ∧
        (t.store.ownBinding? r name).isSome := by
  generalize hnext : s.next? p = next at h hdeclare
  cases h with
  | computes | makes_closure | closes_scope | leaves | halts => exact Or.inl rfl
  | @declares i _ _ _ _ hop =>
    have hscope := hdeclare i rfl hop
    have hne : r ≠ s.scope := Nat.ne_of_lt (Nat.lt_of_lt_of_le hr hscope)
    exact Or.inl (Store.ownBinding?_define_of_ne (Or.inl hne) _)
  | @assigns i other _ b _ _ hop hname _ hb =>
    by_cases heq : r = b ∧ name = other
    · obtain ⟨rfl, rfl⟩ := heq
      have hown := Store.own_of_binder? hb
      refine Or.inr ⟨⟨i, hnext, hop, hname, hb⟩, hown, ?_⟩
      rw [Store.ownBinding?_define_self (Store.lt_size_of_own hown)]
      rfl
    · refine Or.inl (Store.ownBinding?_define_of_ne ?_ _)
      by_cases hrb : r = b
      · exact Or.inr fun hname => heq ⟨hrb, hname⟩
      · exact Or.inl hrb
  | opens_scope => exact Or.inl (Store.ownBinding?_newScope _ _ _ _)
  | @writes _ _ _ _ target => cases target <;> exact Or.inl rfl
  | calls_native _ hcall =>
    have hkeeps := Library.keepsScopes_of_callWith hhost hcall
    exact Or.inl (hkeeps.ownBinding?_eq (Nat.lt_of_lt_of_le hr hsize) name)
  | enters =>
    have hne : r ≠ s.store.scopes.size := Nat.ne_of_lt (Nat.lt_of_lt_of_le hr hsize)
    exact Or.inl ((Store.ownBinding?_defineAll_of_ne hne _).trans
      (Store.ownBinding?_newScope _ _ _ _))

end State

/-! ## Activations -/

/-- How often an activation has entered and left a scope. -/
structure Blocks where
  entered : Nat
  left : Nat
  deriving DecidableEq, Repr

namespace Blocks

/-- The counts after one more instruction. -/
def count (b : Blocks) (i : Instruction) : Blocks :=
  match i.op with
  | .enterScope => { b with entered := b.entered + 1 }
  | .leaveScope => { b with left := b.left + 1 }
  | _ => b

/-- The activations, innermost first, after a step from `s` to `t`: a call adds one, a return drops
    one, and any other instruction counts for the innermost one. -/
def next (p : Program) (s t : State) (activations : List Blocks) : List Blocks :=
  if s.frames.size < t.frames.size then ⟨0, 0⟩ :: activations
  else if t.frames.size < s.frames.size then activations.tail
  else match s.next? p with
    | some i => activations.modifyHead (·.count i)
    | none => activations

variable {p : Program} {s t : State} {i : Instruction} {bs : List Blocks}

theorem count_eq_self (henter : i.op ≠ .enterScope) (hleave : i.op ≠ .leaveScope) (b : Blocks) :
    b.count i = b := by
  unfold count
  split
  · exact absurd ‹_› henter
  · exact absurd ‹_› hleave
  · rfl

theorem next_of_frames_eq (hframes : t.frames = s.frames) (hnext : s.next? p = some i) (b : Blocks)
    (rest : List Blocks) : next p s t (b :: rest) = b.count i :: rest := by
  rw [next, hframes, if_neg (Nat.lt_irrefl _), if_neg (Nat.lt_irrefl _), hnext]
  rfl

theorem next_of_push {frame : Frame} (hframes : t.frames = s.frames.push frame) :
    next p s t bs = ⟨0, 0⟩ :: bs := by
  rw [next, hframes, Stack.size_push, if_pos (Nat.lt_succ_self _)]

theorem next_of_pop {frame : Frame} (hframes : s.frames = t.frames.push frame) :
    next p s t bs = bs.tail := by
  rw [next, hframes, Stack.size_push, if_neg (by omega), if_pos (Nat.lt_succ_self _)]

/-- Nothing is counted in a step that stays in its call and neither enters nor leaves a scope. -/
theorem next_eq_self (hframes : t.frames = s.frames)
    (hop : ∀ i ∈ s.next? p, i.op ≠ .enterScope ∧ i.op ≠ .leaveScope) :
    next p s t bs = bs := by
  rw [next, hframes, if_neg (Nat.lt_irrefl _), if_neg (Nat.lt_irrefl _)]
  cases hnext : s.next? p with
  | none => rfl
  | some i =>
    cases bs with
    | nil => rfl
    | cons b rest =>
      obtain ⟨henter, hleave⟩ := hop i hnext
      exact congrArg (· :: rest) (count_eq_self henter hleave b)

end Blocks

namespace State

variable {p : Program} {cfg : Settings} {s t u : State} {limit : Nat} {outer : List Frame}
  {b : Blocks} {bs : List Blocks} {r : ScopeRef} {name : String}

/-- The activations begun since `s`, innermost first, after `k` steps from there. -/
def activations (p : Program) (cfg : Settings) (s : State) : (k : Nat) → List Blocks
  | 0 => []
  | k + 1 => match s.steps p cfg k, s.steps p cfg (k + 1) with
    | .unfinished u, .unfinished t => Blocks.next p u t (s.activations p cfg k)
    | _, _ => []

/-- In the first `k` steps from `s`, no activation begun since has left more scopes than it has
    entered so far. -/
def Balanced (p : Program) (cfg : Settings) (s : State) (k : Nat) : Prop :=
  ∀ j ≤ k, ∀ b ∈ s.activations p cfg j, b.left ≤ b.entered

theorem activations_succ {k : Nat} (hu : s.steps p cfg k = .unfinished u)
    (ht : s.steps p cfg (k + 1) = .unfinished t) :
    s.activations p cfg (k + 1) = Blocks.next p u t (s.activations p cfg k) := by
  rw [activations, hu, ht]

/-- The current scope of each activation above the frames `outer` is none of the first `limit`, and
    neither are the ones around it that the activation has entered and not left. -/
structure Confined (limit : Nat) (outer : List Frame) (t : State) (bs : List Blocks) : Prop where
  size : limit ≤ t.store.scopes.size
  scopes : ∃ inner : List Frame, t.frames.topDown = inner ++ outer ∧
    List.Forall₂ (fun b r => t.store.Fresh limit (b.entered - b.left) r) bs
      (t.scope :: inner.map Frame.scope)

namespace Confined

theorem le_scope (h : u.Confined limit outer bs) : limit ≤ u.scope := by
  obtain ⟨inner, -, hscopes⟩ := h.scopes
  cases hscopes with
  | cons hfresh _ => exact hfresh.le

theorem stay (h : u.Confined limit outer bs) (hst : u.store.Extends t.store)
    (hframes : t.frames = u.frames) (hscope : t.scope = u.scope) :
    t.Confined limit outer bs := by
  obtain ⟨inner, hinner, hscopes⟩ := h.scopes
  refine ⟨Nat.le_trans h.size hst.size, inner, hframes ▸ hinner, ?_⟩
  rw [hscope]
  exact hscopes.imp fun _ _ hfresh => hfresh.extend hst

theorem ne_nil (h : u.Confined limit outer bs) : ∃ b rest, bs = b :: rest := by
  obtain ⟨inner, -, hscopes⟩ := h.scopes
  cases hscopes with
  | @cons b _ rest => exact ⟨b, rest, rfl⟩

theorem enter_scope (h : u.Confined limit outer (b :: bs)) (hb : b.left ≤ b.entered)
    (hst : u.store.Extends t.store) (hframes : t.frames = u.frames) (hscope : limit ≤ t.scope)
    (henclosing : t.store.enclosing? t.scope = some u.scope) :
    t.Confined limit outer ({ b with entered := b.entered + 1 } :: bs) := by
  obtain ⟨inner, hinner, hscopes⟩ := (h.stay (t := { u with store := t.store }) hst rfl rfl).scopes
  cases hscopes with
  | cons hfresh hrest =>
    refine ⟨Nat.le_trans h.size hst.size, inner, hframes ▸ hinner, .cons ?_ hrest⟩
    have hdepth : b.entered + 1 - b.left = b.entered - b.left + 1 := by omega
    rw [hdepth]
    exact hfresh.succ hscope henclosing

theorem leave_scope (h : u.Confined limit outer (b :: bs)) (hb : b.left + 1 ≤ b.entered)
    (hstore : t.store = u.store) (hframes : t.frames = u.frames)
    (houter : u.store.enclosing? u.scope = some t.scope) :
    t.Confined limit outer ({ b with left := b.left + 1 } :: bs) := by
  obtain ⟨inner, hinner, hscopes⟩ := h.scopes
  rw [← hstore] at hscopes houter
  cases hscopes with
  | cons hfresh hrest =>
    refine ⟨hstore ▸ h.size, inner, hframes ▸ hinner, .cons ?_ hrest⟩
    have hdepth : b.entered - b.left = b.entered - (b.left + 1) + 1 := by omega
    rw [hdepth] at hfresh
    exact hfresh.enclosing houter

theorem enter_call {frame : Frame} (h : u.Confined limit outer bs)
    (hst : u.store.Extends t.store) (hframes : t.frames = u.frames.push frame)
    (hcaller : frame.scope = u.scope) (hscope : limit ≤ t.scope) :
    t.Confined limit outer (⟨0, 0⟩ :: bs) := by
  obtain ⟨inner, hinner, hscopes⟩ := (h.stay (t := { u with store := t.store }) hst rfl rfl).scopes
  refine ⟨Nat.le_trans h.size hst.size, frame :: inner, ?_, .cons (.zero hscope) ?_⟩
  · rw [hframes, Stack.topDown_push, hinner]
    rfl
  · rw [List.map_cons, hcaller]
    exact hscopes

/-- A return from an inner call leads back to an activation that is confined. -/
theorem leave_call {frame : Frame} (h : u.Confined limit outer bs) (hstore : t.store = u.store)
    (hframes : u.frames = t.frames.push frame) (hscope : t.scope = frame.scope)
    (hinside : outer.length ≤ t.frames.size) : t.Confined limit outer bs.tail := by
  obtain ⟨inner, hinner, hscopes⟩ := h.scopes
  rw [← hstore] at hscopes
  rw [hframes, Stack.topDown_push] at hinner
  cases hscopes with
  | cons _ hrest =>
    cases inner with
    | nil =>
      have hlength := congrArg List.length hinner
      rw [List.length_cons, ← t.frames.size_eq, List.nil_append] at hlength
      omega
    | cons callee inner =>
      obtain ⟨rfl, htail⟩ := List.cons.inj hinner
      rw [List.map_cons, ← hscope] at hrest
      exact ⟨hstore ▸ h.size, inner, htail, hrest⟩

/-- A step that does not return from the call keeps the activations confined, if none has left more
    scopes than it has entered. -/
theorem step (h : u.Confined limit outer bs) (hhost : cfg.host.KeepsScopes)
    (heffect : u.Effect p cfg (u.next? p) t) (hinside : outer.length ≤ t.frames.size)
    (hbefore : ∀ b ∈ bs, b.left ≤ b.entered)
    (hafter : ∀ b ∈ Blocks.next p u t bs, b.left ≤ b.entered) :
    t.Confined limit outer (Blocks.next p u t bs) := by
  have hst := heffect.extends hhost
  obtain ⟨b, rest, rfl⟩ := h.ne_nil
  generalize hnext : u.next? p = next at heffect
  have hquiet : t.frames = u.frames → t.scope = u.scope →
      (∀ i ∈ next, i.op ≠ .enterScope ∧ i.op ≠ .leaveScope) →
        t.Confined limit outer (Blocks.next p u t (b :: rest)) := by
    intro hframes hscope hop
    rw [Blocks.next_eq_self hframes (hnext ▸ hop)]
    exact h.stay hst hframes hscope
  have hsame : t.frames = u.frames → ∀ i ∈ next,
      Blocks.next p u t (b :: rest) = b.count i :: rest :=
    fun hframes i hi => Blocks.next_of_frames_eq hframes (hnext.trans hi) b rest
  have hpush : ∀ frame, t.frames = u.frames.push frame →
      Blocks.next p u t (b :: rest) = ⟨0, 0⟩ :: b :: rest := fun _ => Blocks.next_of_push
  have hpop : ∀ frame, u.frames = t.frames.push frame →
      Blocks.next p u t (b :: rest) = rest := fun _ => Blocks.next_of_pop
  cases heffect with
  | computes hop =>
    refine hquiet rfl rfl fun j hj => ?_
    cases hj
    constructor <;> intro heq <;> rw [heq] at hop <;> cases hop
  | declares hop | assigns hop | makes_closure hop | writes hop =>
    exact hquiet rfl rfl (by simp [hop])
  | calls_native hcalls =>
    refine hquiet rfl rfl fun j hj => ?_
    cases hj
    rcases hcalls.op with hop | hop <;> simp [hop]
  | halts hop =>
    refine hquiet rfl rfl fun j hj => ?_
    rcases hop j hj with hop | hop <;> simp [hop]
  | @opens_scope i _ _ hop =>
    have hcount : b.count i = { b with entered := b.entered + 1 } := by simp [Blocks.count, hop]
    rw [hsame rfl i rfl, hcount]
    refine h.enter_scope (hbefore b List.mem_cons_self) hst rfl h.size ?_
    rw [Store.enclosing?_newScope, if_pos rfl]
  | @closes_scope i _ _ _ hop houter =>
    have hcount : b.count i = { b with left := b.left + 1 } := by simp [Blocks.count, hop]
    -- The count after the step says that the scope which is left was entered since the call.
    rw [hsame rfl i rfl, hcount] at hafter ⊢
    exact h.leave_scope (hafter _ List.mem_cons_self) rfl rfl houter
  | enters =>
    rw [hpush _ rfl]
    exact h.enter_call hst rfl rfl h.size
  | leaves hop hv hframes =>
    rw [hpop _ hframes]
    exact h.leave_call rfl hframes rfl hinside

end Confined

/-! ## Calls -/

variable {i : Instruction} {callee : Value} {c : ClosureRef} {k : Nat}

/-- The step that enters a function begins an activation in a fresh scope. -/
theorem confined_of_entered (hhost : cfg.host.KeepsScopes) (hentered : s.Entered p cfg i t)
    (heffect : s.Effect p cfg (s.next? p) t) :
    t.Confined s.store.scopes.size (s.frames.push ⟨s.active, s.ip + 1, s.scope⟩).topDown
      [⟨0, 0⟩] := by
  have hst := heffect.extends hhost
  have hsize := congrArg Stack.size hentered.frames
  rw [Stack.size_push] at hsize
  generalize s.next? p = next at heffect
  cases heffect with
  | enters => exact ⟨hst.size, [], rfl, .cons (.zero (Nat.le_refl _)) .nil⟩
  -- No other step adds a frame.
  | leaves _ _ hframes =>
    rw [hframes, Stack.size_push] at hsize
    dsimp only at hsize
    omega
  | _ =>
    dsimp only at hsize
    omega

/-- As long as a call is in progress, the activations begun since are confined to the scopes made
    since. -/
theorem confined_of_call (hhost : cfg.host.KeepsScopes) (hnext : s.next? p = some i)
    (hop : i.op = .call ∨ i.op = .callWith)
    (hcallee : s.operands.topDown[i.operand.toNat]? = some callee)
    (hclosure : s.store.calledClosure? callee = some c)
    (hrun : s.steps p cfg (k + 1) = .unfinished t) (haway : s.Away p cfg (k + 1))
    (hbalanced : s.Balanced p cfg (k + 1)) :
    t.Confined s.store.scopes.size (s.frames.push ⟨s.active, s.ip + 1, s.scope⟩).topDown
      (s.activations p cfg (k + 1)) := by
  induction k generalizing t with
  | zero =>
    have hstep := steps_one_eq_unfinished.mp hrun
    have hentered := entered_of_step hnext hop hcallee hclosure hstep
    rw [activations_succ rfl hrun, Blocks.next_of_push hentered.frames]
    exact confined_of_entered hhost hentered (effect_of_step (Or.inl hstep))
  | succ k ih =>
    obtain ⟨u, hu, hstep⟩ := steps_succ_eq_unfinished.mp hrun
    have hshorter : s.Away p cfg (k + 1) := fun j w hj hjk => haway j w hj (Nat.le_succ_of_le hjk)
    have hconfined := ih hu hshorter fun j hj => hbalanced j (Nat.le_succ_of_le hj)
    have hinside : s.frames.size < t.frames.size := by
      rcases inside_or_resumed hnext hop hcallee hclosure (k + 1) hrun hshorter with hin | hresumed
      · exact hin.size_lt
      · obtain ⟨_, _, _, _, hresumed⟩ := hresumed
        exact absurd (congrArg Stack.size hresumed.frames)
          (haway (k + 2) t (Nat.succ_pos _) (Nat.le_refl _) hrun)
    have hafter := hbalanced (k + 2) (Nat.le_refl _)
    rw [activations_succ hu hrun] at hafter ⊢
    refine hconfined.step hhost (effect_of_step (Or.inl hstep)) ?_
      (hbalanced (k + 1) (Nat.le_succ _)) hafter
    rw [← Stack.size_eq, Stack.size_push]
    exact hinside

/-- After one of the steps from the first to the `k`-th, the next one assigns to the binding of the
    name in the scope. -/
def AssignsWithin (p : Program) (cfg : Settings) (s : State) (k : Nat) (r : ScopeRef)
    (name : String) : Prop :=
  ∃ j u, 0 < j ∧ j ≤ k ∧ s.steps p cfg j = .unfinished u ∧ u.Assigns p r name

/-- Declarations do not leak out of a call.  Up to the step that returns from it, that one
    included, all scopes that existed when the call was made bind the names that they bound then,
    as long as no activation has left more scopes than it has entered.  A binding has another value
    only if an assignment during the call was to that very binding.  Functions of the host may be
    called on the way: `hhost` says that those which end well leave all scopes as they are, which
    is proved of the library's own functions (`Library.keepsScopes_of_callWith`). -/
theorem bindings_of_call (hhost : cfg.host.KeepsScopes) (hnext : s.next? p = some i)
    (hop : i.op = .call ∨ i.op = .callWith)
    (hcallee : s.operands.topDown[i.operand.toNat]? = some callee)
    (hclosure : s.store.calledClosure? callee = some c)
    (hrun : s.steps p cfg (k + 1) = .unfinished t) (haway : s.Away p cfg k)
    (hbalanced : s.Balanced p cfg k) (hr : r < s.store.scopes.size) (name : String) :
    ((t.store.ownBinding? r name).isSome ↔ (s.store.ownBinding? r name).isSome) ∧
      (t.store.ownBinding? r name ≠ s.store.ownBinding? r name →
        s.AssignsWithin p cfg k r name) := by
  induction k generalizing t with
  | zero =>
    have heffect := effect_of_step (Or.inl (steps_one_eq_unfinished.mp hrun))
    have hdeclare : ∀ j, s.next? p = some j → j.op = .declare →
        s.store.scopes.size ≤ s.scope := by
      intro j hj hdeclare
      cases hnext.symm.trans hj
      rw [hdeclare] at hop
      simp at hop
    rcases ownBinding?_of_effect hhost hr (Nat.le_refl _) hdeclare heffect with
      hsame | ⟨⟨j, hj, hassign, -⟩, -⟩
    · rw [hsame]
      exact ⟨Iff.rfl, fun hne => absurd rfl hne⟩
    · cases hnext.symm.trans hj
      rw [hassign] at hop
      simp at hop
  | succ k ih =>
    obtain ⟨u, hu, hstep⟩ := steps_succ_eq_unfinished.mp hrun
    obtain ⟨hsome, hvalue⟩ := ih hu (fun j w hj hjk => haway j w hj (Nat.le_succ_of_le hjk))
      fun j hj => hbalanced j (Nat.le_succ_of_le hj)
    have hlater : s.AssignsWithin p cfg k r name → s.AssignsWithin p cfg (k + 1) r name := by
      rintro ⟨j, w, hj, hjk, hw⟩
      exact ⟨j, w, hj, Nat.le_succ_of_le hjk, hw⟩
    have hconfined := confined_of_call hhost hnext hop hcallee hclosure hu haway hbalanced
    rcases ownBinding?_of_effect hhost hr hconfined.size (fun _ _ _ => hconfined.le_scope)
      (effect_of_step (Or.inl hstep)) with hsame | ⟨hassigns, hbefore, hafter⟩
    · rw [hsame]
      exact ⟨hsome, fun hne => hlater (hvalue hne)⟩
    · refine ⟨?_, fun _ => ⟨k + 1, u, Nat.succ_pos k, Nat.le_refl _, hu, hassigns⟩⟩
      rw [← hsome]
      simp [hbefore, hafter]

/-- The called function declares `x` in a scope of its own, leaves that scope and assigns `true` to
    the global `x`. -/
theorem bindings_of_call_assign :
    let p : Program := ⟨#["x"], #[], #[⟨.call, 0⟩],
      #[⟨#[], #[⟨.loadConst, 1⟩, ⟨.enterScope, 0⟩, ⟨.declare, 0⟩, ⟨.leaveScope, 0⟩, ⟨.assign, 0⟩,
        ⟨.ret, 0⟩]⟩]⟩
    let store := ((((Store.empty fun _ => ⟨0⟩).newScope none).2.newClosure 0 Scope.global).2.define
      Scope.global "x" (.bool false))
    let s := { initial store {} with operands := .ofTopDown [.closure 0] }
    ∃ t, s.steps p {} 7 = .unfinished t ∧ s.Away p {} 6 ∧ s.Balanced p {} 6 ∧
      t.frames.size = s.frames.size ∧ t.store.ownBinding? Scope.global "x" = some (.bool true) ∧
        s.AssignsWithin p {} 6 Scope.global "x" := by
  intro p store s
  have hends : (s.steps p {} 7).state.frames.size = 0 ∧
      (s.steps p {} 7).state.store.ownBinding? Scope.global "x" = some (.bool true) := by
    decide +kernel
  obtain ⟨t, hrun⟩ : ∃ t, s.steps p {} 7 = .unfinished t :=
    Outcome.isSome_unfinished?.mp (by decide +kernel)
  have hdepth : ∀ j ≤ 6, 0 < j → (s.steps p {} j).state.frames.size ≠ s.frames.size := by
    decide +kernel
  have haway : s.Away p {} 6 := by
    intro j t hj hjk ht
    have hsize := hdepth j hjk hj
    rw [ht] at hsize
    exact hsize
  have hbalanced : s.Balanced p {} 6 := by
    unfold Balanced
    decide +kernel
  have hhost : ({} : Settings).host.KeepsScopes := by
    intro number site args st v st' h
    cases h
  have hcall := bindings_of_call hhost (i := ⟨.call, 0⟩) rfl (Or.inl rfl) rfl rfl hrun haway
    hbalanced (r := Scope.global) (by decide) "x"
  rw [hrun] at hends
  obtain ⟨hsize, hvalue⟩ := hends
  refine ⟨t, hrun, haway, hbalanced, hsize, hvalue, hcall.2 fun hsame => ?_⟩
  have hchanged : s.store.ownBinding? Scope.global "x" ≠ some (.bool true) := by decide +kernel
  exact hchanged (hsame.symm.trans hvalue)

end State

end StackMachine
