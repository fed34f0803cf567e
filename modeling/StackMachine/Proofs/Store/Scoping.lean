import StackMachine.Store.Scopes

/-!
# Lexical scoping

Scopes form a tree whose nodes many closures share, so one write is seen from many places.
`Store.lexical_scoping` says from which: an assignment changes what a name means exactly where the
nearest binding is the one that is assigned to, and a definition exactly where nothing nearer binds
the name.
-/

namespace StackMachine.Store

variable {st st' : Store} {s t b p : ScopeRef} {name other : String} {v w : Value}

/-- The scope that is `n` links outward, if the chain goes as far as that. -/
def outward? (st : Store) (s : ScopeRef) : Nat → Option ScopeRef
  | 0 => some s
  | n + 1 => (st.outward? s n).bind st.enclosing?

/-- The scope `s` lies on the chain of `t`, and no scope that is strictly nearer to `t` binds the
    name. -/
def Visible (st : Store) (t s : ScopeRef) (name : String) : Prop :=
  ∃ n, st.outward? t n = some s ∧
    ∀ k < n, ∀ u, st.outward? t k = some u → st.ownBinding? u name = none

/-- The nearest scope from `t` outward that binds the name is `b`. -/
def Binds (st : Store) (t : ScopeRef) (name : String) (b : ScopeRef) : Prop :=
  st.Visible t b name ∧ (st.ownBinding? b name).isSome

/-- The scopes of the store were made one by one, each outermost or around an existing one, and
    written to by definitions and assignments. -/
inductive Built : Store → Prop
  | start {st : Store} (h : st.scopes = #[]) : Built st
  | global {st : Store} (h : Built st) : Built (st.newScope none).2
  | enclosed {st : Store} {p : ScopeRef} (h : Built st) (hp : p < st.scopes.size) :
      Built (st.newScope (some p)).2
  | define {st : Store} (h : Built st) (s : ScopeRef) (name : String) (v : Value) :
      Built (st.define s name v)
  | assign {st : Store} (h : Built st) (s : ScopeRef) (name : String) (v : Value) :
      Built (st.assign s name v).2
  | elsewhere {st st' : Store} (h : Built st) (hscopes : st'.scopes = st.scopes) : Built st'

/-- The way outward goes down in the store. -/
def Descending (st : Store) : Prop := ∀ s p, st.enclosing? s = some p → p < s

/-! ## Chains -/

theorem outward?_succ_of_enclosing? (h : st.enclosing? t = some p) (n : Nat) :
    st.outward? t (n + 1) = st.outward? p n := by
  induction n with
  | zero => simp [outward?, h]
  | succ n ih => rw [outward?, ih, outward?]

theorem outward?_succ_of_enclosing?_eq_none (h : st.enclosing? t = none) (n : Nat) :
    st.outward? t (n + 1) = none := by
  induction n with
  | zero => simp [outward?, h]
  | succ n ih => rw [outward?, ih, Option.bind_none]

theorem Visible.refl (st : Store) (t : ScopeRef) (name : String) : st.Visible t t name :=
  ⟨0, rfl, fun k hk => absurd hk (Nat.not_lt_zero k)⟩

/-- From a scope that does not bind the name, another one is seen through the scope around it. -/
theorem visible_iff_of_ne (hne : t ≠ s) : st.Visible t s name ↔
    st.ownBinding? t name = none ∧ ∃ p, st.enclosing? t = some p ∧ st.Visible p s name := by
  constructor
  · rintro ⟨n, hn, hnearer⟩
    cases n with
    | zero => exact absurd (Option.some.inj hn) hne
    | succ n =>
      refine ⟨hnearer 0 (Nat.succ_pos n) t rfl, ?_⟩
      cases hp : st.enclosing? t with
      | none =>
        rw [outward?_succ_of_enclosing?_eq_none hp] at hn
        cases hn
      | some p =>
        rw [outward?_succ_of_enclosing? hp] at hn
        refine ⟨p, rfl, n, hn, fun k hk u hu => ?_⟩
        rw [← outward?_succ_of_enclosing? hp] at hu
        exact hnearer (k + 1) (Nat.succ_lt_succ hk) u hu
  · rintro ⟨hown, p, hp, n, hn, hnearer⟩
    refine ⟨n + 1, by rw [outward?_succ_of_enclosing? hp, hn], fun k hk u hu => ?_⟩
    cases k with
    | zero =>
      cases hu
      exact hown
    | succ k =>
      rw [outward?_succ_of_enclosing? hp] at hu
      exact hnearer k (Nat.lt_of_succ_lt_succ hk) u hu

theorem binds_iff_of_own (h : st.ownBinding? t name = some v) : st.Binds t name b ↔ b = t := by
  constructor
  · rintro ⟨hvisible, -⟩
    by_cases heq : t = b
    · exact heq.symm
    · have hnone := ((visible_iff_of_ne heq).mp hvisible).1
      rw [h] at hnone
      cases hnone
  · rintro rfl
    exact ⟨.refl st b name, by rw [h]; rfl⟩

theorem binds_iff_of_own_eq_none (h : st.ownBinding? t name = none) :
    st.Binds t name b ↔ ∃ p, st.enclosing? t = some p ∧ st.Binds p name b := by
  constructor
  · rintro ⟨hvisible, hown⟩
    have hne : t ≠ b := by
      rintro rfl
      rw [h] at hown
      cases hown
    obtain ⟨-, p, hp, hvisible'⟩ := (visible_iff_of_ne hne).mp hvisible
    exact ⟨p, hp, hvisible', hown⟩
  · rintro ⟨p, hp, hvisible, hown⟩
    have hne : t ≠ b := by
      rintro rfl
      rw [h] at hown
      cases hown
    exact ⟨(visible_iff_of_ne hne).mpr ⟨h, p, hp, hvisible⟩, hown⟩

/-! ## Reads -/

theorem binder?_eq_some_iff (hst : st.Descending) :
    st.binder? t name = some b ↔ st.Binds t name b := by
  fun_induction binder? st t name with
  | case1 t hown =>
    obtain ⟨v, hv⟩ := Option.isSome_iff_exists.mp hown
    rw [binds_iff_of_own hv, Option.some.injEq, eq_comm]
  | case2 t hown p hp hlt ih =>
    have hnone : st.ownBinding? t name = none := by simpa using hown
    rw [binds_iff_of_own_eq_none hnone, hp, ih]
    simp
  | case3 t hown p hp hge => exact absurd (hst t p hp) hge
  | case4 t hown hp =>
    have hnone : st.ownBinding? t name = none := by simpa using hown
    rw [binds_iff_of_own_eq_none hnone, hp]
    simp

theorem lookup?_of_own (h : st.ownBinding? t name = some v) : st.lookup? t name = some v := by
  rw [lookup?, h]

theorem lookup?_of_enclosing? (h : st.ownBinding? t name = none) (hp : st.enclosing? t = some p)
    (hlt : p < t) : st.lookup? t name = st.lookup? p name := by
  rw [lookup?, h, hp]
  exact if_pos hlt

theorem lookup?_of_outermost (h : st.ownBinding? t name = none) (hp : st.enclosing? t = none) :
    st.lookup? t name = none := by
  rw [lookup?, h, hp]

/-- A name has a meaning exactly where some scope outward binds it. -/
theorem lookup?_eq_none_iff (st : Store) (t : ScopeRef) (name : String) :
    st.lookup? t name = none ↔ st.binder? t name = none := by
  fun_induction lookup? st t name with
  | case1 t v hown =>
    rw [binder?]
    simp [hown]
  | case2 t hown p hp hlt ih =>
    rw [ih, binder?.eq_def st t]
    simp [hown, hp, hlt]
  | case3 t hown p hp hge =>
    rw [binder?]
    simp [hown, hp, hge]
  | case4 t hown hp =>
    rw [binder?]
    simp [hown, hp]

theorem lookup?_congr (henclosing : ∀ u, st'.enclosing? u = st.enclosing? u)
    (hown : ∀ u, st'.ownBinding? u name = st.ownBinding? u name) (t : ScopeRef) :
    st'.lookup? t name = st.lookup? t name := by
  fun_induction lookup? st t name with
  | case1 t v h => exact lookup?_of_own ((hown t).trans h)
  | case2 t h p hp hlt ih =>
    rw [lookup?_of_enclosing? ((hown t).trans h) ((henclosing t).trans hp) hlt, ih]
  | case3 t h p hp hge =>
    rw [lookup?, hown, h, henclosing, hp]
    exact if_neg hge
  | case4 t h hp => exact lookup?_of_outermost ((hown t).trans h) ((henclosing t).trans hp)

/-! ## Writes -/

theorem getElem?_scopes_define (st : Store) (s t : ScopeRef) (name : String) (v : Value) :
    (st.define s name v).scopes[t]? = if s = t then
      (st.scopes[t]?).map fun scope => { scope with bindings := scope.bindings.insert name v }
    else st.scopes[t]? := by
  rw [define, Array.getElem?_modify]

theorem enclosing?_define (st : Store) (s t : ScopeRef) (name : String) (v : Value) :
    (st.define s name v).enclosing? t = st.enclosing? t := by
  rw [enclosing?, enclosing?, getElem?_scopes_define]
  by_cases heq : s = t
  · rw [if_pos heq]
    cases st.scopes[t]? <;> rfl
  · rw [if_neg heq]

theorem ownBinding?_define_self (hs : s < st.scopes.size) (name : String) (v : Value) :
    (st.define s name v).ownBinding? s name = some v := by
  rw [ownBinding?, getElem?_scopes_define, if_pos rfl, Array.getElem?_eq_getElem hs]
  simp

theorem ownBinding?_define_of_ne (h : t ≠ s ∨ other ≠ name) (v : Value) :
    (st.define s name v).ownBinding? t other = st.ownBinding? t other := by
  rw [ownBinding?, ownBinding?, getElem?_scopes_define]
  by_cases heq : s = t
  · have hother : other ≠ name := h.resolve_left fun hne => hne heq.symm
    rw [if_pos heq]
    cases st.scopes[t]? with
    | none => rfl
    | some scope => simp [hother]
  · rw [if_neg heq]

theorem lt_size_of_own (h : (st.ownBinding? s name).isSome) : s < st.scopes.size := by
  unfold ownBinding? at h
  split at h
  · rename_i scope hscope
    exact (Array.getElem?_eq_some_iff.mp hscope).1
  · cases h

/-- Other names keep their meaning. -/
theorem lookup?_define_of_ne (h : other ≠ name) (s t : ScopeRef) (v : Value) :
    (st.define s name v).lookup? t other = st.lookup? t other :=
  lookup?_congr (fun u => enclosing?_define st s u name v)
    (fun _ => ownBinding?_define_of_ne (Or.inr h) v) t

/-- A definition is what the name means wherever its scope is visible, and nowhere else. -/
theorem lookup?_define (hst : st.Descending) (hs : s < st.scopes.size) (t : ScopeRef) (v : Value) :
    (st.Visible t s name → (st.define s name v).lookup? t name = some v) ∧
      (¬st.Visible t s name → (st.define s name v).lookup? t name = st.lookup? t name) := by
  have henclosing := fun u => enclosing?_define st s u name v
  -- The walk outward is followed until it comes to `s`, to a binding or to the end.
  induction t using Nat.strongRecOn with
  | ind t ih =>
    by_cases heq : t = s
    · subst heq
      refine ⟨fun _ => lookup?_of_own (ownBinding?_define_self hs name v), fun hnot => ?_⟩
      exact absurd (Visible.refl st t name) hnot
    · have hsame : (st.define s name v).ownBinding? t name = st.ownBinding? t name :=
        ownBinding?_define_of_ne (Or.inl heq) v
      rw [visible_iff_of_ne heq]
      cases hown : st.ownBinding? t name with
      | some w =>
        rw [lookup?_of_own (hsame.trans hown), lookup?_of_own hown]
        simp
      | none =>
        have hown' := hsame.trans hown
        cases hp : st.enclosing? t with
        | none =>
          have hp' := (henclosing t).trans hp
          rw [lookup?_of_outermost hown' hp', lookup?_of_outermost hown hp]
          simp
        | some p =>
          have hp' := (henclosing t).trans hp
          have hlt := hst t p hp
          rw [lookup?_of_enclosing? hown' hp' hlt, lookup?_of_enclosing? hown hp hlt]
          simpa using ih p hlt

/-- What every name means after a definition. -/
theorem lookup?_after_define (hst : st.Descending) (hs : s < st.scopes.size) (name : String)
    (v : Value) (t : ScopeRef) (other : String) :
    (other = name ∧ st.Visible t s name → (st.define s name v).lookup? t other = some v) ∧
      (¬(other = name ∧ st.Visible t s name) →
        (st.define s name v).lookup? t other = st.lookup? t other) := by
  by_cases heq : other = name
  · subst heq
    simpa using lookup?_define hst hs t v
  · have hsame : (st.define s name v).lookup? t other = st.lookup? t other :=
      lookup?_define_of_ne heq s t v
    exact ⟨fun hother => absurd hother.1 heq, fun _ => hsame⟩

/-- Where the binding that is assigned to is the nearest one, its scope is visible. -/
theorem exists_binds_iff_visible (hst : st.Descending) (hb : st.Binds s name b) :
    (∃ c, st.Binds s name c ∧ st.Binds t name c) ↔ st.Visible t b name := by
  constructor
  · rintro ⟨c, hc, hvisible, -⟩
    rw [← binder?_eq_some_iff hst] at hb hc
    rw [hb] at hc
    cases hc
    exact hvisible
  · intro hvisible
    exact ⟨b, hb, hvisible, hb.2⟩

/-! ## Stores of scopes -/

theorem enclosing?_newScope (st : Store) (parent : Option ScopeRef) (s : ScopeRef) :
    (st.newScope parent).2.enclosing? s =
      if s = st.scopes.size then parent else st.enclosing? s := by
  rw [enclosing?, newScope, Array.getElem?_push]
  by_cases heq : s = st.scopes.size
  · rw [if_pos heq, if_pos heq]
  · rw [if_neg heq, if_neg heq, enclosing?]

theorem Descending.newScope (h : st.Descending) {parent : Option ScopeRef}
    (hparent : ∀ p, parent = some p → p < st.scopes.size) :
    (st.newScope parent).2.Descending := by
  intro s p hp
  rw [enclosing?_newScope] at hp
  by_cases heq : s = st.scopes.size
  · rw [if_pos heq] at hp
    rw [heq]
    exact hparent p hp
  · rw [if_neg heq] at hp
    exact h s p hp

theorem Descending.define (h : st.Descending) (s : ScopeRef) (name : String) (v : Value) :
    (st.define s name v).Descending := by
  intro t p hp
  rw [enclosing?_define] at hp
  exact h t p hp

theorem Built.descending (h : st.Built) : st.Descending := by
  induction h with
  | start h =>
    intro s p hp
    simp [enclosing?, h] at hp
  | global _ ih => exact ih.newScope fun p hp => by cases hp
  | enclosed _ hp ih =>
    refine ih.newScope fun p h => ?_
    cases h
    exact hp
  | define _ s name v ih => exact ih.define s name v
  | assign _ s name v ih =>
    unfold Store.assign
    split
    · exact ih.define _ name v
    · exact ih
  | elsewhere _ hscopes ih =>
    intro s p hp
    rw [enclosing?, hscopes] at hp
    exact ih s p hp

/-- An assignment fails exactly where no scope outward binds the name, so that it has no meaning
    there, and then changes nothing.  Otherwise the name means the new value wherever the nearest
    binding was the one assigned to, and every name means what it did everywhere else.  After a
    definition the name means the new value wherever the scope is visible, and every name means what
    it did everywhere else. -/
theorem lexical_scoping (h : st.Built) (hs : s < st.scopes.size) (name : String) (v : Value) :
    ((st.assign s name v).1 = false ↔ ¬∃ b, st.Binds s name b) ∧
    ((st.assign s name v).1 = false ↔ st.lookup? s name = none) ∧
    ((st.assign s name v).1 = false → (st.assign s name v).2 = st) ∧
    ((st.assign s name v).1 = true → ∀ t other,
      (other = name ∧ (∃ b, st.Binds s name b ∧ st.Binds t name b) →
        (st.assign s name v).2.lookup? t other = some v) ∧
      (¬(other = name ∧ ∃ b, st.Binds s name b ∧ st.Binds t name b) →
        (st.assign s name v).2.lookup? t other = st.lookup? t other)) ∧
    ∀ t other,
      (other = name ∧ st.Visible t s name → (st.define s name v).lookup? t other = some v) ∧
      (¬(other = name ∧ st.Visible t s name) →
        (st.define s name v).lookup? t other = st.lookup? t other) := by
  have hst := h.descending
  have hdefine := lookup?_after_define hst hs name v
  cases hb : st.binder? s name with
  | none =>
    have hnone : ¬∃ b, st.Binds s name b := by
      rintro ⟨b, hbinds⟩
      rw [← binder?_eq_some_iff hst, hb] at hbinds
      cases hbinds
    have hassign : st.assign s name v = (false, st) := by rw [assign, hb]
    rw [hassign, lookup?_eq_none_iff]
    refine ⟨iff_of_true rfl hnone, iff_of_true rfl hb, fun _ => rfl, ?_, hdefine⟩
    intro hfalse
    cases hfalse
  | some b =>
    have hbinds := (binder?_eq_some_iff hst).mp hb
    have hassign : st.assign s name v = (true, st.define b name v) := by rw [assign, hb]
    rw [hassign, lookup?_eq_none_iff, hb]
    refine ⟨?_, ?_, ?_, ?_, hdefine⟩
    · exact iff_of_false Bool.noConfusion fun hnone => hnone ⟨b, hbinds⟩
    · exact iff_of_false Bool.noConfusion (Option.some_ne_none b)
    · intro hfalse
      cases hfalse
    · intro _ t other
      rw [exists_binds_iff_visible hst hbinds]
      exact lookup?_after_define hst (lt_size_of_own hbinds.2) name v t other

/-- Two scopes around which the same one binds `x`: an assignment in the first is seen from the
    second, a definition is not. -/
theorem lexical_scoping_siblings :
    let st := (((((Store.empty fun _ => ⟨0⟩).newScope none).2.define 0 "x" .null).newScope
      (some 0)).2.newScope (some 0)).2
    st.Built ∧ 1 < st.scopes.size ∧
      (st.assign 1 "x" (.bool true)).1 = true ∧
      (st.assign 1 "x" (.bool true)).2.lookup? 2 "x" = some (.bool true) ∧
      (st.define 1 "x" (.bool true)).lookup? 1 "x" = some (.bool true) ∧
      (st.define 1 "x" (.bool true)).lookup? 2 "x" = st.lookup? 2 "x" := by
  intro st
  have hbuilt : st.Built :=
    ((((Built.start rfl).global.define 0 "x" .null).enclosed (by decide)).enclosed (by decide))
  have hsize : 1 < st.scopes.size := by decide
  have hown₀ : st.ownBinding? 0 "x" = some .null := by rfl
  have hown₁ : st.ownBinding? 1 "x" = none := by rfl
  have hown₂ : st.ownBinding? 2 "x" = none := by rfl
  have hglobal : st.Binds 0 "x" 0 := (binds_iff_of_own hown₀).mpr rfl
  have hfirst : st.Binds 1 "x" 0 := (binds_iff_of_own_eq_none hown₁).mpr ⟨0, by rfl, hglobal⟩
  have hsecond : st.Binds 2 "x" 0 := (binds_iff_of_own_eq_none hown₂).mpr ⟨0, by rfl, hglobal⟩
  have hhidden : ¬st.Visible 2 1 "x" := by
    rw [visible_iff_of_ne (by decide)]
    rintro ⟨-, p, hp, hvisible⟩
    cases hp
    rw [visible_iff_of_ne (by decide), hown₀] at hvisible
    cases hvisible.1
  obtain ⟨hfails, -, -, hassign, hdefine⟩ := lexical_scoping hbuilt hsize "x" (.bool true)
  have htrue : (st.assign 1 "x" (.bool true)).1 = true := by
    rw [← Bool.not_eq_false, hfails]
    exact fun hnone => hnone ⟨0, hfirst⟩
  exact ⟨hbuilt, hsize, htrue, (hassign htrue 2 "x").1 ⟨rfl, 0, hfirst, hsecond⟩,
    (hdefine 1 "x").1 ⟨rfl, .refl st 1 "x"⟩, (hdefine 2 "x").2 fun h => hhidden h.2⟩

end StackMachine.Store
