import StackMachine.Store.Objects

/-!
# Prototype chains

The objects that can be reached from an object through prototype links form a sequence, which may
run into a cycle and then goes on for ever.  A lookup stops as soon as it would look at an object
again, and `Store.get?_nearest` says that nothing is lost by that: the value is that of the first
object in the sequence that has the key, and there is none only if no object of the sequence has
it.
-/

namespace StackMachine.Store

variable {st : Store} {o p : ObjectRef} {key : String} {v w : Value}

/-- The object that is `n` prototype links away, if the chain goes as far as that. -/
def linked? (st : Store) (o : ObjectRef) : Nat → Option ObjectRef
  | 0 => some o
  | n + 1 => (st.linked? o n).bind st.proto?

/-- The first object along the chain that has the key has this value there. -/
def Nearest (st : Store) (o : ObjectRef) (key : String) (v : Value) : Prop :=
  ∃ n p, st.linked? o n = some p ∧ st.own? p key = some v ∧
    ∀ m < n, ∀ q, st.linked? o m = some q → st.own? q key = none

/-- The chain followed link by link, without a look at where it has been, and what it ends with:
    the value of the first object that has the key, or nothing if the chain ends before. -/
inductive Walk (st : Store) (key : String) : ObjectRef → Option Value → Prop
  | found {o : ObjectRef} {v : Value} (hown : st.own? o key = some v) : Walk st key o (some v)
  | ends {o : ObjectRef} (hown : st.own? o key = none) (hproto : st.proto? o = none) :
      Walk st key o none
  | next {o p : ObjectRef} {r : Option Value} (hown : st.own? o key = none)
      (hproto : st.proto? o = some p) (h : Walk st key p r) : Walk st key o r

theorem linked?_succ_of_proto? (h : st.proto? o = some p) (n : Nat) :
    st.linked? o (n + 1) = st.linked? p n := by
  induction n with
  | zero => simp [linked?, h]
  | succ n ih => rw [linked?, ih, linked?]

theorem linked?_succ_of_proto?_eq_none (h : st.proto? o = none) (n : Nat) :
    st.linked? o (n + 1) = none := by
  induction n with
  | zero => simp [linked?, h]
  | succ n ih => rw [linked?, ih, Option.bind_none]

theorem Nearest.of_own? (h : st.own? o key = some v) : st.Nearest o key v := by
  refine ⟨0, o, rfl, h, ?_⟩
  intro m hm
  omega

theorem Nearest.of_proto? (hown : st.own? o key = none) (hproto : st.proto? o = some p)
    (h : st.Nearest p key v) : st.Nearest o key v := by
  obtain ⟨n, q, hq, hv, hbefore⟩ := h
  refine ⟨n + 1, q, by rw [linked?_succ_of_proto? hproto, hq], hv, ?_⟩
  intro m hm r hr
  cases m with
  | zero =>
    cases hr
    exact hown
  | succ m =>
    rw [linked?_succ_of_proto? hproto] at hr
    exact hbefore m (Nat.lt_of_succ_lt_succ hm) r hr

/-- No two values are nearest. -/
theorem Nearest.unique (hv : st.Nearest o key v) (hw : st.Nearest o key w) : v = w := by
  obtain ⟨n, p, hp, hpv, hbefore⟩ := hv
  obtain ⟨m, q, hq, hqw, hbefore'⟩ := hw
  rcases Nat.lt_trichotomy n m with hlt | heq | hgt
  · have hnone := hbefore' n hlt p hp
    rw [hpv] at hnone
    cases hnone
  · subst heq
    rw [hp] at hq
    cases hq
    rw [hpv] at hqw
    exact Option.some.inj hqw
  · have hnone := hbefore m hgt q hq
    rw [hqw] at hnone
    cases hnone

/-! ## Lookups -/

theorem nearest_of_chainGet? {visited : Std.TreeSet ObjectRef}
    (h : st.chainGet? key visited o = some v) : st.Nearest o key v := by
  fun_induction chainGet? st key visited o with
  | case1 => cases h
  | case2 visited o _ w hown =>
    cases h
    exact .of_own? hown
  | case3 visited o _ hown p hproto ih => exact .of_proto? hown hproto (ih h)
  | case4 => cases h

/-- Objects that were looked at before lack the key, and link to each other or to the object whose
    turn it is. -/
def Excluded (st : Store) (key : String) (visited : Std.TreeSet ObjectRef) (o : ObjectRef) :
    Prop :=
  ∀ q ∈ visited, st.own? q key = none ∧ ∀ p, st.proto? q = some p → p ∈ visited ∨ p = o

theorem Excluded.insert {visited : Std.TreeSet ObjectRef} (h : st.Excluded key visited o)
    (hown : st.own? o key = none) (hproto : st.proto? o = some p) :
    st.Excluded key (visited.insert o) p := by
  intro q hq
  simp only [Std.TreeSet.mem_insert, Std.LawfulEqOrd.compare_eq_iff_eq] at hq ⊢
  rcases hq with rfl | hq
  · refine ⟨hown, fun r hr => ?_⟩
    rw [hproto] at hr
    cases hr
    exact Or.inr rfl
  · obtain ⟨hnone, hlinks⟩ := h q hq
    refine ⟨hnone, fun r hr => ?_⟩
    rcases hlinks r hr with hmem | heq
    · exact Or.inl (Or.inr hmem)
    · exact Or.inl (Or.inl heq.symm)

/-- A chain that comes back to where it has been never leaves that again. -/
theorem Excluded.mem_of_linked? {visited : Std.TreeSet ObjectRef} (h : st.Excluded key visited o)
    (ho : o ∈ visited) (n : Nat) : ∀ q, st.linked? o n = some q → q ∈ visited := by
  induction n with
  | zero =>
    intro q hq
    cases hq
    exact ho
  | succ n ih =>
    intro q hq
    obtain ⟨r, hr, hproto⟩ := Option.bind_eq_some_iff.mp hq
    rcases (h r (ih r hr)).2 q hproto with hmem | heq
    · exact hmem
    · rw [heq]
      exact ho

/-- So where a lookup gives nothing, no object of the chain has the key. -/
theorem own?_of_chainGet? {visited : Std.TreeSet ObjectRef} (hvisited : st.Excluded key visited o)
    (h : st.chainGet? key visited o = none) (n : Nat) (q : ObjectRef)
    (hq : st.linked? o n = some q) : st.own? q key = none := by
  fun_induction chainGet? st key visited o generalizing n with
  | case1 visited o hseen => exact (hvisited q (hvisited.mem_of_linked? hseen n q hq)).1
  | case2 => cases h
  | case3 visited o _ hown p hproto ih =>
    cases n with
    | zero =>
      cases hq
      exact hown
    | succ n =>
      rw [linked?_succ_of_proto? hproto] at hq
      exact ih (hvisited.insert hown hproto) h n hq
  | case4 visited o _ hown hproto =>
    cases n with
    | zero =>
      cases hq
      exact hown
    | succ n =>
      rw [linked?_succ_of_proto?_eq_none hproto] at hq
      cases hq

theorem get?_eq_none_iff :
    st.get? o key = none ↔ ∀ n q, st.linked? o n = some q → st.own? q key = none := by
  constructor
  · intro h n q hq
    have hempty : st.Excluded key .empty o := by
      intro q hq
      simp at hq
    exact own?_of_chainGet? hempty h n q hq
  · intro hall
    cases h : st.get? o key with
    | none => rfl
    | some v =>
      obtain ⟨n, p, hp, hown, -⟩ := nearest_of_chainGet? h
      rw [hall n p hp] at hown
      cases hown

theorem get?_eq_some_iff : st.get? o key = some v ↔ st.Nearest o key v := by
  constructor
  · exact nearest_of_chainGet?
  · intro hnearest
    cases h : st.get? o key with
    | none =>
      obtain ⟨n, p, hp, hown, -⟩ := hnearest
      rw [get?_eq_none_iff.mp h n p hp] at hown
      cases hown
    | some w => rw [(nearest_of_chainGet? h).unique hnearest]

theorem get?_of_own? (h : st.own? o key = some v) : st.get? o key = some v :=
  get?_eq_some_iff.mpr (.of_own? h)

/-- What an object lacks is looked up in its prototype, also where the chain comes back to the
    object. -/
theorem get?_of_proto? (hown : st.own? o key = none) (hproto : st.proto? o = some p) :
    st.get? o key = st.get? p key := by
  cases h : st.get? p key with
  | some v => exact get?_eq_some_iff.mpr (.of_proto? hown hproto (get?_eq_some_iff.mp h))
  | none =>
    rw [get?_eq_none_iff] at h ⊢
    intro n q hq
    cases n with
    | zero =>
      cases hq
      exact hown
    | succ n =>
      rw [linked?_succ_of_proto? hproto] at hq
      exact h n q hq

theorem get?_of_proto?_eq_none (hown : st.own? o key = none) (hproto : st.proto? o = none) :
    st.get? o key = none := by
  rw [get?_eq_none_iff]
  intro n q hq
  cases n with
  | zero =>
    cases hq
    exact hown
  | succ n =>
    rw [linked?_succ_of_proto?_eq_none hproto] at hq
    cases hq

theorem Walk.get?_eq {r : Option Value} (h : st.Walk key o r) : st.get? o key = r := by
  induction h with
  | found hown => exact get?_of_own? hown
  | ends hown hproto => exact get?_of_proto?_eq_none hown hproto
  | next hown hproto _ ih => rw [get?_of_proto? hown hproto, ih]

/-- A lookup gives the value of the first object along the prototype chain that has the key, and
    nothing exactly if no object along the chain has it, whether or not the chain runs into a
    cycle.  So it agrees with the chain followed link by link wherever that comes to an end. -/
theorem get?_nearest (st : Store) (o : ObjectRef) (key : String) :
    (∀ v, st.get? o key = some v ↔ ∃ n p, st.linked? o n = some p ∧ st.own? p key = some v ∧
      ∀ m < n, ∀ q, st.linked? o m = some q → st.own? q key = none) ∧
    (st.get? o key = none ↔ ∀ n p, st.linked? o n = some p → st.own? p key = none) ∧
    ∀ r, st.Walk key o r → st.get? o key = r :=
  ⟨fun _ => get?_eq_some_iff, get?_eq_none_iff, fun _ => Walk.get?_eq⟩

/-- From the object 0 the chain runs into the cycle of 1 and 2: an entry of the cycle is found, and
    a key that is nowhere is not looked for without end. -/
theorem get?_nearest_cycle :
    let st : Store := { (default : Store) with
      objects := #[linkedTo 1, linkedTo 2, (linkedTo 1).insert "k" (.bool true)] }
    st.Walk "k" 0 (some (.bool true)) ∧ st.get? 0 "k" = some (.bool true) ∧
      st.get? 0 "x" = none := by
  intro st
  have hlink₀ : st.proto? 0 = some 1 := by
    simp [st, proto?, entries, Table.proto?, linkedTo]
  have hlink₁ : st.proto? 1 = some 2 := by
    simp [st, proto?, entries, Table.proto?, linkedTo]
  have hwalk : st.Walk "k" 0 (some (.bool true)) := by
    refine .next ?_ hlink₀ (.next ?_ hlink₁ (.found ?_))
    all_goals simp [st, own?, entries, linkedTo, protoKey]
  have habsent : ∀ p, st.own? p "x" = none := by
    intro p
    rcases p with _ | _ | _ | p
    all_goals simp [st, own?, entries, linkedTo, protoKey]
  exact ⟨hwalk, (get?_nearest st 0 "k").2.2 _ hwalk,
    (get?_nearest st 0 "x").2.1.mpr fun _ p _ => habsent p⟩

end StackMachine.Store
