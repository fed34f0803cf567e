import StackMachine.Proofs.Store.Prototypes
import StackMachine.Proofs.Store.Scoping
import StackMachine.Store.Arrays

/-!
# What a store holds

The values that scopes bind, arrays contain and objects have as entries are held by the store.
What a read gives was held before (`Store.holds_of_lookup?`, `Store.holds_of_get?`,
`Store.holds_of_arrayGet?`), and after a write nothing else is held than before and the value
written.
-/

namespace StackMachine

/-! ## Items -/

namespace Items

variable {items : Array Value} {position : Binary64} {v w : Value}

theorem mem_of_get? (h : get? items position = some v) : v ∈ items := by
  unfold get? at h
  split at h
  · exact Array.mem_of_getElem? h
  · cases h

theorem mem_of_mem_set (h : w ∈ set items position v) : w ∈ items ∨ w = v := by
  unfold set at h
  split at h
  · exact Array.mem_or_eq_of_mem_setIfInBounds h
  · exact Or.inl h

theorem mem_of_mem_insert (h : w ∈ insert items position v) : w ∈ items ∨ w = v := by
  unfold insert Array.insertIdxIfInBounds at h
  split at h
  · split at h
    · exact (Array.mem_insertIdx.mp h).symm
    · exact Or.inl h
  · exact Or.inl h

theorem mem_of_mem_remove (h : w ∈ remove items position) : w ∈ items := by
  unfold remove Array.eraseIdxIfInBounds at h
  split at h
  · split at h
    · exact Array.mem_of_mem_eraseIdx h
    · exact h
  · exact h

end Items

namespace Store

variable {st st' : Store} {v w : Value} {given : List Value}

/-- The value is bound in a scope, an item of an array or under a key of an object. -/
inductive Holds (st : Store) (v : Value) : Prop
  | binding {r : ScopeRef} {name : String} (h : st.ownBinding? r name = some v) : Holds st v
  | item {r : ArrayRef} (h : v ∈ st.items r) : Holds st v
  | entry {o : ObjectRef} {key : String} (h : st.own? o key = some v) : Holds st v

/-- If the value is a closure, it is one of the given values or held by the store. -/
def Known (st : Store) (given : List Value) (v : Value) : Prop :=
  ∀ c, v = .closure c → v ∈ given ∨ st.Holds v

theorem known_of_mem (h : v ∈ given) : st.Known given v := fun _ _ => Or.inl h

theorem known_of_holds (h : st.Holds v) : st.Known given v := fun _ _ => Or.inr h

theorem known_of_ne_closure (h : ∀ c, v ≠ .closure c) : st.Known given v :=
  fun c hc => absurd hc (h c)

theorem known_getD (o : Option Value) (h : ∀ v, o = some v → st.Known given v) :
    st.Known given (o.getD .null) := by
  cases o with
  | none => exact known_of_ne_closure nofun
  | some v => exact h v rfl

/-! ## Reads -/

theorem holds_of_lookup? {s : ScopeRef} {name : String} (h : st.lookup? s name = some v) :
    st.Holds v := by
  fun_induction lookup? st s name with
  | case1 s w hown =>
    cases h
    exact .binding hown
  | case2 s hown p hp hlt ih => exact ih h
  | case3 => cases h
  | case4 => cases h

theorem holds_of_get? {o : ObjectRef} {key : String} (h : st.get? o key = some v) :
    st.Holds v := by
  obtain ⟨n, p, -, hown, -⟩ := get?_eq_some_iff.mp h
  exact .entry hown

theorem holds_of_arrayGet? {r : ArrayRef} {position : Binary64}
    (h : st.arrayGet? r position = some v) : st.Holds v :=
  .item (Items.mem_of_get? h)

theorem holds_of_entries {o : ObjectRef} {key : String}
    (h : (st.entries o).get? key = some v) : st.Holds v := .entry h

/-! ## Writes -/

theorem Holds.congr (h : st'.Holds w) (hscopes : st'.scopes = st.scopes)
    (harrays : st'.arrays = st.arrays) (hobjects : st'.objects = st.objects) : st.Holds w := by
  cases h with
  | @binding r name h =>
    have hown : st.ownBinding? r name = some w := by
      rw [ownBinding?, ← hscopes]
      exact h
    exact .binding hown
  | @item r h =>
    have hitems : w ∈ st.items r := by
      rw [items, ← harrays]
      exact h
    exact .item hitems
  | @entry o key h =>
    have hown : st.own? o key = some w := by
      rw [own?, entries, ← hobjects]
      exact h
    exact .entry hown

theorem holds_of_define {s : ScopeRef} {name : String} (h : (st.define s name v).Holds w) :
    st.Holds w ∨ w = v := by
  cases h with
  | @binding r other h =>
    by_cases hr : r = s
    · subst hr
      by_cases hother : other = name
      · subst hother
        have hlt : r < st.scopes.size := by
          have hsize := lt_size_of_own (Option.isSome_of_eq_some h)
          rwa [define, Array.size_modify] at hsize
        rw [ownBinding?_define_self hlt] at h
        exact Or.inr (Option.some.inj h).symm
      · rw [ownBinding?_define_of_ne (Or.inr hother)] at h
        exact Or.inl (.binding h)
    · rw [ownBinding?_define_of_ne (Or.inl hr)] at h
      exact Or.inl (.binding h)
  | item h => exact Or.inl (.item h)
  | entry h => exact Or.inl (.entry h)

/-- The store with names bound in a scope, one after the other. -/
def defineAll (st : Store) (s : ScopeRef) (bound : List (String × Value)) : Store :=
  bound.foldl (fun st (name, v) => st.define s name v) st

theorem closures_defineAll (st : Store) (s : ScopeRef) (bound : List (String × Value)) :
    (st.defineAll s bound).closures = st.closures := by
  induction bound generalizing st with
  | nil => rfl
  | cons b bound ih => exact ih (st.define s b.1 b.2)

theorem holds_of_defineAll {s : ScopeRef} {bound : List (String × Value)}
    (h : (st.defineAll s bound).Holds w) : st.Holds w ∨ ∃ name, (name, w) ∈ bound := by
  induction bound generalizing st with
  | nil => exact Or.inl h
  | cons b bound ih =>
    rcases ih h with hw | ⟨name, hmem⟩
    · rcases holds_of_define hw with hw | rfl
      · exact Or.inl hw
      · exact Or.inr ⟨b.1, List.mem_cons_self⟩
    · exact Or.inr ⟨name, List.mem_cons_of_mem _ hmem⟩

theorem ownBinding?_newScope (st : Store) (parent : Option ScopeRef) (s : ScopeRef)
    (name : String) : (st.newScope parent).2.ownBinding? s name = st.ownBinding? s name := by
  rw [ownBinding?, ownBinding?, newScope, Array.getElem?_push]
  by_cases heq : s = st.scopes.size
  · rw [if_pos heq, heq, Array.getElem?_eq_none (Nat.le_refl _)]
    exact Table.get?_empty name
  · rw [if_neg heq]

theorem holds_of_newScope {parent : Option ScopeRef} (h : (st.newScope parent).2.Holds w) :
    st.Holds w := by
  cases h with
  | binding h =>
    rw [ownBinding?_newScope] at h
    exact .binding h
  | item h => exact .item h
  | entry h => exact .entry h

theorem holds_of_newArray {items : Array Value} (h : (st.newArray items).2.Holds w) :
    st.Holds w ∨ w ∈ items := by
  cases h with
  | binding h => exact Or.inl (.binding h)
  | @item r h =>
    simp only [Store.items, newArray, Array.getD_eq_getD_getElem?, Array.getElem?_push] at h
    by_cases heq : r = st.arrays.size
    · rw [if_pos heq] at h
      exact Or.inr h
    · rw [if_neg heq, ← Array.getD_eq_getD_getElem?] at h
      exact Or.inl (.item h)
  | entry h => exact Or.inl (.entry h)

theorem holds_of_newObject {entries : Table Value} (h : (st.newObject entries).2.Holds w) :
    st.Holds w ∨ ∃ key, entries.get? key = some w := by
  cases h with
  | binding h => exact Or.inl (.binding h)
  | item h => exact Or.inl (.item h)
  | @entry o key h =>
    simp only [own?, Store.entries, newObject, Array.getD_eq_getD_getElem?,
      Array.getElem?_push] at h
    by_cases heq : o = st.objects.size
    · rw [if_pos heq] at h
      exact Or.inr ⟨key, h⟩
    · rw [if_neg heq, ← Array.getD_eq_getD_getElem?] at h
      exact Or.inl (.entry h)

theorem holds_of_modifyArray {r : ArrayRef} {f : Array Value → Array Value}
    (h : (st.modifyArray r f).Holds w) : st.Holds w ∨ w ∈ f (st.items r) := by
  cases h with
  | binding h => exact Or.inl (.binding h)
  | @item q h =>
    simp only [Store.items, modifyArray, Array.getD_eq_getD_getElem?, Array.getElem?_modify] at h
    by_cases heq : r = q
    · subst heq
      rw [if_pos rfl] at h
      cases hr : st.arrays[r]? with
      | none =>
        rw [hr] at h
        simp at h
      | some items =>
        rw [hr] at h
        refine Or.inr ?_
        rw [Store.items, Array.getD_eq_getD_getElem?, hr]
        exact h
    · rw [if_neg heq, ← Array.getD_eq_getD_getElem?] at h
      exact Or.inl (.item h)
  | entry h => exact Or.inl (.entry h)

theorem holds_of_set {o : ObjectRef} {key : String} (h : (st.set o key v).Holds w) :
    st.Holds w ∨ w = v := by
  cases h with
  | binding h => exact Or.inl (.binding h)
  | item h => exact Or.inl (.item h)
  | @entry p k h =>
    simp only [own?, Store.entries, set, Array.getD_eq_getD_getElem?, Array.getElem?_modify] at h
    by_cases heq : o = p
    · subst heq
      rw [if_pos rfl] at h
      cases ho : st.objects[o]? with
      | none =>
        rw [ho] at h
        simp at h
      | some entries =>
        rw [ho, Option.map_some, Option.getD_some, Table.get?_insert] at h
        split at h
        · exact Or.inr (Option.some.inj h).symm
        · have hown : st.own? o k = some w := by
            rw [own?, Store.entries, Array.getD_eq_getD_getElem?, ho]
            exact h
          exact Or.inl (.entry hown)
    · rw [if_neg heq, ← Array.getD_eq_getD_getElem?] at h
      exact Or.inl (.entry h)

end Store

end StackMachine
