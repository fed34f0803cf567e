import StackMachine.Proofs.Library.Failure
import StackMachine.Proofs.Store.Holding
import StackMachine.Proofs.Store.Writes

/-!
# Cells of a store

A cell is a place of the store that holds a value: a name in a scope, a key in an object or an index
in an array.  Here is what each write does to the cells, and `Store.KeptBut`, which says that
nothing was written outside a set of cells.
-/

namespace StackMachine

/-- A place that holds a value. -/
inductive Cell
  | binding (r : ScopeRef) (name : String)
  | entry (o : ObjectRef) (key : String)
  | item (r : ArrayRef) (n : Nat)
  deriving DecidableEq, Repr

namespace Cell

/-- The store has the scope, the object or the array of the cell. -/
def In (st : Store) : Cell → Prop
  | .binding r _ => r < st.scopes.size
  | .entry o _ => o < st.objects.size
  | .item r _ => r < st.arrays.size

/-- The value in a cell. -/
def value? (st : Store) : Cell → Option Value
  | .binding r name => st.ownBinding? r name
  | .entry o key => st.own? o key
  | .item r n => (st.items r)[n]?

end Cell

namespace Store

variable {st st' : Store} {W : Cell → Prop} {o p : ObjectRef} {r q : ArrayRef}
  {key other : String} {v : Value}

/-! ## Objects -/

theorem entries_set (st : Store) (o p : ObjectRef) (key : String) (v : Value) :
    (st.set o key v).entries p =
      if o = p ∧ o < st.objects.size then (st.entries p).insert key v else st.entries p := by
  simp only [entries, set, Array.getD_eq_getD_getElem?, Array.getElem?_modify]
  by_cases heq : o = p
  · subst heq
    by_cases hlt : o < st.objects.size <;> simp [hlt]
  · simp [heq]

theorem own?_set_self (ho : o < st.objects.size) (key : String) (v : Value) :
    (st.set o key v).own? o key = some v := by
  simp [own?, entries_set, ho]

theorem own?_set_of_ne (h : p ≠ o ∨ other ≠ key) (v : Value) :
    (st.set o key v).own? p other = st.own? p other := by
  rw [own?, entries_set]
  split
  · rename_i heq
    have hother : other ≠ key := h.resolve_left fun hne => hne heq.1.symm
    simp [own?, hother]
  · rfl

theorem entries_newObject (st : Store) (made : Table Value) (o : ObjectRef) :
    (st.newObject made).2.entries o = if o = st.objects.size then made else st.entries o := by
  simp only [entries, newObject, Array.getD_eq_getD_getElem?, Array.getElem?_push]
  by_cases heq : o = st.objects.size
  · rw [if_pos heq, if_pos heq]
    rfl
  · rw [if_neg heq, if_neg heq]

theorem own?_newObject (ho : o < st.objects.size) (made : Table Value) (key : String) :
    (st.newObject made).2.own? o key = st.own? o key := by
  rw [own?, entries_newObject, if_neg (Nat.ne_of_lt ho)]
  rfl

/-! ## Arrays -/

theorem items_modifyArray (st : Store) (r q : ArrayRef) (f : Array Value → Array Value) :
    (st.modifyArray r f).items q =
      if r = q ∧ r < st.arrays.size then f (st.items q) else st.items q := by
  simp only [items, modifyArray, Array.getD_eq_getD_getElem?, Array.getElem?_modify]
  by_cases heq : r = q
  · subst heq
    by_cases hlt : r < st.arrays.size <;> simp [hlt]
  · simp [heq]

theorem items_modifyArray_of_ne (h : q ≠ r) (f : Array Value → Array Value) :
    (st.modifyArray r f).items q = st.items q := by
  simp [items_modifyArray, h.symm]

theorem items_newArray (hr : r < st.arrays.size) (items : Array Value) :
    (st.newArray items).2.items r = st.items r := by
  have hne : r ≠ st.arrays.size := Nat.ne_of_lt hr
  simp [Store.items, newArray, Array.getD_eq_getD_getElem?, Array.getElem?_push, hne]

theorem items_newArray_self (st : Store) (items : Array Value) :
    (st.newArray items).2.items st.arrays.size = items := by
  simp [Store.items, newArray]

/-! ## Writes to a set of cells -/

/-- The scopes, objects and arrays of `st` are in `st'`, each scope inside the same one, and all
    their cells but those of `W` hold what they held. -/
structure KeptBut (W : Cell → Prop) (st st' : Store) : Prop where
  cells : ∀ c : Cell, c.In st → c.In st'
  values : ∀ c : Cell, c.In st → ¬W c → c.value? st' = c.value? st
  links : ∀ r < st.scopes.size, st'.enclosing? r = st.enclosing? r

theorem KeptBut.of_eq (hscopes : st'.scopes = st.scopes) (hobjects : st'.objects = st.objects)
    (harrays : st'.arrays = st.arrays) : st.KeptBut W st' where
  cells c hc := by
    cases c <;> simpa [Cell.In, hscopes, hobjects, harrays] using hc
  values c _ _ := by
    cases c <;> simp [Cell.value?, ownBinding?, own?, entries, items, hscopes, hobjects, harrays]
  links r _ := by simp [enclosing?, hscopes]

/-- Where contents are kept, all cells are. -/
theorem Kept.keptBut (h : st.Kept st') : st.KeptBut W st' where
  cells c hc := by
    cases c with
    | binding r name =>
      exact (Array.getElem?_eq_some_iff.mp (h.scopes r _ (Array.getElem?_eq_getElem hc))).1
    | entry o key =>
      exact (Array.getElem?_eq_some_iff.mp (h.objects o _ (Array.getElem?_eq_getElem hc))).1
    | item r n =>
      exact (Array.getElem?_eq_some_iff.mp (h.arrays r _ (Array.getElem?_eq_getElem hc))).1
  values c hc _ := by
    cases c with
    | binding r name =>
      have hr := Array.getElem?_eq_getElem hc
      simp [Cell.value?, ownBinding?, h.scopes r _ hr, hr]
    | entry o key =>
      have ho := Array.getElem?_eq_getElem hc
      simp [Cell.value?, own?, entries, Array.getD_eq_getD_getElem?, h.objects o _ ho, ho]
    | item r n =>
      have hr := Array.getElem?_eq_getElem hc
      simp [Cell.value?, items, Array.getD_eq_getD_getElem?, h.arrays r _ hr, hr]
  links r hr := by
    have hscope := Array.getElem?_eq_getElem hr
    simp [enclosing?, h.scopes r _ hscope, hscope]

theorem keptBut_define {s : ScopeRef} {name : String} (hW : W (.binding s name)) (v : Value) :
    st.KeptBut W (st.define s name v) where
  cells c hc := by
    cases c <;> simpa [Cell.In, define] using hc
  values c _ hnot := by
    cases c with
    | binding r other =>
      apply ownBinding?_define_of_ne
      apply Classical.not_and_iff_not_or_not.mp
      rintro ⟨rfl, rfl⟩
      exact hnot hW
    | entry o key => rfl
    | item r n => rfl
  links r _ := enclosing?_define st s r name v

theorem keptBut_set (hW : W (.entry o key)) (v : Value) : st.KeptBut W (st.set o key v) where
  cells c hc := by
    cases c <;> simpa [Cell.In, set] using hc
  values c _ hnot := by
    cases c with
    | entry p other =>
      apply own?_set_of_ne
      apply Classical.not_and_iff_not_or_not.mp
      rintro ⟨rfl, rfl⟩
      exact hnot hW
    | binding r name => rfl
    | item r n => rfl
  links r _ := rfl

theorem keptBut_modifyArray {f : Array Value → Array Value}
    (hW : ∀ n, (f (st.items r))[n]? ≠ (st.items r)[n]? → W (.item r n)) :
    st.KeptBut W (st.modifyArray r f) where
  cells c hc := by
    cases c <;> simpa [Cell.In, modifyArray] using hc
  values c _ hnot := by
    cases c with
    | item q n =>
      by_cases heq : q = r
      · subst heq
        simp only [Cell.value?, items_modifyArray]
        split
        · apply Decidable.of_not_not
          intro hchanged
          exact hnot (hW n hchanged)
        · rfl
      · simp [Cell.value?, items_modifyArray_of_ne heq]
    | binding r name => rfl
    | entry o key => rfl
  links r _ := rfl

/-! ## Fresh containers -/

/-- The store with one more scope. -/
def pushScope (st : Store) (scope : Scope) : Store := { st with scopes := st.scopes.push scope }

/-- A name bound in the newest scope. -/
theorem define_pushScope (st : Store) (scope : Scope) (name : String) (v : Value) :
    (st.pushScope scope).define st.scopes.size name v =
      st.pushScope { scope with bindings := scope.bindings.insert name v } := by
  have hscopes : (st.scopes.push scope).modify st.scopes.size
      (fun scope => { scope with bindings := scope.bindings.insert name v }) =
        st.scopes.push { scope with bindings := scope.bindings.insert name v } := by
    apply Array.ext_getElem?
    intro r
    rw [Array.getElem?_modify, Array.getElem?_push, Array.getElem?_push]
    by_cases heq : r = st.scopes.size
    · simp [heq]
    · simp [heq, Ne.symm heq]
  simp only [pushScope, define, hscopes]

/-- Names bound in the newest scope, one after the other. -/
theorem defineAll_pushScope (st : Store) (scope : Scope) (bound : List (String × Value)) :
    (st.pushScope scope).defineAll st.scopes.size bound =
      st.pushScope { scope with bindings := scope.bindings.insertAll bound } := by
  induction bound generalizing scope with
  | nil => rfl
  | cons b bound ih =>
    obtain ⟨name, v⟩ := b
    rw [defineAll, List.foldl_cons]
    dsimp only
    rw [define_pushScope]
    exact ih _

/-- Whatever is bound in a fresh scope, there is one more scope and nothing else. -/
theorem defineAll_newScope (st : Store) (parent : Option ScopeRef) (bound : List (String × Value)) :
    (st.newScope parent).2.defineAll st.scopes.size bound =
      st.pushScope ⟨parent, Table.empty.insertAll bound⟩ :=
  defineAll_pushScope st ⟨parent, .empty⟩ bound

theorem keptBut_pushScope (st : Store) (scope : Scope) : st.KeptBut W (st.pushScope scope) where
  cells c hc := by
    cases c with
    | binding r name => exact Nat.lt_of_lt_of_le hc (by simp [pushScope])
    | entry o key => exact hc
    | item r n => exact hc
  values c hc _ := by
    cases c with
    | binding r name =>
      have hne : r ≠ st.scopes.size := Nat.ne_of_lt hc
      simp [Cell.value?, ownBinding?, pushScope, Array.getElem?_push, hne]
    | entry o key => rfl
    | item r n => rfl
  links r hr := by
    have hne : r ≠ st.scopes.size := Nat.ne_of_lt hr
    simp [enclosing?, pushScope, Array.getElem?_push, hne]

theorem keptBut_newArray (st : Store) (items : Array Value) :
    st.KeptBut W (st.newArray items).2 where
  cells c hc := by
    cases c with
    | item r n => exact Nat.lt_of_lt_of_le hc (by simp [newArray])
    | binding r name => exact hc
    | entry o key => exact hc
  values c hc _ := by
    cases c with
    | item r n => simp [Cell.value?, items_newArray hc]
    | binding r name => rfl
    | entry o key => rfl
  links r _ := rfl

theorem keptBut_newObject (st : Store) (entries : Table Value) :
    st.KeptBut W (st.newObject entries).2 where
  cells c hc := by
    cases c with
    | entry o key => exact Nat.lt_of_lt_of_le hc (by simp [newObject])
    | binding r name => exact hc
    | item r n => exact hc
  values c hc _ := by
    cases c with
    | entry o key => exact own?_newObject hc entries key
    | binding r name => rfl
    | item r n => rfl
  links r _ := rfl

end Store

end StackMachine
