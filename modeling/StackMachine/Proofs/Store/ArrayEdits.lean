import Mathlib.Data.List.Perm.Basic
import StackMachine.Library.Call
import StackMachine.Machine.Property
import StackMachine.Proofs.Binary64.Positions
import StackMachine.Proofs.Store.Cells

/-!
# Arrays as lists

The operations of an array are those of the list of its items, at the index that a position is
truncated to (`Store.ListLaws`); a position that is truncated to no index in range does nothing.  So
whatever is inserted, removed and pushed, no item is lost or made up (`Store.perm_editAll`).
`Store.arrays_as_lists` puts this together.
-/

namespace StackMachine

variable {items : Array Value} {st : Store} {r : ArrayRef} {x : Binary64} {v : Value} {n : ℕ}

/-! ## Items -/

namespace Items

theorem holds_iff : holds items x = true ↔ x.Within items.size := by
  unfold holds Binary64.Within
  cases hx : x.index? <;> simp [← Binary64.index?_eq_some_iff, hx]

theorem admits_iff : admits items x = true ↔ x.Within (items.size + 1) := by
  unfold admits Binary64.Within
  cases hx : x.index? <;> simp [← Binary64.index?_eq_some_iff, hx]

theorem get?_of_truncatesTo (h : x.TruncatesTo n) : get? items x = items.toList[n]? := by
  rw [get?, Binary64.index?_eq_some_iff.mpr h, Array.getElem?_toList]

theorem toList_set (h : x.TruncatesTo n) : (set items x v).toList = items.toList.set n v := by
  rw [set, Binary64.index?_eq_some_iff.mpr h, Array.toList_setIfInBounds]

theorem toList_insert (h : x.TruncatesTo n) :
    (insert items x v).toList = items.toList.insertIdx n v := by
  rw [insert, Binary64.index?_eq_some_iff.mpr h]
  exact congrArg Array.toList (List.insertIdxIfInBounds_toArray items.toList n v)

theorem toList_remove (h : x.TruncatesTo n) :
    (remove items x).toList = items.toList.eraseIdx n := by
  rw [remove, Binary64.index?_eq_some_iff.mpr h, Array.toList_eraseIdxIfInBounds]

theorem get?_outside (h : ¬x.Within items.size) : get? items x = none := by
  rcases Binary64.index?_of_not_within h with hx | ⟨n, hn, hle⟩
  · rw [get?, hx]
  · rw [get?_of_truncatesTo hn, List.getElem?_eq_none_iff]
    exact hle

theorem set_outside (h : ¬x.Within items.size) (v : Value) : set items x v = items := by
  rcases Binary64.index?_of_not_within h with hx | ⟨n, hn, hle⟩
  · rw [set, hx]
  · apply Array.toList_inj.mp
    rw [toList_set hn, List.set_eq_of_length_le hle]

theorem insert_outside (h : ¬x.Within (items.size + 1)) (v : Value) : insert items x v = items := by
  rcases Binary64.index?_of_not_within h with hx | ⟨n, hn, hle⟩
  · rw [insert, hx]
  · apply Array.toList_inj.mp
    rw [toList_insert hn, List.insertIdx_of_length_lt hle]

theorem remove_outside (h : ¬x.Within items.size) : remove items x = items := by
  rcases Binary64.index?_of_not_within h with hx | ⟨n, hn, hle⟩
  · rw [remove, hx]
  · apply Array.toList_inj.mp
    rw [toList_remove hn, List.eraseIdx_of_length_le hle]

end Items

namespace Store

/-! ## Arrays -/

theorem size_modifyArray (st : Store) (r : ArrayRef) (f : Array Value → Array Value) :
    (st.modifyArray r f).arrays.size = st.arrays.size := Array.size_modify

theorem items_modifyArray_self (hr : r < st.arrays.size) (f : Array Value → Array Value) :
    (st.modifyArray r f).items r = f (st.items r) := by
  rw [items_modifyArray, if_pos ⟨rfl, hr⟩]

/-- A change that leaves the items as they are leaves the store as it is. -/
theorem modifyArray_eq_self {f : Array Value → Array Value} (h : f (st.items r) = st.items r) :
    st.modifyArray r f = st := by
  have harrays : st.arrays.modify r f = st.arrays := by
    apply Array.ext_getElem?
    intro q
    rw [Array.getElem?_modify]
    by_cases heq : r = q
    · subst heq
      rw [if_pos rfl]
      cases hitems : st.arrays[r]? with
      | none => rfl
      | some items =>
        have hr : st.items r = items := by
          rw [Store.items, Array.getD_eq_getD_getElem?, hitems, Option.getD_some]
        rw [hr] at h
        rw [Option.map_some, h]
    · rw [if_neg heq]
  rw [modifyArray, harrays]

theorem modifyArray_modifyArray (st : Store) (r : ArrayRef) (f g : Array Value → Array Value) :
    (st.modifyArray r f).modifyArray r g = st.modifyArray r fun items => g (f items) := by
  have harrays : (st.arrays.modify r f).modify r g =
      st.arrays.modify r fun items => g (f items) := by
    apply Array.ext_getElem?
    intro q
    simp only [Array.getElem?_modify]
    split
    · rw [Option.map_map]
      rfl
    · rfl
  simp only [modifyArray, harrays]

/-! ## Laws -/

/-- The operations of an array at a position are those of the list `L` of its items at the index
    that the position truncates to, and where that is out of range they do nothing. -/
structure ListLaws (st : Store) (r : ArrayRef) (L : List Value) (x : Binary64) (v : Value) :
    Prop where
  get : ∀ (n : ℕ) (_ : x.TruncatesTo n) (h : n < L.length), st.arrayGet? r x = some L[n]
  get_outside : ¬x.Within L.length → st.arrayGet? r x = none
  set : ∀ n : ℕ, x.TruncatesTo n → n < L.length → (st.arraySet r x v).1 = true ∧
    ((st.arraySet r x v).2.items r).toList = L.set n v
  set_outside : ¬x.Within L.length → st.arraySet r x v = (false, st)
  insert : ∀ n : ℕ, x.TruncatesTo n → n ≤ L.length → (st.arrayInsert r x v).1 = true ∧
    ((st.arrayInsert r x v).2.items r).toList = L.take n ++ [v] ++ L.drop n
  insert_outside : ¬x.Within (L.length + 1) → st.arrayInsert r x v = (false, st)
  remove : ∀ (n : ℕ) (_ : x.TruncatesTo n) (h : n < L.length),
    (st.arrayRemove r x).1 = some L[n] ∧
      ((st.arrayRemove r x).2.items r).toList = L.take n ++ L.drop (n + 1)
  remove_outside : ¬x.Within L.length → st.arrayRemove r x = (none, st)
  push : ((st.arrayPush r v).items r).toList = L ++ [v]
  outside : x.rational? = none → ∀ bound, ¬x.Within bound

theorem listLaws (hr : r < st.arrays.size) (x : Binary64) (v : Value) :
    st.ListLaws r (st.items r).toList x v where
  get n hn h := by
    rw [arrayGet?, Items.get?_of_truncatesTo hn, List.getElem?_eq_getElem h]
  get_outside h := Items.get?_outside h
  set n hn h := by
    refine ⟨Items.holds_iff.mpr ⟨n, hn, h⟩, ?_⟩
    rw [arraySet, items_modifyArray_self hr, Items.toList_set hn]
  set_outside h := by
    have hholds : Items.holds (st.items r) x = false :=
      Bool.eq_false_iff.mpr (mt Items.holds_iff.mp h)
    rw [arraySet, hholds, modifyArray_eq_self (Items.set_outside h v)]
  insert n hn h := by
    refine ⟨Items.admits_iff.mpr ⟨n, hn, Nat.lt_succ_of_le h⟩, ?_⟩
    rw [arrayInsert, items_modifyArray_self hr, Items.toList_insert hn]
    obtain ⟨front, back, hitems, rfl, hinsert⟩ := List.exists_of_modifyTailIdx (List.cons v) h
    rw [hitems, List.take_left, List.drop_left, List.append_assoc, ← hitems]
    exact hinsert
  insert_outside h := by
    have hadmits : Items.admits (st.items r) x = false :=
      Bool.eq_false_iff.mpr (mt Items.admits_iff.mp h)
    rw [arrayInsert, hadmits, modifyArray_eq_self (Items.insert_outside h v)]
  remove n hn h := by
    refine ⟨?_, ?_⟩
    · rw [arrayRemove, Items.get?_of_truncatesTo hn, List.getElem?_eq_getElem h]
    · rw [arrayRemove, items_modifyArray_self hr, Items.toList_remove hn,
        List.eraseIdx_eq_take_drop_succ]
  remove_outside h := by
    rw [arrayRemove, modifyArray_eq_self (Items.remove_outside h), Items.get?_outside h]
  push := by
    rw [arrayPush, items_modifyArray_self hr, Array.toList_push]
  outside h _ := Binary64.not_within_of_rational?_eq_none h

/-- Indexing an array, assigning to it and calling its methods are the operations of the array. -/
structure ArrayCalls (st : Store) (r : ArrayRef) (x : Binary64) (v : Value) : Prop where
  get : st.property (.array r) (.number x) = .ok ((st.arrayGet? r x).getD .null)
  set : ∃ target, Target.of (.array r) (.number x) = .ok target ∧
    target.store st v = (st.arraySet r x v).2
  insert : Library.callBuiltin (.array r) [.number x, v] .insert st =
    .ok .null (st.arrayInsert r x v).2
  remove : Library.callBuiltin (.array r) [.number x] .remove st =
    .ok ((st.arrayRemove r x).1.getD .null) (st.arrayRemove r x).2
  push : ∃ size, Library.callBuiltin (.array r) [v] .push st = .ok size (st.arrayPush r v)

theorem arrayCalls (st : Store) (r : ArrayRef) (x : Binary64) (v : Value) :
    st.ArrayCalls r x v where
  get := rfl
  set := ⟨_, rfl, rfl⟩
  insert := rfl
  remove := rfl
  push := ⟨_, rfl⟩

/-! ## Edits -/

/-- What moves values into and out of an array. -/
inductive ArrayEdit
  | insert (position : Binary64) (v : Value)
  | remove (position : Binary64)
  | push (v : Value)
  deriving DecidableEq, Repr

/-- The store after edits of an array, the values that went into the array and those that the edits
    took out and gave. -/
structure Edited where
  store : Store
  added : List Value
  removed : List Value

/-- Edits an array.  A value that could not be inserted did not go into it. -/
def edit (st : Store) (r : ArrayRef) : ArrayEdit → Edited
  | .insert x v => match st.arrayInsert r x v with
    | (done, st) => ⟨st, if done then [v] else [], []⟩
  | .remove x => match st.arrayRemove r x with
    | (found, st) => ⟨st, [], found.toList⟩
  | .push v => ⟨st.arrayPush r v, [v], []⟩

/-- Edits an array time after time. -/
def editAll (st : Store) (r : ArrayRef) : List ArrayEdit → Edited
  | [] => ⟨st, [], []⟩
  | e :: edits =>
    let first := st.edit r e
    let rest := first.store.editAll r edits
    ⟨rest.store, first.added ++ rest.added, first.removed ++ rest.removed⟩

theorem size_edit (st : Store) (r : ArrayRef) (e : ArrayEdit) :
    (st.edit r e).store.arrays.size = st.arrays.size := by
  cases e <;> exact size_modifyArray st r _

/-- An edit loses no item and makes none up. -/
theorem perm_edit (hr : r < st.arrays.size) (e : ArrayEdit) :
    (((st.edit r e).store.items r).toList ++ (st.edit r e).removed).Perm
      ((st.items r).toList ++ (st.edit r e).added) := by
  cases e with
  | insert x v =>
    by_cases hx : x.Within ((st.items r).size + 1)
    · obtain ⟨n, hn, hlt⟩ := hx
      have hadmits := Items.admits_iff.mpr ⟨n, hn, hlt⟩
      simp only [edit, arrayInsert, items_modifyArray_self hr, Items.toList_insert hn, hadmits,
        if_true, List.append_nil]
      exact (List.perm_insertIdx v _ (Nat.le_of_lt_succ hlt)).trans
        (List.perm_append_singleton v _).symm
    · rw [edit, (listLaws hr x v).insert_outside hx]
      exact .refl _
  | remove x =>
    by_cases hx : x.Within (st.items r).size
    · obtain ⟨n, hn, hlt⟩ := hx
      have hfound : Items.get? (st.items r) x = some (st.items r).toList[n] := by
        rw [Items.get?_of_truncatesTo hn, List.getElem?_eq_getElem hlt]
      simp only [edit, arrayRemove, items_modifyArray_self hr, Items.toList_remove hn, hfound,
        Option.toList_some, List.append_nil]
      exact (List.perm_append_singleton _ _).trans (List.getElem_cons_eraseIdx_perm hlt)
    · rw [edit, (listLaws hr x .null).remove_outside hx]
      exact .refl _
  | push v =>
    simp only [edit, (listLaws hr default v).push, List.append_nil]
    exact .refl _

open List in
/-- Whatever is inserted, removed and pushed, no item is lost and none is made up. -/
theorem perm_editAll (hr : r < st.arrays.size) (edits : List ArrayEdit) :
    (((st.editAll r edits).store.items r).toList ++ (st.editAll r edits).removed).Perm
      ((st.items r).toList ++ (st.editAll r edits).added) := by
  induction edits generalizing st with
  | nil => exact .refl _
  | cons e edits ih =>
    have hr' : r < (st.edit r e).store.arrays.size := by rwa [size_edit]
    have hstep := perm_edit hr e
    have hrun := ih hr'
    rw [editAll]
    generalize st.edit r e = first at hstep hrun ⊢
    dsimp only
    generalize first.store.editAll r edits = rest at hrun ⊢
    -- What the first edit takes out is moved past what the others do, back to where it was.
    calc (rest.store.items r).toList ++ (first.removed ++ rest.removed)
      _ ~ first.removed ++ ((rest.store.items r).toList ++ rest.removed) :=
        List.perm_append_comm_assoc _ _ _
      _ ~ first.removed ++ ((first.store.items r).toList ++ rest.added) := hrun.append_left _
      _ = (first.removed ++ (first.store.items r).toList) ++ rest.added :=
        (List.append_assoc _ _ _).symm
      _ ~ ((first.store.items r).toList ++ first.removed) ++ rest.added :=
        List.perm_append_comm.append_right _
      _ ~ ((st.items r).toList ++ first.added) ++ rest.added := hstep.append_right _
      _ = (st.items r).toList ++ (first.added ++ rest.added) := List.append_assoc _ _ _

/-- What is inserted can be removed again, and nothing remains of it. -/
theorem arrayRemove_arrayInsert (hr : r < st.arrays.size) (h : (st.arrayInsert r x v).1 = true) :
    (st.arrayInsert r x v).2.arrayRemove r x = (some v, st) := by
  obtain ⟨n, hn, hlt⟩ := Items.admits_iff.mp h
  have hle : n ≤ (st.items r).toList.length := Nat.le_of_lt_succ hlt
  have hfound : Items.get? (Items.insert (st.items r) x v) x = some v := by
    rw [Items.get?_of_truncatesTo hn, Items.toList_insert hn, List.getElem?_insertIdx_self,
      if_pos hle]
  have hback : Items.remove (Items.insert (st.items r) x v) x = st.items r := by
    apply Array.toList_inj.mp
    rw [Items.toList_remove hn, Items.toList_insert hn, List.eraseIdx_insertIdx_self]
  rw [arrayRemove, arrayInsert, items_modifyArray_self hr, modifyArray_modifyArray, hfound,
    modifyArray_eq_self hback]

/-- The operations of an array are those of the list of its items at truncated positions, and do
    nothing at positions out of range, which those that are not finite always are.  What an array
    holds after any edits and what these took out of it is what it held before and what went into
    it.  A removal undoes an insertion at the same position. -/
theorem arrays_as_lists (hr : r < st.arrays.size) :
    (∀ x v, st.ArrayCalls r x v ∧ st.ListLaws r (st.items r).toList x v) ∧
    (∀ edits, (((st.editAll r edits).store.items r).toList ++ (st.editAll r edits).removed).Perm
      ((st.items r).toList ++ (st.editAll r edits).added)) ∧
    ∀ x v, (st.arrayInsert r x v).1 = true →
      (st.arrayInsert r x v).2.arrayRemove r x = (some v, st) :=
  ⟨fun x v => ⟨arrayCalls st r x v, listLaws hr x v⟩, perm_editAll hr,
    fun _ _ => arrayRemove_arrayInsert hr⟩

/-- Minus one half is a position, that of the first item. -/
theorem arrays_as_lists_minus_half :
    let st : Store := (Store.newArray default #[.text "a"]).2
    let x : Binary64 := ⟨0xBFE0000000000000⟩
    0 < st.arrays.size ∧ st.arrayGet? 0 x = some (.text "a") ∧
      ((st.arrayInsert 0 x .null).2.items 0).toList = [.null, .text "a"] ∧
      (st.arrayInsert 0 x .null).2.arrayRemove 0 x = (some .null, st) := by
  intro st x
  have hr : 0 < st.arrays.size := by decide
  have hx : x.TruncatesTo (0 : ℕ) := Binary64.truncatesTo_iff.mpr (by decide)
  obtain ⟨hlaws, -, hback⟩ := arrays_as_lists hr
  have hat := (hlaws x .null).2
  exact ⟨hr, hat.get 0 hx (by decide), (hat.insert 0 hx (by decide)).2,
    hback x .null (hat.insert 0 hx (by decide)).1⟩

end Store

end StackMachine
