import StackMachine.Store.Objects

/-!
# Tables written entry by entry

A table that was written to again and again holds under each key what was written there last
(`Table.get?_insertAll`).  What an object lists of its table depends on the values there alone
(`Table.properties_congr`).
-/

namespace StackMachine

variable {α : Type} {writes : List (String × α)} {key other : String} {a b : α}

/-- The last of the writes under the key is one of this value. -/
def LastWrite (writes : List (String × α)) (key : String) (a : α) : Prop :=
  ∃ j : Nat, writes[j]? = some (key, a) ∧ ∀ k, j < k → ∀ b, writes[k]? ≠ some (key, b)

theorem LastWrite.mem (h : LastWrite writes key a) : (key, a) ∈ writes := by
  obtain ⟨j, hj, -⟩ := h
  exact List.mem_of_getElem? hj

theorem not_lastWrite_nil : ¬LastWrite [] key a := fun h => List.not_mem_nil h.mem

/-- The first write is the last one if no other one has its key. -/
theorem lastWrite_cons_iff : LastWrite ((other, b) :: writes) key a ↔
    LastWrite writes key a ∨ (∀ c, (key, c) ∉ writes) ∧ other = key ∧ b = a := by
  constructor
  · rintro ⟨j, hj, hafter⟩
    cases j with
    | zero =>
      obtain ⟨rfl, rfl⟩ := Prod.mk.inj (Option.some.inj hj)
      refine Or.inr ⟨fun c hc => ?_, rfl, rfl⟩
      obtain ⟨k, hk⟩ := List.mem_iff_getElem?.mp hc
      exact hafter (k + 1) (Nat.succ_pos k) c hk
    | succ j => exact Or.inl ⟨j, hj, fun k hk => hafter (k + 1) (Nat.succ_lt_succ hk)⟩
  · rintro (⟨j, hj, hafter⟩ | ⟨hnone, rfl, rfl⟩)
    · refine ⟨j + 1, hj, fun k hk c hc => ?_⟩
      cases k with
      | zero => exact absurd hk (Nat.not_lt_zero _)
      | succ k => exact hafter k (Nat.lt_of_succ_lt_succ hk) c hc
    · refine ⟨0, rfl, fun k hk c hc => ?_⟩
      cases k with
      | zero => exact absurd hk (Nat.lt_irrefl 0)
      | succ k => exact hnone c (List.mem_of_getElem? hc)

/-- Where no two writes have the same key, each is the last under its key. -/
theorem lastWrite_iff_mem (h : writes.Pairwise fun a b => a.1 ≠ b.1) :
    LastWrite writes key a ↔ (key, a) ∈ writes := by
  refine ⟨LastWrite.mem, fun hmem => ?_⟩
  obtain ⟨j, hj⟩ := List.mem_iff_getElem?.mp hmem
  refine ⟨j, hj, fun k hk b hb => ?_⟩
  obtain ⟨hjlt, hj⟩ := List.getElem?_eq_some_iff.mp hj
  obtain ⟨hklt, hb⟩ := List.getElem?_eq_some_iff.mp hb
  apply List.pairwise_iff_getElem.mp h j k hjlt hklt hk
  rw [hj, hb]

namespace Table

/-- The table with entries written one after the other. -/
def insertAll (t : Table α) (writes : List (String × α)) : Table α :=
  writes.foldl (fun t (key, a) => t.insert key a) t

@[simp]
theorem insertAll_nil (t : Table α) : t.insertAll [] = t := rfl

@[simp]
theorem insertAll_cons (t : Table α) (key : String) (a : α) (writes : List (String × α)) :
    t.insertAll ((key, a) :: writes) = (t.insert key a).insertAll writes := rfl

theorem insertAll_append (t : Table α) (writes later : List (String × α)) :
    t.insertAll (writes ++ later) = (t.insertAll writes).insertAll later :=
  List.foldl_append

/-- What was written last under a key is read back, and what nothing was written to is as
    before. -/
theorem get?_insertAll (t : Table α) (writes : List (String × α)) (key : String) (a : α) :
    (t.insertAll writes).get? key = some a ↔
      LastWrite writes key a ∨ (∀ b, (key, b) ∉ writes) ∧ t.get? key = some a := by
  induction writes generalizing t with
  | nil => simp [not_lastWrite_nil]
  | cons w writes ih =>
    obtain ⟨other, b⟩ := w
    rw [insertAll_cons, ih, get?_insert, lastWrite_cons_iff]
    by_cases heq : key = other
    · subst heq
      have hwritten : ¬∀ c, (key, c) ∉ (key, b) :: writes := fun h => h b List.mem_cons_self
      simp only [hwritten, if_true, Option.some.injEq, true_and, false_and, or_false]
    · have hother : (∀ c, (key, c) ∉ (other, b) :: writes) ↔ ∀ c, (key, c) ∉ writes := by
        simp [heq]
      simp only [hother, if_neg heq, Ne.symm heq, false_and, and_false, or_false]

theorem get?_insertAll_empty :
    ((empty : Table α).insertAll writes).get? key = some a ↔ LastWrite writes key a := by
  simp [get?_insertAll]

/-- Nothing is read back under a key exactly if it was not written to and there was nothing. -/
theorem get?_insertAll_eq_none_iff (t : Table α) (writes : List (String × α)) (key : String) :
    (t.insertAll writes).get? key = none ↔ (∀ b, (key, b) ∉ writes) ∧ t.get? key = none := by
  induction writes generalizing t with
  | nil => simp
  | cons w writes ih =>
    obtain ⟨other, b⟩ := w
    rw [insertAll_cons, ih, get?_insert]
    by_cases heq : key = other
    · subst heq
      have hwritten : ¬∀ c, (key, c) ∉ (key, b) :: writes := fun h => h b List.mem_cons_self
      simp only [hwritten, if_true, reduceCtorEq, false_and, and_false]
    · simp [heq]

end Table

/-! ## Properties of an object -/

namespace Table

variable {s t : Table Value}

theorem mem_properties_iff (t : Table Value) (key : String) (item : Value) :
    (key, item) ∈ t.properties ↔ key ≠ protoKey ∧ t.get? key = some item := by
  simp [properties, mem_entries_iff, and_comm]

theorem pairwise_properties (t : Table Value) : t.properties.Pairwise fun a b => a.1 < b.1 :=
  t.pairwise_entries.filter _

/-- Entries in the order of their keys are determined by which entries they are. -/
theorem eq_of_ascending {entries others : List (String × Value)}
    (hentries : entries.Pairwise fun a b => a.1 < b.1)
    (hothers : others.Pairwise fun a b => a.1 < b.1)
    (h : ∀ key item, (key, item) ∈ entries ↔ (key, item) ∈ others) : entries = others := by
  have hnodup : ∀ {list : List (String × Value)},
      (list.Pairwise fun a b => a.1 < b.1) → list.Nodup := by
    intro list hlist
    refine hlist.imp ?_
    rintro a b hlt rfl
    exact String.lt_irrefl _ hlt
  refine List.Perm.eq_of_pairwise (fun a b _ _ hab hba => absurd hba (String.lt_asymm hab))
    hentries hothers ?_
  exact (List.perm_ext_iff_of_nodup (hnodup hentries) (hnodup hothers)).mpr
    fun ⟨key, item⟩ => h key item

/-- Tables that differ in the prototype link at most list the same properties. -/
theorem properties_congr (h : ∀ key, key ≠ protoKey → s.get? key = t.get? key) :
    s.properties = t.properties := by
  refine eq_of_ascending s.pairwise_properties t.pairwise_properties fun key item => ?_
  rw [mem_properties_iff, mem_properties_iff]
  exact and_congr_right fun hkey => by rw [h key hkey]

end Table

end StackMachine
