import StackMachine.Library.Call
import StackMachine.Proofs.Store.Writes

/-!
# Objects of keys and values

The library makes an object of arguments that are keys and values in turn.  It refuses an odd
number of arguments and keys that are no texts (`Library.objectOf_fails_iff`); what the object holds
under a key is the last value that follows the key (`Library.get?_objectOf`).
-/

namespace StackMachine.Library

variable {args : List Value} {entries made : Table Value} {st : Store} {key : String} {v : Value}

/-- Arguments that are no keys and values in turn: there is an odd number of them, or something
    that is no text stands where a key should. -/
def Unpaired (args : List Value) : Prop :=
  args.length % 2 = 1 ∨ ∃ j v, args[2 * j]? = some v ∧ v.kind ≠ .text

/-- The value follows the key among keys and values in turn, and the key does not come again. -/
def LastPaired (args : List Value) (key : String) (v : Value) : Prop :=
  ∃ j, args[2 * j]? = some (.text key) ∧ args[2 * j + 1]? = some v ∧
    ∀ k, j < k → args[2 * k]? ≠ some (.text key)

/-- Keys and values in turn as pairs, as long as the keys are texts. -/
def pairs : List Value → List (String × Value)
  | .text key :: v :: rest => (key, v) :: pairs rest
  | _ => []

/-- The members of two lists in turn. -/
def interleave {α : Type} : List α → List α → List α
  | a :: as, b :: bs => a :: b :: interleave as bs
  | _, _ => []

/-! ## Writing pairs -/

/-- A list of two more has one more position for a key. -/
theorem exists_key_position_cons {a b : Value} {rest : List Value} {P : Value → Prop} :
    (∃ j v, (a :: b :: rest)[2 * j]? = some v ∧ P v) ↔
      P a ∨ ∃ j v, rest[2 * j]? = some v ∧ P v := by
  constructor
  · rintro ⟨j, v, hj, hv⟩
    cases j with
    | zero =>
      cases hj
      exact Or.inl hv
    | succ j => exact Or.inr ⟨j, v, hj, hv⟩
  · rintro (ha | ⟨j, v, hj, hv⟩)
    · exact ⟨0, a, rfl, ha⟩
    · exact ⟨j + 1, v, hj, hv⟩

theorem writePairs_fails_iff (entries : Table Value) (heven : args.length % 2 = 0) :
    (∃ w, writePairs entries args = .error w) ↔ ∃ j v, args[2 * j]? = some v ∧ v.kind ≠ .text := by
  fun_induction writePairs entries args with
  | case1 entries key v rest ih =>
    have hrest : rest.length % 2 = 0 := by
      rw [List.length_cons, List.length_cons] at heven
      omega
    rw [ih hrest, exists_key_position_cons]
    simp [Value.kind]
  | case2 entries w v rest hw =>
    rw [exists_key_position_cons]
    have hkind : w.kind ≠ .text := by
      cases w <;> simp_all [Value.kind]
    simp [hkind]
  | case3 args entries _ hshort =>
    -- Of an even number of arguments that are not two or more, there is none.
    match args with
    | [] => simp
    | [a] => simp at heven
    | a :: b :: rest => exact (hshort a b rest rfl).elim

/-- What is written are the pairs. -/
theorem writePairs_eq_ok (h : writePairs entries args = .ok made) :
    made = entries.insertAll (pairs args) := by
  fun_induction writePairs entries args with
  | case1 entries key v rest ih => exact ih h
  | case2 => cases h
  | case3 args entries hnone hshort =>
    cases h
    rw [pairs]
    · rfl
    · exact hnone

theorem mem_of_mem_pairs (h : (key, v) ∈ pairs args) : v ∈ args := by
  fun_induction pairs args with
  | case1 name w rest ih =>
    rcases List.mem_cons.mp h with heq | hmem
    · cases heq
      simp
    · exact List.mem_cons_of_mem _ (List.mem_cons_of_mem _ (ih hmem))
  | case2 => cases h

/-- The pairs, by position. -/
theorem getElem?_pairs (h : writePairs entries args = .ok made) (j : Nat) :
    (pairs args)[j]? = some (key, v) ↔
      args[2 * j]? = some (.text key) ∧ args[2 * j + 1]? = some v := by
  fun_induction writePairs entries args generalizing j with
  | case1 entries name w rest ih =>
    cases j with
    | zero => simp [pairs]
    | succ j => exact ih h j
  | case2 => cases h
  | case3 args entries hnone hshort =>
    match args with
    | [] => simp [pairs]
    | [a] => simp [pairs]
    | a :: b :: rest => exact (hshort a b rest rfl).elim

/-- In an even number of arguments each key has a value after it. -/
theorem exists_value (heven : args.length % 2 = 0) {k : Nat} {w : Value}
    (hk : args[2 * k]? = some w) : ∃ u, args[2 * k + 1]? = some u := by
  obtain ⟨hlt, -⟩ := List.getElem?_eq_some_iff.mp hk
  have hlt' : 2 * k + 1 < args.length := by omega
  exact ⟨_, List.getElem?_eq_getElem hlt'⟩

theorem getElem?_pairs_ne_iff (heven : args.length % 2 = 0)
    (h : writePairs entries args = .ok made) (j : Nat) :
    (∀ w, (pairs args)[j]? ≠ some (key, w)) ↔ args[2 * j]? ≠ some (.text key) := by
  simp only [ne_eq, getElem?_pairs h, not_and]
  refine ⟨fun hnone hj => ?_, fun hj w hj' => absurd hj' hj⟩
  obtain ⟨w, hw⟩ := exists_value heven hj
  exact hnone w hj hw

theorem lastWrite_pairs_iff (heven : args.length % 2 = 0)
    (h : writePairs entries args = .ok made) :
    LastWrite (pairs args) key v ↔ LastPaired args key v := by
  simp only [LastWrite, LastPaired, getElem?_pairs h, getElem?_pairs_ne_iff heven h, and_assoc]

theorem not_mem_pairs_iff (heven : args.length % 2 = 0)
    (h : writePairs entries args = .ok made) :
    (∀ w, (key, w) ∉ pairs args) ↔ ∀ j, args[2 * j]? ≠ some (.text key) := by
  simp only [← getElem?_pairs_ne_iff heven h, List.mem_iff_getElem?, not_exists]
  exact forall_comm

/-! ## The object -/

theorem writePairs_of_paired (h : ¬Unpaired args) (entries : Table Value) :
    args.length % 2 = 0 ∧ ∃ made, writePairs entries args = .ok made := by
  have heven : args.length % 2 = 0 := by
    have hodd := mt Or.inl h
    omega
  refine ⟨heven, ?_⟩
  cases hmade : writePairs entries args with
  | ok made => exact ⟨made, rfl⟩
  | error w => exact absurd (Or.inr ((writePairs_fails_iff entries heven).mp ⟨w, hmade⟩)) h

/-- The object is fresh, and the pairs are written to it after the link. -/
theorem objectOf_eq_ok (h : ¬Unpaired args) (st : Store) :
    objectOf args st = .ok (.object st.objects.size)
      (st.newObject ((Store.linkedTo Prototype.object.ref).insertAll (pairs args))).2 := by
  obtain ⟨heven, made, hmade⟩ := writePairs_of_paired h (Store.linkedTo Prototype.object.ref)
  have hodd : ¬args.length % 2 = 1 := by omega
  rw [objectOf, if_neg hodd, hmade, writePairs_eq_ok hmade]
  rfl

/-- An object is made of all arguments that are keys and values in turn, and of no others. -/
theorem objectOf_fails_iff :
    (∃ e t, objectOf args st = .error e t) ↔ Unpaired args := by
  constructor
  · rintro ⟨e, t, h⟩
    apply Classical.byContradiction
    intro hpaired
    rw [objectOf_eq_ok hpaired] at h
    cases h
  · intro h
    by_cases hodd : args.length % 2 = 1
    · rw [objectOf, if_pos hodd]
      exact ⟨_, _, rfl⟩
    · obtain ⟨w, hw⟩ := (writePairs_fails_iff (Store.linkedTo Prototype.object.ref)
        (Nat.mod_two_ne_one.mp hodd)).mpr (h.resolve_left hodd)
      rw [objectOf, if_neg hodd, hw]
      exact ⟨_, _, rfl⟩

/-- Under each key the object holds the last value that follows it, and the link where the
    arguments give none. -/
theorem get?_objectOf (h : ¬Unpaired args) (o : ObjectRef) (key : String) (v : Value) :
    ((Store.linkedTo o).insertAll (pairs args)).get? key = some v ↔
      LastPaired args key v ∨
        key = protoKey ∧ v = .object o ∧ ∀ j, args[2 * j]? ≠ some (.text key) := by
  obtain ⟨heven, made, hmade⟩ := writePairs_of_paired h (Store.linkedTo o)
  rw [Table.get?_insertAll, lastWrite_pairs_iff heven hmade, not_mem_pairs_iff heven hmade,
    Store.linkedTo, Table.get?_insert, Table.get?_empty]
  by_cases hkey : key = protoKey
  · simp [hkey, and_comm, eq_comm]
  · simp [hkey]

/-! ## Keys and values put together again -/

theorem writePairs_interleave (entries : Table Value) (keys : List String) (values : List Value) :
    writePairs entries (interleave (keys.map .text) values) =
      .ok (entries.insertAll (keys.zip values)) := by
  induction keys generalizing entries values with
  | nil => rfl
  | cons key keys ih =>
    cases values with
    | nil => rfl
    | cons v values => exact ih (entries.insert key v) values

theorem length_interleave_even {α : Type} (as bs : List α) :
    (interleave as bs).length % 2 = 0 := by
  induction as generalizing bs with
  | nil => rfl
  | cons a as ih =>
    cases bs with
    | nil => rfl
    | cons b bs =>
      have := ih bs
      rw [interleave, List.length_cons, List.length_cons]
      omega

theorem objectOf_interleave (keys : List String) (values : List Value) (st : Store) :
    objectOf (interleave (keys.map .text) values) st = .ok (.object st.objects.size)
      (st.newObject ((Store.linkedTo Prototype.object.ref).insertAll (keys.zip values))).2 := by
  have hodd : ¬(interleave (keys.map Value.text) values).length % 2 = 1 := by
    rw [length_interleave_even]
    decide
  rw [objectOf, if_neg hodd, writePairs_interleave]
  rfl

end StackMachine.Library
