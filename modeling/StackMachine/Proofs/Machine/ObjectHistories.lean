import Mathlib.Logic.Function.Basic
import StackMachine.Proofs.Library.Pairs
import StackMachine.Proofs.Machine.EntryWrite
import StackMachine.Proofs.Text.ByteOrder

/-!
# Histories of objects

An object is written to by the machine and by the host, is made by the library of pairs or is a copy
of another one.  However it came about, `Store.sorted_maps` says that it is a sorted map: it holds
what was written last under each key, and lists its keys in the order of their bytes.
-/

namespace StackMachine.Store

variable {st st' : Store} {writes : ObjectRef → List (String × Value)} {o : ObjectRef}
  {key : String} {v : Value}

/-- The objects of the store were made and written to one operation after the other, from a store
    that had none, and `writes` tells what was written to each, in order.  What was written to an
    object before it was copied counts for the copy as well. -/
inductive Written : Store → (ObjectRef → List (String × Value)) → Prop
  | start {st : Store} (h : st.objects = #[]) : Written st fun _ => []
  /-- The host makes an object without entries. -/
  | creates {st : Store} {writes} (h : Written st writes) :
      Written (st.newObject .empty).2 (Function.update writes st.objects.size [])
  /-- The host or the library makes an object with a link. -/
  | links {st : Store} {writes} (h : Written st writes) (p : ObjectRef) :
      Written (st.newObject (linkedTo p)).2
        (Function.update writes st.objects.size [(protoKey, .object p)])
  /-- The library makes an object of pairs. -/
  | pairs {st st' : Store} {writes} {site : Value} {args : List Value} {o : ObjectRef}
      (h : Written st writes)
      (hcall : Library.callBuiltin site args .objectOf st = .ok (.object o) st') :
      Written st' (Function.update writes o
        ((protoKey, .object Prototype.object.ref) :: Library.pairs args))
  /-- The library copies an object. -/
  | copies {st st' : Store} {writes} {source o : ObjectRef} {args : List Value}
      (h : Written st writes)
      (hcall : Library.callBuiltin (.object source) args .copy st = .ok (.object o) st') :
      Written st' (Function.update writes o (writes source))
  /-- The host writes an entry. -/
  | host_sets {st : Store} {writes} {o : ObjectRef} (h : Written st writes)
      (ho : o < st.objects.size) (key : String) (v : Value) :
      Written (st.set o key v) (Function.update writes o (writes o ++ [(key, v)]))
  /-- An instruction writes an entry. -/
  | sets {p : Program} {cfg : Settings} {i : Instruction} {s t : State} {flow : Flow} {writes}
      {o : ObjectRef} {key : String} {v : Value} {rest : Stack Value} (h : Written s.store writes)
      (hop : i.op = .set) (htop : s.operands.topDown = v :: .text key :: .object o :: rest.topDown)
      (ho : o < s.store.objects.size) (hstep : Exec.instruction p cfg i s = .ok flow t) :
      Written t.store (Function.update writes o (writes o ++ [(key, v)]))
  /-- Something else changes. -/
  | elsewhere {st st' : Store} {writes} (h : Written st writes)
      (hobjects : st'.objects = st.objects) : Written st' writes

theorem entries_newObject_of_written (h : ∀ o, st.entries o = Table.empty.insertAll (writes o))
    {made : Table Value} {history : List (String × Value)}
    (hmade : made = Table.empty.insertAll history) (o : ObjectRef) :
    (st.newObject made).2.entries o =
      Table.empty.insertAll (Function.update writes st.objects.size history o) := by
  rw [entries_newObject, Function.update_apply]
  split
  · exact hmade
  · exact h o

theorem entries_set_of_written (h : ∀ o, st.entries o = Table.empty.insertAll (writes o))
    (ho : o < st.objects.size) (key : String) (v : Value) (p : ObjectRef) :
    (st.set o key v).entries p =
      Table.empty.insertAll (Function.update writes o (writes o ++ [(key, v)]) p) := by
  rw [entries_set, Function.update_apply]
  by_cases hp : p = o
  · subst hp
    rw [if_pos ⟨rfl, ho⟩, if_pos rfl, Table.insertAll_append, h p]
    rfl
  · rw [if_neg fun heq => hp heq.1.symm, if_neg hp, h p]

/-- An object holds what was written to it, entry by entry. -/
theorem Written.entries_eq (h : st.Written writes) (o : ObjectRef) :
    st.entries o = Table.empty.insertAll (writes o) := by
  induction h generalizing o with
  | start h => simp [entries, h]
  | creates _ ih => exact entries_newObject_of_written ih (by rfl) o
  | links _ p ih => exact entries_newObject_of_written ih (by rfl) o
  | @pairs st _ _ _ args _ _ hcall ih =>
    have hpaired : ¬Library.Unpaired args := by
      rw [← Library.objectOf_fails_iff]
      rintro ⟨e, t, hfails⟩
      cases hcall.symm.trans hfails
    cases hcall.symm.trans (Library.objectOf_eq_ok hpaired st)
    exact entries_newObject_of_written ih (by rfl) o
  | @copies _ _ _ source _ _ _ hcall ih =>
    cases hcall
    exact entries_newObject_of_written ih (ih source) o
  | host_sets _ ho key v ih => exact entries_set_of_written ih ho key v o
  | sets _ hop htop ho hstep ih =>
    cases hstep.symm.trans (Exec.instruction_set_entry hop htop)
    exact entries_set_of_written ih ho _ _ o
  | elsewhere _ hobjects ih =>
    rw [entries, hobjects]
    exact ih o

/-! ## Keys and values -/

theorem pairwise_keys (st : Store) (o : ObjectRef) :
    (st.keys o).Pairwise fun a b => Text.utf8 a < Text.utf8 b := by
  rw [keys, List.pairwise_map]
  exact (st.entries o).pairwise_properties.imp Text.utf8_lt_iff.mpr

theorem mem_keys_iff {st : Store} {o : ObjectRef} {key : String} :
    key ∈ st.keys o ↔ key ≠ protoKey ∧ (st.own? o key).isSome := by
  simp [keys, Table.mem_properties_iff, Option.isSome_iff_exists, own?]

theorem length_values (st : Store) (o : ObjectRef) :
    (st.values o).length = (st.keys o).length := by
  rw [values, keys, List.length_map, List.length_map]

/-- Keys and values stand at the same places. -/
theorem getElem?_values {n : Nat} (h : (st.keys o)[n]? = some key) :
    (st.values o)[n]? = st.own? o key := by
  rw [keys, List.getElem?_map, Option.map_eq_some_iff] at h
  obtain ⟨⟨key, item⟩, hn, rfl⟩ := h
  rw [values, List.getElem?_map, hn, own?]
  exact ((Table.mem_properties_iff _ key item).mp (List.mem_of_getElem? hn)).2.symm

/-- The library function gives a fresh array with these items. -/
def GivesItems (st : Store) (site : Value) (b : Builtin) (items : List Value) : Prop :=
  ∀ args, ∃ r t, Library.callBuiltin site args b st = .ok (.array r) t ∧
    (t.items r).toList = items

theorem givesItems_keys (st : Store) (o : ObjectRef) :
    st.GivesItems (.object o) .keys ((st.keys o).map .text) := by
  intro args
  refine ⟨_, _, rfl, ?_⟩
  exact congrArg Array.toList (items_newArray_self st _)

theorem givesItems_values (st : Store) (o : ObjectRef) :
    st.GivesItems (.object o) .values (st.values o) := by
  intro args
  refine ⟨_, _, rfl, ?_⟩
  exact congrArg Array.toList (items_newArray_self st _)

/-! ## Objects made of pairs -/

/-- The object of the keys and values of another one has the same keys and values. -/
theorem properties_of_interleave (st : Store) (o p : ObjectRef) :
    ((linkedTo p).insertAll ((st.keys o).zip (st.values o))).properties =
      (st.entries o).properties := by
  have hzip : (st.keys o).zip (st.values o) = (st.entries o).properties := by
    rw [keys, values, List.zip_map', List.map_id']
  have hdistinct : (st.entries o).properties.Pairwise fun a b => a.1 ≠ b.1 := by
    refine (st.entries o).pairwise_properties.imp ?_
    intro a b hlt heq
    rw [heq] at hlt
    exact String.lt_irrefl _ hlt
  apply Table.properties_congr
  intro key hkey
  apply Option.ext
  intro item
  rw [hzip, Table.get?_insertAll, lastWrite_iff_mem hdistinct, Table.mem_properties_iff]
  simp [linkedTo, hkey]

/-- Objects are sorted maps.  The entries of an object come in the order of their keys' bytes, and
    there is one for each key that was written to, with what was written last.  Its keys, without
    the link, are listed in the same order, and its values at the same places.  Arguments make an
    object exactly if they are keys and values in turn; the object holds the last value for each
    key, and the link to the prototype of objects unless they give another one.  An object's keys
    and values make an object that lists the same keys and values. -/
theorem sorted_maps (st : Store) :
    (∀ writes, st.Written writes → ∀ o,
      ((st.entries o).entries.Pairwise fun a b => Text.utf8 a.1 < Text.utf8 b.1) ∧
      ∀ key,
        (∀ v, (key, v) ∈ (st.entries o).entries ↔ st.own? o key = some v) ∧
        (∀ v, st.own? o key = some v ↔ LastWrite (writes o) key v) ∧
        (st.own? o key = none ↔ ∀ v, (key, v) ∉ writes o)) ∧
    (∀ o,
      st.GivesItems (.object o) .keys ((st.keys o).map .text) ∧
      st.GivesItems (.object o) .values (st.values o) ∧
      ((st.keys o).Pairwise fun a b => Text.utf8 a < Text.utf8 b) ∧
      (∀ key, key ∈ st.keys o ↔ key ≠ protoKey ∧ (st.own? o key).isSome) ∧
      (st.values o).length = (st.keys o).length ∧
      ∀ (n : Nat) key, (st.keys o)[n]? = some key → (st.values o)[n]? = st.own? o key) ∧
    (∀ site args,
      ((∃ e t, Library.callBuiltin site args .objectOf st = .error e t) ↔
        Library.Unpaired args) ∧
      (¬Library.Unpaired args → ∃ t,
        Library.callBuiltin site args .objectOf st = .ok (.object st.objects.size) t ∧
        ∀ key v, t.own? st.objects.size key = some v ↔
          Library.LastPaired args key v ∨
            key = protoKey ∧ v = .object Prototype.object.ref ∧
              ∀ j : Nat, args[2 * j]? ≠ some (.text key))) ∧
    ∀ o site, ∃ t,
      Library.callBuiltin site (Library.interleave ((st.keys o).map .text) (st.values o))
        .objectOf st = .ok (.object st.objects.size) t ∧
      t.keys st.objects.size = st.keys o ∧ t.values st.objects.size = st.values o := by
  refine ⟨fun writes h o => ⟨?_, fun key => ⟨?_, ?_, ?_⟩⟩, fun o => ?_, fun site args => ?_,
    fun o site => ?_⟩
  · exact (st.entries o).pairwise_entries.imp Text.utf8_lt_iff.mpr
  · exact (st.entries o).mem_entries_iff key
  · intro v
    rw [own?, h.entries_eq, Table.get?_insertAll_empty]
  · rw [own?, h.entries_eq, Table.get?_insertAll_eq_none_iff]
    simp
  · exact ⟨givesItems_keys st o, givesItems_values st o, pairwise_keys st o,
      fun _ => mem_keys_iff, length_values st o, fun _ _ => getElem?_values⟩
  · refine ⟨Library.objectOf_fails_iff, fun hpaired => ⟨_, Library.objectOf_eq_ok hpaired st, ?_⟩⟩
    intro key v
    rw [own?, entries_newObject, if_pos rfl, Library.get?_objectOf hpaired]
  · refine ⟨_, Library.objectOf_interleave (st.keys o) (st.values o) st, ?_, ?_⟩
    · rw [keys, entries_newObject, if_pos rfl, properties_of_interleave]
      rfl
    · rw [values, entries_newObject, if_pos rfl, properties_of_interleave]
      rfl

/-- An object is made of pairs with a key twice, it is copied, and then it is written to.  Both
    objects hold the last value under the key, only the first one the later write, and the copy
    lists what it holds. -/
theorem sorted_maps_copied :
    let args : List Value := [.text "b", .bool true, .text "a", .null, .text "b", .bool false]
    ¬Library.Unpaired args ∧ ∃ st writes, Written st writes ∧
      st.own? 0 "b" = some (.bool false) ∧ st.own? 0 "é" = some .null ∧
      st.own? 1 "b" = some (.bool false) ∧ st.own? 1 "é" = none ∧
      (∃ n : Nat, (st.keys 1)[n]? = some "a" ∧ (st.values 1)[n]? = some .null) ∧
      ∃ t, Library.callBuiltin .null args .objectOf st = .ok (.object 2) t ∧
        t.own? 2 "b" = some (.bool false) := by
  intro args
  have hpaired : ¬Library.Unpaired args := by
    rintro (hodd | ⟨j, v, hv, hkind⟩)
    · exact absurd hodd (by decide)
    · have hlt : 2 * j < 6 := (List.getElem?_eq_some_iff.mp hv).1
      obtain rfl | rfl | rfl : j = 0 ∨ j = 1 ∨ j = 2 := by omega
      all_goals
        cases hv
        exact hkind rfl
  let made : Store := (default : Store).newObject
    ((linkedTo Prototype.object.ref).insertAll (Library.pairs args)) |>.2
  let copied : Store := made.newObject (made.entries 0) |>.2
  have hmade : Library.callBuiltin .null args .objectOf default = .ok (.object 0) made :=
    Library.objectOf_eq_ok hpaired default
  have hcopied : Library.callBuiltin (.object 0) [] .copy made = .ok (.object 1) copied := rfl
  have hwritten := (((Written.start rfl).pairs hmade).copies hcopied).host_sets
    (show 0 < copied.objects.size by decide) "é" .null
  obtain ⟨hentries, hlists, hobjectOf, -⟩ := sorted_maps (copied.set 0 "é" .null)
  let first : List (String × Value) := [(protoKey, .object Prototype.object.ref),
    ("b", .bool true), ("a", .null), ("b", .bool false)]
  have hown₀ : ∀ key v, (copied.set 0 "é" .null).own? 0 key = some v ↔
      LastWrite (first ++ [("é", .null)]) key v :=
    fun key => ((hentries _ hwritten 0).2 key).2.1
  have hown₁ : ∀ key v, (copied.set 0 "é" .null).own? 1 key = some v ↔ LastWrite first key v :=
    fun key => ((hentries _ hwritten 1).2 key).2.1
  have hnone : (copied.set 0 "é" .null).own? 1 "é" = none ↔ ∀ v, ("é", v) ∉ first :=
    ((hentries _ hwritten 1).2 "é").2.2
  have ha : (copied.set 0 "é" .null).own? 1 "a" = some .null := by
    rw [hown₁]
    simp [first, lastWrite_cons_iff, not_lastWrite_nil]
  have hkey : "a" ∈ (copied.set 0 "é" .null).keys 1 := by
    rw [(hlists 1).2.2.2.1, ha]
    exact ⟨by decide, rfl⟩
  obtain ⟨n, hn⟩ := List.mem_iff_getElem?.mp hkey
  obtain ⟨t, ht, hheld⟩ := (hobjectOf .null args).2 hpaired
  refine ⟨hpaired, _, _, hwritten, ?_, ?_, ?_, ?_, ⟨n, hn, ?_⟩, t, ht, ?_⟩
  · rw [hown₀]
    simp [first, lastWrite_cons_iff, not_lastWrite_nil]
  · rw [hown₀]
    simp [first, lastWrite_cons_iff, not_lastWrite_nil]
  · rw [hown₁]
    simp [first, lastWrite_cons_iff, not_lastWrite_nil]
  · rw [hnone]
    simp [first, protoKey]
  · rw [(hlists 1).2.2.2.2.2 n "a" hn, ha]
  · refine (hheld "b" _).mpr (Or.inl ⟨2, rfl, rfl, fun k hk hb => ?_⟩)
    have hlt : 2 * k < 6 := (List.getElem?_eq_some_iff.mp hb).1
    omega

end StackMachine.Store
