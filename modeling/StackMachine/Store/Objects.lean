import Std.Data.TreeSet
import StackMachine.Store

/-!
# Objects

An object is a table of entries.  If the entry `__proto__` holds an object, that object is the
prototype, and keys that an object lacks are looked up there and further along the chain.  A
chain may be cyclic: a lookup that comes back to an object it has seen finds nothing.
-/

namespace StackMachine

/-- The key of the prototype link.  The link is an entry like any other. -/
def protoKey : String := "__proto__"

/-- The key whose closure makes an object callable. -/
def functionKey : String := "__func__"

/-- The prototype that a table of entries links to. -/
def Table.proto? (entries : Table Value) : Option ObjectRef :=
  match entries.get? protoKey with
  | some (.object p) => some p
  | _ => none

/-- The entries but for the prototype link. -/
def Table.properties (entries : Table Value) : List (String × Value) :=
  entries.entries.filter fun (key, _) => key != protoKey

namespace Store

/-- The entries of an object. -/
def entries (st : Store) (o : ObjectRef) : Table Value := st.objects.getD o .empty

/-- The value of an object's own entry. -/
def own? (st : Store) (o : ObjectRef) (key : String) : Option Value := (st.entries o).get? key

/-- The prototype of an object. -/
def proto? (st : Store) (o : ObjectRef) : Option ObjectRef := (st.entries o).proto?

/-- The objects of a store that are not among the given ones. -/
def unvisited (st : Store) (visited : Std.TreeSet ObjectRef) : List ObjectRef :=
  (List.range st.objects.size).filter fun o => o ∉ visited

/-- Only an object of the store has a prototype. -/
theorem lt_size_of_proto? {st : Store} {o p : ObjectRef} (h : st.proto? o = some p) :
    o < st.objects.size := by
  apply Classical.byContradiction
  intro hlt
  have hnone : st.entries o = .empty := by
    simp [entries, Array.getD_eq_getD_getElem?, Array.getElem?_eq_none (Nat.le_of_not_lt hlt)]
  simp [proto?, Table.proto?, hnone] at h

/-- Visiting one more object of the store leaves fewer unvisited. -/
theorem length_unvisited_insert {st : Store} {visited : Std.TreeSet ObjectRef} {o : ObjectRef}
    (hlt : o < st.objects.size) (hnew : o ∉ visited) :
    (st.unvisited (visited.insert o)).length < (st.unvisited visited).length := by
  have hmem : o ∈ st.unvisited visited := by simp [unvisited, hlt, hnew]
  have hsub : st.unvisited (visited.insert o) = (st.unvisited visited).filter (· ≠ o) := by
    simp only [unvisited, List.filter_filter]
    apply List.filter_congr
    intro p _
    by_cases hp : p = o
    · simp [hp]
    · simp [hp, Ne.symm hp]
  rw [hsub]
  apply Nat.lt_of_le_of_ne (List.length_filter_le _ _)
  intro heq
  have hall := List.length_filter_eq_length_iff.mp heq o hmem
  simp at hall

/-- The value of a key along the chain that starts at an object, where the given objects have been
    seen before. -/
def chainGet? (st : Store) (key : String) (visited : Std.TreeSet ObjectRef) (o : ObjectRef) :
    Option Value :=
  if _hseen : o ∈ visited then none
  else match st.own? o key with
    | some v => some v
    | none => match _hproto : st.proto? o with
      | some p => chainGet? st key (visited.insert o) p
      | none => none
termination_by (st.unvisited visited).length
decreasing_by exact length_unvisited_insert (lt_size_of_proto? _hproto) _hseen

/-- The value of a key in an object: its own entry, or the nearest along the prototype chain. -/
def get? (st : Store) (o : ObjectRef) (key : String) : Option Value := st.chainGet? key .empty o

/-- Writes an own entry of an object. -/
def set (st : Store) (o : ObjectRef) (key : String) (v : Value) : Store :=
  { st with objects := st.objects.modify o fun entries => entries.insert key v }

/-- The closure that is called when an object is called. -/
def function? (st : Store) (o : ObjectRef) : Option ClosureRef :=
  match st.get? o functionKey with
  | some (.closure c) => some c
  | _ => none

/-- The keys of an object's own entries in order, without the prototype link. -/
def keys (st : Store) (o : ObjectRef) : List String := (st.entries o).properties.map (·.1)

/-- The values of an object's own entries in the order of their keys, without the prototype
    link. -/
def values (st : Store) (o : ObjectRef) : List Value := (st.entries o).properties.map (·.2)

/-- The entries of a fresh object that links to a prototype. -/
def linkedTo (p : ObjectRef) : Table Value := Table.empty.insert protoKey (.object p)

/-- A fresh object that links to the prototype of objects. -/
def newPlainObject (st : Store) : ObjectRef × Store :=
  st.newObject (linkedTo Prototype.object.ref)

/-- A fresh object with the same own entries, the prototype link included. -/
def copyObject (st : Store) (o : ObjectRef) : ObjectRef × Store := st.newObject (st.entries o)

end Store

end StackMachine
