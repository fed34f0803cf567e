import Std.Data.ExtTreeMap

/-!
# Tables

Finite maps from text to some type.  The entries of an object and the bindings of a scope are
tables.  A table lists its entries in increasing order of their keys (`Table.pairwise_entries`).
-/

namespace StackMachine

/-- A map from keys to values. -/
structure Table (α : Type) where
  map : Std.ExtTreeMap String α
  deriving DecidableEq

namespace Table

variable {α : Type}

/-- The table without entries. -/
def empty : Table α := ⟨∅⟩

instance : Inhabited (Table α) := ⟨empty⟩

/-- The value under a key. -/
def get? (t : Table α) (key : String) : Option α := t.map[key]?

/-- The table with a value written under a key, in place of any value there. -/
def insert (t : Table α) (key : String) (a : α) : Table α := ⟨t.map.insert key a⟩

/-- The number of entries. -/
def size (t : Table α) : Nat := t.map.size

/-- The entries in increasing order of their keys. -/
def entries (t : Table α) : List (String × α) := t.map.toList

/-- The keys in increasing order. -/
def keys (t : Table α) : List String := t.map.keys

/-! ## Values after each operation -/

@[simp]
theorem get?_empty (key : String) : (empty : Table α).get? key = none :=
  Std.ExtTreeMap.getElem?_empty

/-- A write is read back under its key and changes nothing else. -/
@[simp]
theorem get?_insert (t : Table α) (key k : String) (a : α) :
    (t.insert key a).get? k = if k = key then some a else t.get? k := by
  rw [get?, insert, Std.ExtTreeMap.getElem?_insert]
  simp only [Std.LawfulEqOrd.compare_eq_iff_eq, eq_comm (a := key)]
  rfl

/-- The entries are the keys that have a value, with their values. -/
theorem mem_entries_iff (t : Table α) (key : String) (a : α) :
    (key, a) ∈ t.entries ↔ t.get? key = some a :=
  Std.ExtTreeMap.mem_toList_iff_getElem?_eq_some

/-- The entries come in strictly increasing order of their keys. -/
theorem pairwise_entries (t : Table α) : t.entries.Pairwise fun a b => a.1 < b.1 :=
  t.map.ordered_keys_toList.imp fun h => compareOfLessAndEq_eq_lt.mp h

end Table

end StackMachine
