import StackMachine.Store

/-!
# Arrays

Array positions are numbers, truncated toward zero.  Reads outside an array give nothing, and
writes outside it change nothing.
-/

namespace StackMachine

namespace Items

/-- Whether a position is that of an item. -/
def holds (items : Array Value) (position : Binary64) : Bool :=
  match position.index? with
  | some i => i < items.size
  | none => false

/-- Whether an item can be inserted at a position; the end of the array will do. -/
def admits (items : Array Value) (position : Binary64) : Bool :=
  match position.index? with
  | some i => i ≤ items.size
  | none => false

/-- The item at a position. -/
def get? (items : Array Value) (position : Binary64) : Option Value :=
  match position.index? with
  | some i => items[i]?
  | none => none

/-- The items with the one at a position replaced. -/
def set (items : Array Value) (position : Binary64) (v : Value) : Array Value :=
  match position.index? with
  | some i => items.setIfInBounds i v
  | none => items

/-- The items with one more in front of the one at a position. -/
def insert (items : Array Value) (position : Binary64) (v : Value) : Array Value :=
  match position.index? with
  | some i => items.insertIdxIfInBounds i v
  | none => items

/-- The items without the one at a position. -/
def remove (items : Array Value) (position : Binary64) : Array Value :=
  match position.index? with
  | some i => items.eraseIdxIfInBounds i
  | none => items

end Items

namespace Store

/-- The items of an array. -/
def items (st : Store) (r : ArrayRef) : Array Value := st.arrays.getD r #[]

/-- The number of items of an array. -/
def arraySize (st : Store) (r : ArrayRef) : Nat := (st.items r).size

/-- Changes the items of an array. -/
def modifyArray (st : Store) (r : ArrayRef) (f : Array Value → Array Value) : Store :=
  { st with arrays := st.arrays.modify r f }

/-- The item of an array at a position. -/
def arrayGet? (st : Store) (r : ArrayRef) (position : Binary64) : Option Value :=
  Items.get? (st.items r) position

/-- Replaces the item at a position, and tells whether there was one. -/
def arraySet (st : Store) (r : ArrayRef) (position : Binary64) (v : Value) : Bool × Store :=
  (Items.holds (st.items r) position, st.modifyArray r fun items => Items.set items position v)

/-- Inserts in front of a position, and tells whether that was possible. -/
def arrayInsert (st : Store) (r : ArrayRef) (position : Binary64) (v : Value) : Bool × Store :=
  (Items.admits (st.items r) position,
    st.modifyArray r fun items => Items.insert items position v)

/-- Takes out the item at a position. -/
def arrayRemove (st : Store) (r : ArrayRef) (position : Binary64) : Option Value × Store :=
  (Items.get? (st.items r) position, st.modifyArray r fun items => Items.remove items position)

/-- Appends an item. -/
def arrayPush (st : Store) (r : ArrayRef) (v : Value) : Store :=
  st.modifyArray r fun items => items.push v

end Store

end StackMachine
