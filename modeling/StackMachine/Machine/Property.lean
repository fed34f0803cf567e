import StackMachine.Machine.State

/-!
# Properties

Reading and writing properties of values.  Objects have their entries, found along the prototype
chain, and arrays their items; arrays, text, numbers and booleans also have the entries of a
built-in prototype.
-/

namespace StackMachine

namespace Store

/-- The property of a value under a key; one that does not exist is null. -/
def property (st : Store) (container key : Value) : Except Fault Value :=
  match container, key with
  | .object o, .text name => .ok ((st.get? o name).getD .null)
  | .object _, key => .error (.badKeyType Kind.object.name key.typeName)
  | .array r, .number position => .ok ((st.arrayGet? r position).getD .null)
  | container, .text name => match Prototype.ofValue? container with
    | some p => .ok ((st.get? p.ref name).getD .null)
    | none => .error (.notIndexable container.typeName)
  | container, key => match Prototype.ofValue? container with
    | some _ => .error (.badKeyType container.typeName key.typeName)
    | none => .error (.notIndexable container.typeName)

end Store

/-- A property that can be written: an entry of an object, or a position in an array. -/
inductive Target
  | entry (o : ObjectRef) (key : String)
  | item (r : ArrayRef) (position : Binary64)
  deriving DecidableEq, Repr

namespace Target

/-- The property that a container and a key stand for in a write. -/
def of (container key : Value) : Except Fault Target :=
  match container, key with
  | .object o, .text name => .ok (.entry o name)
  | .array r, .number position => .ok (.item r position)
  | .object _, key => .error (.badKeyType Kind.object.name key.typeName)
  | .array _, key => .error (.badKeyType Kind.array.name key.typeName)
  | container, _ => .error (.notIndexable container.typeName)

/-- The store with a property written; outside an array nothing happens. -/
def store (t : Target) (st : Store) (v : Value) : Store :=
  match t with
  | .entry o key => st.set o key v
  | .item r position => (st.arraySet r position v).2

end Target

namespace Exec

/-- Gives a result, or fails. -/
def ofExcept {α : Type} : Except Fault α → Exec α
  | .ok a => pure a
  | .error f => fault f

/-- Pops a key and a container and pushes the property, above the container if that is kept. -/
def getProperty (keepContainer : Bool) : Exec Unit := do
  let key ← pop
  let container ← pop
  let v ← fun s => ofExcept (s.store.property container key) s
  if keepContainer then push container
  push v

/-- Pops a value, a key and a container, writes the property and pushes the value again. -/
def setProperty : Exec Unit := do
  let v ← pop
  let key ← pop
  let container ← pop
  let target ← ofExcept (Target.of container key)
  changeStore fun st => target.store st v
  push v

end Exec

end StackMachine
