import StackMachine.Store.Objects
import StackMachine.Store.Scopes

/-!
# The initial store

A store that holds the built-in prototypes with their methods, and the global scope with the
functions of the library and a name for each prototype.
-/

namespace StackMachine.Library

/-- The functions that the global scope binds. -/
def globals : List Builtin :=
  [.clock, .toText, .toBool, .newArray, .arrayOf, .typeOf, .newObject, .objectOf]

/-- The methods of a prototype. -/
def methods : Prototype → List Builtin
  | .object => [.copy, .keys, .values]
  | .array => [.insert, .remove, .push, .arrayLength]
  | .text => [.charAt, .cut, .textLength, .split, .parse, .charCode]
  | .number => [.floor, .round]
  | .bool => []

/-- The name that the global scope binds a prototype to. -/
def prototypeName : Prototype → String
  | .object => "__object_proto__"
  | .array => "__array_proto__"
  | .text => "__string_proto__"
  | .number => "__number_proto__"
  | .bool => "__bool_proto__"

/-- The store with a method added to a prototype. -/
def installMethod (p : Prototype) (st : Store) (b : Builtin) : Store :=
  match st.newNative b.native with
  | (n, st) => st.set p.ref b.name (.native n)

/-- The store with a prototype added; all but that of objects link to that of objects. -/
def installPrototype (st : Store) (p : Prototype) : Store :=
  let entries := if p = .object then Table.empty else Store.linkedTo Prototype.object.ref
  match st.newObject entries with
  | (_, st) => (methods p).foldl (installMethod p) st

/-- The store with a function bound in the global scope. -/
def installGlobal (st : Store) (b : Builtin) : Store :=
  match st.newNative b.native with
  | (n, st) => st.define Scope.global b.name (.native n)

/-- The store that a machine starts with. -/
def initialStore (clock : Nat → Binary64) : Store :=
  let st := (Store.empty clock).newScope none |>.2
  let st := Prototype.all.foldl installPrototype st
  let st := globals.foldl installGlobal st
  Prototype.all.foldl
    (fun st p => st.define Scope.global (prototypeName p) (.object p.ref)) st

end StackMachine.Library
