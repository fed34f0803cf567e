import StackMachine.Native
import StackMachine.Table
import StackMachine.Text.Quoted

/-!
# The store

Everything that values refer to: arrays, objects, scopes, closures and natives, each kind in a
table of its own.  Nothing is ever taken out of a store, so a reference stays good for ever.  The
first five objects are the built-in prototypes and the first scope is the global one.
-/

namespace StackMachine

/-- A lexical scope: its own bindings and the scope around it. -/
structure Scope where
  parent : Option ScopeRef
  bindings : Table Value
  deriving DecidableEq

/-- A closure: a function of the program and the scope it was made in. -/
structure Closure where
  function : Nat
  scope : ScopeRef
  deriving DecidableEq, Repr

/-- A closure in a debugging text. -/
def Closure.debugText (c : Closure) : String := "Closure(#" ++ Text.decimal c.function ++ ")"

/-- The readings of a clock, in the order in which they will be asked for. -/
structure Clock where
  reading : Nat → Binary64
  asked : Nat

/-- The store. -/
structure Store where
  arrays : Array (Array Value)
  objects : Array (Table Value)
  scopes : Array Scope
  closures : Array Closure
  natives : Array Native
  clock : Clock

namespace Store

/-- The store without anything in it. -/
def empty (clock : Nat → Binary64) : Store := ⟨#[], #[], #[], #[], #[], ⟨clock, 0⟩⟩

instance : Inhabited Store := ⟨empty fun _ => ⟨0⟩⟩

/-! ## Fresh references -/

/-- A fresh array with the given items. -/
def newArray (st : Store) (items : Array Value) : ArrayRef × Store :=
  (st.arrays.size, { st with arrays := st.arrays.push items })

/-- A fresh object with the given entries. -/
def newObject (st : Store) (entries : Table Value) : ObjectRef × Store :=
  (st.objects.size, { st with objects := st.objects.push entries })

/-- A fresh scope without bindings. -/
def newScope (st : Store) (parent : Option ScopeRef) : ScopeRef × Store :=
  (st.scopes.size, { st with scopes := st.scopes.push ⟨parent, .empty⟩ })

/-- A fresh closure. -/
def newClosure (st : Store) (function : Nat) (scope : ScopeRef) : ClosureRef × Store :=
  (st.closures.size, { st with closures := st.closures.push ⟨function, scope⟩ })

/-- A fresh native. -/
def newNative (st : Store) (native : Native) : NativeRef × Store :=
  (st.natives.size, { st with natives := st.natives.push native })

/-- The next reading of the clock. -/
def readClock (st : Store) : Binary64 × Store :=
  (st.clock.reading st.clock.asked, { st with clock.asked := st.clock.asked + 1 })

end Store

/-- The built-in prototypes. -/
inductive Prototype
  | object
  | array
  | text
  | number
  | bool
  deriving DecidableEq, Repr

namespace Prototype

/-- Every prototype, in the order of their places. -/
def all : List Prototype := [.object, .array, .text, .number, .bool]

/-- The place of a prototype in every store. -/
def ref : Prototype → ObjectRef
  | .object => 0
  | .array => 1
  | .text => 2
  | .number => 3
  | .bool => 4

/-- The prototype that property reads on a value fall back to.  Objects have their own links, and
    null and functions have none. -/
def ofValue? : Value → Option Prototype
  | .array _ => some .array
  | .text _ => some .text
  | .number _ => some .number
  | .bool _ => some .bool
  | _ => none

end Prototype

/-- The place of the global scope in every store. -/
def Scope.global : ScopeRef := 0

end StackMachine
