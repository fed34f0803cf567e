import StackMachine.Binary64

/-!
# Values

The values a program computes with.  Arrays, objects, closures and natives are references into a
store, so that two values can be the same container; scalars are held in place.
-/

namespace StackMachine

/-- The place of an array in a store. -/
abbrev ArrayRef := Nat

/-- The place of an object in a store. -/
abbrev ObjectRef := Nat

/-- The place of a scope in a store. -/
abbrev ScopeRef := Nat

/-- The place of a closure in a store. -/
abbrev ClosureRef := Nat

/-- The place of a native in a store. -/
abbrev NativeRef := Nat

/-- A value. -/
inductive Value
  | null
  | bool (b : Bool)
  | number (x : Binary64)
  | text (s : String)
  | array (ref : ArrayRef)
  | object (ref : ObjectRef)
  | closure (ref : ClosureRef)
  | native (ref : NativeRef)
  deriving DecidableEq, Repr, Inhabited

/-- The types that programs and messages tell apart. -/
inductive Kind
  | none
  | bool
  | number
  | text
  | array
  | object
  | function
  deriving DecidableEq, Repr

namespace Kind

/-- The name of a type. -/
def name : Kind → String
  | .none => "None"
  | .bool => "Bool"
  | .number => "Number"
  | .text => "String"
  | .array => "Array"
  | .object => "Object"
  | .function => "Function"

end Kind

namespace Value

/-- The type of a value; closures and natives are both functions. -/
def kind : Value → Kind
  | .null => .none
  | .bool _ => .bool
  | .number _ => .number
  | .text _ => .text
  | .array _ => .array
  | .object _ => .object
  | .closure _ => .function
  | .native _ => .function

/-- The name of a value's type. -/
def typeName (v : Value) : String := v.kind.name

/-- Whether a condition holds for a value: all values but null and `false` are truthy. -/
def truthy : Value → Bool
  | .null => false
  | .bool b => b
  | _ => true

/-- The number that a value is, if it is one. -/
def number? : Value → Option Binary64
  | .number x => some x
  | _ => none

/-- The text that a value is, if it is one. -/
def text? : Value → Option String
  | .text s => some s
  | _ => none

/-- The array that a value is, if it is one. -/
def array? : Value → Option ArrayRef
  | .array r => some r
  | _ => none

/-- The object that a value is, if it is one. -/
def object? : Value → Option ObjectRef
  | .object o => some o
  | _ => none

/-- Equality as programs see it: scalars by content, numbers as numbers, everything else by
    identity. -/
def equal : Value → Value → Bool
  | .number x, .number y => x.equal y
  | v, w => v == w

end Value

end StackMachine
