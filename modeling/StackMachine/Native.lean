import StackMachine.Value

/-!
# Natives

Functions that are not written in the machine's code: those of the library, and those that a host
supplies.  What they do is in `Library.Call`; here are their names and arities.
-/

namespace StackMachine

/-- The functions of the library. -/
inductive Builtin
  /-- Seconds on the machine's clock. -/
  | clock
  /-- The text of a value. -/
  | toText
  /-- Whether a value is truthy. -/
  | toBool
  /-- A fresh empty array. -/
  | newArray
  /-- A fresh array of the arguments. -/
  | arrayOf
  /-- The name of a value's type. -/
  | typeOf
  /-- A fresh object. -/
  | newObject
  /-- A fresh object of the arguments, keys and values in turn. -/
  | objectOf
  /-- A copy of an object. -/
  | copy
  /-- The keys of an object. -/
  | keys
  /-- The values of an object. -/
  | values
  /-- Insertion into an array. -/
  | insert
  /-- Removal from an array. -/
  | remove
  /-- Insertion at an array's end. -/
  | push
  /-- The number of items of an array. -/
  | arrayLength
  /-- The character of a text at a position. -/
  | charAt
  /-- A part of a text. -/
  | cut
  /-- The number of characters of a text. -/
  | textLength
  /-- The parts of a text between separators. -/
  | split
  /-- The number that a text spells. -/
  | parse
  /-- The code point of a text's character at a position. -/
  | charCode
  /-- A number rounded down. -/
  | floor
  /-- A number rounded to the nearest whole number. -/
  | round
  deriving DecidableEq, Repr

/-- What a native of the host does. -/
inductive HostFunction
  /-- Gives a fresh array of the arguments. -/
  | collect
  /-- Gives the call site. -/
  | callSite
  /-- Gives the number of arguments. -/
  | count
  /-- Fails with a message. -/
  | fail (message : String)
  /-- Does what the host's own function of that number does. -/
  | supplied (number : Nat)
  deriving DecidableEq, Repr

/-- What a native does. -/
inductive NativeBody
  | builtin (b : Builtin)
  | host (f : HostFunction)
  deriving DecidableEq, Repr

/-- A native: its name, the number of arguments it takes, and what it does. -/
structure Native where
  name : String
  /-- The exact number of arguments, or nothing if any number will do. -/
  arity : Option Nat
  body : NativeBody
  deriving DecidableEq, Repr

namespace Native

/-- Whether a native takes the given number of arguments. -/
def accepts (n : Native) (count : Nat) : Bool :=
  match n.arity with
  | some expected => count == expected
  | none => true

/-- A native in a debugging text. -/
def debugText (n : Native) : String := "NativeFunction(" ++ n.name ++ ")"

end Native

/-- The name that a function of the library is bound to. -/
def Builtin.name : Builtin → String
  | .clock => "clock"
  | .toText => "String"
  | .toBool => "Bool"
  | .newArray => "Array"
  | .arrayOf => "asArray"
  | .typeOf => "typeof"
  | .newObject => "Object"
  | .objectOf => "asObject"
  | .copy => "copy"
  | .keys => "keys"
  | .values => "values"
  | .insert => "insert"
  | .remove => "remove"
  | .push => "push"
  | .arrayLength => "length"
  | .charAt => "at"
  | .cut => "cut"
  | .textLength => "length"
  | .split => "split"
  | .parse => "parse"
  | .charCode => "charCode"
  | .floor => "floor"
  | .round => "round"

/-- The number of arguments that a function of the library takes. -/
def Builtin.arity : Builtin → Option Nat
  | .arrayOf | .typeOf | .objectOf => none
  | .clock | .newArray | .newObject => some 0
  | .toText | .toBool => some 1
  | .copy | .keys | .values => some 0
  | .insert => some 2
  | .remove | .push => some 1
  | .arrayLength => some 0
  | .cut => some 2
  | .charAt | .split | .charCode => some 1
  | .textLength | .parse => some 0
  | .floor | .round => some 0

/-- The native of a function of the library. -/
def Builtin.native (b : Builtin) : Native := ⟨b.name, b.arity, .builtin b⟩

end StackMachine
