import StackMachine.Binary64.Parse
import StackMachine.Library.Action
import StackMachine.Store.Display
import StackMachine.Text.Pieces

/-!
# What natives do

Every native is called with a call site and a list of arguments.  The methods of arrays, objects,
text and numbers work on the call site and check it before their arguments.
-/

namespace StackMachine.Library

/-! ## Values -/

/-- The text of the first argument. -/
def toText (args : List Value) : Action Value :=
  Action.read fun st => .text (st.text (argument args 0))

/-- The name of the first argument's type, or of the call site's if there is no argument. -/
def typeOf (site : Value) (args : List Value) : Value := .text (args.headD site).typeName

/-! ## Objects -/

/-- The entries with keys and values written in turn, or the first key that is no text. -/
def writePairs (entries : Table Value) : List Value → Except Value (Table Value)
  | .text key :: v :: rest => writePairs (entries.insert key v) rest
  | key :: _ :: _ => .error key
  | _ => .ok entries

/-- A fresh object that holds the arguments, keys and values in turn. -/
def objectOf (args : List Value) : Action Value :=
  if args.length % 2 = 1 then Action.fail (.unpaired args.length)
  else match writePairs (Store.linkedTo Prototype.object.ref) args with
    | .ok entries => Action.freshObject entries
    | .error key => Action.fail (.wrongType "asObject" "key" .text (some key.kind))

/-- A copy of the object. -/
def copy (site : Value) : Action Value := do
  let o ← receiverObject "copy" site
  let entries ← Action.read fun st => st.entries o
  Action.freshObject entries

/-- A fresh array of the object's keys. -/
def keys (site : Value) : Action Value := do
  let o ← receiverObject "keys" site
  let names ← Action.read fun st => st.keys o
  Action.freshArray (names.map Value.text).toArray

/-- A fresh array of the object's values. -/
def values (site : Value) : Action Value := do
  let o ← receiverObject "values" site
  let found ← Action.read fun st => st.values o
  Action.freshArray found.toArray

/-! ## Arrays -/

/-- Inserts an argument in front of a position; outside the array nothing happens. -/
def insert (site : Value) (args : List Value) : Action Value := do
  let r ← receiverArray "insert" site
  let position ← argumentNumber "insert" "index" args[0]?
  Action.change fun st => (st.arrayInsert r position (argument args 1)).2
  return .null

/-- Takes out and gives the item at a position, or null outside the array. -/
def remove (site : Value) (args : List Value) : Action Value := do
  let r ← receiverArray "remove" site
  let position ← argumentNumber "remove" "index" args[0]?
  let removed ← Action.update fun st => st.arrayRemove r position
  return removed.getD .null

/-- Appends an argument and gives the new number of items. -/
def push (site : Value) (args : List Value) : Action Value := do
  let r ← receiverArray "push" site
  Action.change fun st => st.arrayPush r (argument args 0)
  Action.read fun st => .number (.ofNat (st.arraySize r))

/-- The number of items. -/
def arrayLength (site : Value) : Action Value := do
  let r ← receiverArray "length" site
  Action.read fun st => .number (.ofNat (st.arraySize r))

/-! ## Text -/

/-- The character at a position, or null outside the text. -/
def charAt (site : Value) (args : List Value) : Action Value := do
  let s ← receiverText "at" site
  let position ← argumentNumber "at" "index" args[0]?
  return match Text.charAt? s.toList position with
    | some c => .text (String.singleton c)
    | none => .null

/-- The part of the text from a start on, up to a count of characters. -/
def cut (site : Value) (args : List Value) : Action Value := do
  let s ← receiverText "cut" site
  let start ← argumentNumber "cut" "start" args[0]?
  let count ← argumentNumber "cut" "count" args[1]?
  return .text (String.ofList (Text.cut s.toList start count))

/-- The number of characters. -/
def textLength (site : Value) : Action Value := do
  let s ← receiverText "length" site
  return .number (.ofNat s.toList.length)

/-- A fresh array of the parts between separators. -/
def split (site : Value) (args : List Value) : Action Value := do
  let s ← receiverText "split" site
  let separator ← argumentText "split" "separator" args[0]?
  let parts := Text.split s.toList separator.toList
  Action.freshArray (parts.map fun part => Value.text (String.ofList part)).toArray

/-- The number that the text spells, or null if it spells none. -/
def parse (site : Value) : Action Value := do
  let s ← receiverText "parse" site
  return match Binary64.parse? s with
    | some x => .number x
    | none => .null

/-- The code point of the character at a position, or null outside the text. -/
def charCode (site : Value) (args : List Value) : Action Value := do
  let s ← receiverText "charCode" site
  let position ← argumentNumber "charCode" "index" args[0]?
  return match Text.charAt? s.toList position with
    | some c => .number (.ofNat c.toNat)
    | none => .null

/-! ## Calls -/

/-- What a function of the library does. -/
def callBuiltin (site : Value) (args : List Value) : Builtin → Action Value
  | .clock => Action.update fun st => match st.readClock with
    | (x, st) => (.number x, st)
  | .toText => toText args
  | .toBool => pure (.bool (argument args 0).truthy)
  | .newArray => Action.freshArray #[]
  | .arrayOf => Action.freshArray args.toArray
  | .typeOf => pure (typeOf site args)
  | .newObject => Action.freshObject (Store.linkedTo Prototype.object.ref)
  | .objectOf => objectOf args
  | .copy => copy site
  | .keys => keys site
  | .values => values site
  | .insert => insert site args
  | .remove => remove site args
  | .push => push site args
  | .arrayLength => arrayLength site
  | .charAt => charAt site args
  | .cut => cut site args
  | .textLength => textLength site
  | .split => split site args
  | .parse => parse site
  | .charCode => charCode site args
  | .floor => do return .number (← receiverNumber "floor" site).floor
  | .round => do return .number (← receiverNumber "round" site).round

/-- What a native of the host does. -/
def callHost (host : Host) (site : Value) (args : List Value) : HostFunction → Action Value
  | .collect => Action.freshArray args.toArray
  | .callSite => pure site
  | .count => pure (.number (.ofNat args.length))
  | .fail message => Action.fail (.host message)
  | .supplied number => host number site args

/-- What a native does.  The number of arguments is not checked. -/
def callWith (host : Host) (native : Native) (site : Value) (args : List Value) : Action Value :=
  match native.body with
  | .builtin b => callBuiltin site args b
  | .host f => callHost host site args f

/-- What a native does where the host supplies no functions. -/
def call (native : Native) (site : Value) (args : List Value) : Action Value :=
  callWith .none native site args

end StackMachine.Library
