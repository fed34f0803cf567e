import StackMachine.Store

/-!
# Actions of natives

A native works on the store, and either gives a value or fails for a reason.  A native of the
library that fails leaves everything in the store as it was; what a host's own functions do is up
to the host.
-/

namespace StackMachine.Library

/-- Why a native fails. -/
inductive NativeError
  /-- The receiver or an argument has the wrong type; `got` is missing with the argument. -/
  | wrongType (native label : String) (expected : Kind) (got : Option Kind)
  /-- Keys and values do not come in pairs. -/
  | unpaired (count : Nat)
  /-- A reason of the host's. -/
  | host (message : String)
  deriving DecidableEq, Repr

/-- The text of a reason. -/
def NativeError.message : NativeError → String
  | .wrongType native label expected got =>
    let found := match got with
      | some kind => kind.name
      | none => "nothing"
    native ++ " expected " ++ label ++ " to be " ++ expected.name ++ ", got " ++ found
  | .unpaired count =>
    "asObject expected key/value pairs, got " ++ Text.decimal count ++ " arguments"
  | .host message => message

/-- What a native does to a store. -/
abbrev Action := EStateM NativeError Store

namespace Action

/-- Reads something off the store. -/
def read {α : Type} (f : Store → α) : Action α := fun st => .ok (f st) st

/-- Changes the store. -/
def change (f : Store → Store) : Action Unit := fun st => .ok () (f st)

/-- Changes the store and gives something. -/
def update {α : Type} (f : Store → α × Store) : Action α := fun st =>
  match f st with
  | (a, st) => .ok a st

/-- Fails. -/
def fail {α : Type} (e : NativeError) : Action α := fun st => .error e st

/-- A fresh array as a value. -/
def freshArray (items : Array Value) : Action Value :=
  update fun st => match st.newArray items with
    | (r, st) => (.array r, st)

/-- A fresh object as a value. -/
def freshObject (entries : Table Value) : Action Value :=
  update fun st => match st.newObject entries with
    | (o, st) => (.object o, st)

end Action

/-- The functions that a host supplies, by number: what each does to a store when it is called
    with a call site and arguments. -/
abbrev Host := Nat → Value → List Value → Action Value

/-- The host that supplies no functions. -/
def Host.none : Host := fun _ _ _ => Action.fail (.host "")

/-! ## Receivers and arguments -/

/-- What a receiver or an argument is, if it is there and of the expected type. -/
def expect {α : Type} (native label : String) (expected : Kind) (view : Value → Option α)
    (v : Option Value) : Action α :=
  match v.bind view with
  | some a => pure a
  | none => Action.fail (.wrongType native label expected (v.map Value.kind))

/-- The text that a native is called on. -/
def receiverText (native : String) (v : Value) : Action String :=
  expect native "receiver" .text Value.text? (some v)

/-- The number that a native is called on. -/
def receiverNumber (native : String) (v : Value) : Action Binary64 :=
  expect native "receiver" .number Value.number? (some v)

/-- The array that a native is called on. -/
def receiverArray (native : String) (v : Value) : Action ArrayRef :=
  expect native "receiver" .array Value.array? (some v)

/-- The object that a native is called on. -/
def receiverObject (native : String) (v : Value) : Action ObjectRef :=
  expect native "receiver" .object Value.object? (some v)

/-- The number that is an argument. -/
def argumentNumber (native label : String) (v : Option Value) : Action Binary64 :=
  expect native label .number Value.number? v

/-- The text that is an argument. -/
def argumentText (native label : String) (v : Option Value) : Action String :=
  expect native label .text Value.text? v

/-- The value that is an argument; a missing one is null. -/
def argument (args : List Value) (i : Nat) : Value := args[i]?.getD .null

end StackMachine.Library
