import StackMachine.Text.Decimal

/-!
# Faults

Why a run fails, and the report of a failed run: a code, a message, and the calls that were in
progress.
-/

namespace StackMachine

/-- Why an instruction fails.  Operators and types are given by the names that messages show, so
    that a host can report faults about operators and types of its own. -/
inductive Fault
  /-- No scope binds the name. -/
  | undefinedVariable (name : String)
  /-- An operator does not take its operands; a unary one has no right operand. -/
  | typeMismatch (operator left : String) (right : Option String)
  /-- The value has no properties. -/
  | notIndexable (container : String)
  /-- The container's properties have other keys. -/
  | badKeyType (container key : String)
  /-- The value cannot be called. -/
  | notCallable (callee : String)
  /-- A native failed. -/
  | native (name message : String)
  /-- The divisor of a remainder truncates to zero. -/
  | divisionByZero
  /-- There are too few operands. -/
  | stackUnderflow
  /-- The outermost scope cannot be left. -/
  | scopeUnderflow
  /-- The program has no such literal. -/
  | invalidLiteral (index : Nat)
  /-- The program has no such symbol. -/
  | invalidSymbol (index : Nat)
  /-- The program has no such function. -/
  | invalidFunction (index : Nat)
  /-- As many calls as allowed are in progress. -/
  | callDepthExceeded (limit : Nat)
  /-- A native takes another number of arguments. -/
  | wrongArity (name : String) (expected got : Nat)
  /-- Output could not be written. -/
  | output (reason : String)
  deriving DecidableEq, Repr

namespace Fault

/-- The code of a fault. -/
def code : Fault → String
  | .undefinedVariable _ => "E1001"
  | .typeMismatch _ _ _ => "E1002"
  | .notIndexable _ => "E1003"
  | .badKeyType _ _ => "E1004"
  | .notCallable _ => "E1005"
  | .native _ _ => "E1006"
  | .divisionByZero => "E1007"
  | .stackUnderflow => "E1008"
  | .scopeUnderflow => "E1009"
  | .invalidLiteral _ | .invalidSymbol _ | .invalidFunction _ => "E1010"
  | .callDepthExceeded _ => "E1011"
  | .wrongArity _ _ _ => "E1012"
  | .output _ => "E1013"

/-- The message of a fault. -/
def message : Fault → String
  | .undefinedVariable name => "undefined variable `" ++ name ++ "`"
  | .typeMismatch operator left (some right) =>
    "unsupported operand types for " ++ operator ++ ": " ++ left ++ " and " ++ right
  | .typeMismatch operator left none =>
    "unsupported operand type for " ++ operator ++ ": " ++ left
  | .notIndexable container => "cannot index into a value of type " ++ container
  | .badKeyType container key => container ++ " cannot be indexed by " ++ key
  | .notCallable callee => "value of type " ++ callee ++ " is not callable"
  | .native _ message => message
  | .divisionByZero => "modulo by zero"
  | .stackUnderflow => "operand stack underflow"
  | .scopeUnderflow => "cannot leave the global scope"
  | .invalidLiteral index => "literal index " ++ Text.decimal index ++ " is out of range"
  | .invalidSymbol index => "symbol index " ++ Text.decimal index ++ " is out of range"
  | .invalidFunction index => "function index " ++ Text.decimal index ++ " is out of range"
  | .callDepthExceeded limit => "maximum call depth of " ++ Text.decimal limit ++ " exceeded"
  | .wrongArity name expected got =>
    "wrong number of arguments to " ++ name ++ ": want=" ++ Text.decimal expected ++
      ", got=" ++ Text.decimal got
  | .output reason => "failed to write output: " ++ reason

end Fault

/-- A place in a program: the function, or nothing for the top level, and the index of an
    instruction. -/
structure CodePoint where
  function : Option Nat
  ip : Nat
  deriving DecidableEq, Repr

/-- A place as reports show it. -/
def CodePoint.text (p : CodePoint) : String :=
  let place := match p.function with
    | some index => "function #" ++ Text.decimal index
    | none => "<top-level>"
  place ++ " (ip " ++ Text.decimal p.ip ++ ")"

/-- A failed run: the fault, and the places of the calls in progress, innermost first. -/
structure Failure where
  fault : Fault
  trace : List CodePoint
  deriving DecidableEq, Repr

/-- The report of a failed run. -/
def Failure.report (f : Failure) : String :=
  let head := "error[" ++ f.fault.code ++ "]: " ++ f.fault.message
  if f.trace.isEmpty then head
  else head ++ "\n\nStack trace:" ++ String.join (f.trace.map fun p => "\n  at " ++ p.text)

end StackMachine
