import StackMachine.Machine.State

/-!
# Operators

Arithmetic, comparison and negation on the top operands.
-/

namespace StackMachine

/-- The result of a binary operator.  Arithmetic and order take numbers, and addition also joins
    text; equality takes anything. -/
def binary (op : Opcode) (left right : Value) : Except Fault Value :=
  match op, left, right with
  | .add, .number x, .number y => .ok (.number (x.add y))
  | .add, .text s, .text t => .ok (.text (s ++ t))
  | .sub, .number x, .number y => .ok (.number (x.sub y))
  | .mul, .number x, .number y => .ok (.number (x.mul y))
  | .div, .number x, .number y => .ok (.number (x.div y))
  | .mod, .number x, .number y => match x.remainder? y with
    | some z => .ok (.number z)
    | none => .error .divisionByZero
  | .eq, left, right => .ok (.bool (left.equal right))
  | .neq, left, right => .ok (.bool (!left.equal right))
  | .lt, .number x, .number y => .ok (.bool (x.less y))
  | .le, .number x, .number y => .ok (.bool (x.lessEqual y))
  | .gt, .number x, .number y => .ok (.bool (y.less x))
  | .ge, .number x, .number y => .ok (.bool (y.lessEqual x))
  | op, left, right => .error (.typeMismatch op.mnemonic left.typeName (some right.typeName))

namespace Exec

/-- Pops two operands and pushes the result of an operator. -/
def binaryOperator (op : Opcode) : Exec Unit := do
  let right ← pop
  let left ← pop
  match binary op left right with
  | .ok v => push v
  | .error f => fault f

/-- Pops an operand and pushes whether it is falsy. -/
def negation : Exec Unit := do
  let v ← pop
  push (.bool (!v.truthy))

end Exec

end StackMachine
