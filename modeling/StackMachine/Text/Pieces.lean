import StackMachine.Binary64

/-!
# Pieces of text

Parts of a text by position and by separator.  Positions count characters and are given as
numbers, truncated toward zero.
-/

namespace StackMachine.Text

/-- The position that a number stands for in a text of the given length.  Negative numbers and
    NaNs are no position; positive infinity lies at the end. -/
def position? (length : Nat) (x : Binary64) : Option Nat :=
  match x.datum with
  | .infinite false => some length
  | _ => x.index?

/-- The character at a position. -/
def charAt? (cs : List Char) (x : Binary64) : Option Char :=
  match position? cs.length x with
  | some i => cs[i]?
  | none => none

/-- The characters from a start on, up to a count; what is no position counts as zero. -/
def cut (cs : List Char) (start count : Binary64) : List Char :=
  let first := (position? cs.length start).getD 0
  let size := (position? cs.length count).getD 0
  (cs.drop first).take size

/-- The parts between the separators, searched from left to right without overlap.  The second
    argument holds the characters since the last separator, the last one first. -/
def splitFrom (separator since : List Char) : List Char → List (List Char)
  | [] => [since.reverse]
  | c :: rest =>
    if separator ≠ [] ∧ separator.isPrefixOf (c :: rest) then
      since.reverse :: splitFrom separator [] ((c :: rest).drop separator.length)
    else splitFrom separator (c :: since) rest
termination_by cs => cs.length
decreasing_by
  · rename_i h
    have := List.length_pos_iff.mpr h.1
    simp only [List.length_drop, List.length_cons]
    omega
  · simp

/-- The parts of a text between separators, or its single characters if the separator is empty. -/
def split (cs separator : List Char) : List (List Char) :=
  if separator = [] then cs.map fun c => [c] else splitFrom separator [] cs

end StackMachine.Text
