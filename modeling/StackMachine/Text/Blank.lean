/-!
# White space

The characters with the property White_Space, and trimming of text at both ends.
-/

namespace StackMachine.Text

/-- White space: the separators of the space, line and paragraph kinds, the control characters
    from tabulator to carriage return, and the next-line control. -/
def isBlank (c : Char) : Bool :=
  let n := c.toNat
  (0x09 ≤ n && n ≤ 0x0D) || n == 0x20 || n == 0x85 || n == 0xA0 || n == 0x1680 ||
    (0x2000 ≤ n && n ≤ 0x200A) || n == 0x2028 || n == 0x2029 || n == 0x202F || n == 0x205F ||
    n == 0x3000

/-- Characters without the white space at either end. -/
def trimBlank (cs : List Char) : List Char :=
  ((cs.dropWhile isBlank).reverse.dropWhile isBlank).reverse

end StackMachine.Text
