/-!
# Decimal and hexadecimal numerals

Natural numbers as text, and padding of a text to a column width.
-/

namespace StackMachine.Text

/-- A natural number in decimal, without leading zeros. -/
def decimal (n : Nat) : String := String.ofList (Nat.toDigits 10 n)

/-- A natural number in lower-case hexadecimal, without leading zeros. -/
def hexadecimal (n : Nat) : String := String.ofList (Nat.toDigits 16 n)

/-- Text filled up on the left to a width counted in characters; longer text stays as it is. -/
def padLeft (width : Nat) (fill : Char) (s : String) : String :=
  String.ofList (List.replicate (width - s.length) fill) ++ s

/-- A natural number in upper-case hexadecimal, filled up with zeros to a width. -/
def upperHexadecimal (width : Nat) (n : Nat) : String :=
  padLeft width '0' (String.ofList ((Nat.toDigits 16 n).map Char.toUpper))

/-- One byte as two lower-case hexadecimal digits. -/
def hexByte (b : UInt8) : String := padLeft 2 '0' (hexadecimal b.toNat)

/-- Bytes as lower-case hexadecimal digits, two for each byte. -/
def hexBytes (bytes : List UInt8) : String :=
  bytes.foldl (fun text b => text ++ hexByte b) ""

end StackMachine.Text
