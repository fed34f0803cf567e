import StackMachine.Program
import StackMachine.Text.Decimal
import StackMachine.Text.Utf8

/-!
# The artifact format

An artifact holds a program as bytes, in five sections:

* the header: the two bytes of `magic`;
* the symbols: for each a length byte and that many bytes of UTF-8;
* the literals: for each a tag byte and its payload, eight bytes for a number, and a length of
  four bytes and the UTF-8 bytes for a text;
* the top-level code: for each instruction the opcode's byte and its operand;
* the functions: for each a parameter count, the parameters of two bytes each, and its code.

Symbols, literals and every stretch of code end with the byte `endMark`; the functions end with
the artifact.  Numbers of more than one byte start with their low byte.
-/

namespace StackMachine.Artifact

/-- The number that every artifact starts with. -/
def magic : Nat := 0x1701

/-- The byte that ends the symbols, the literals and every stretch of code. -/
def endMark : UInt8 := 0xFF

/-- The tag of a number literal. -/
def numberTag : UInt8 := 0x82

/-- The tag of a text literal. -/
def textTag : UInt8 := 0x83

/-- Whether a tag is reserved: it stands alone and adds no literal. -/
def isReservedTag (tag : UInt8) : Bool := tag == 0x80 || tag == 0x81

/-- A section of an artifact, as errors name it. -/
inductive Part
  | header
  | symbols
  | literals
  | topLevel
  | functions
  deriving DecidableEq, Repr

/-- The name of a section. -/
def Part.name : Part → String
  | .header => "header"
  | .symbols => "symbols"
  | .literals => "literals"
  | .topLevel => "top-level"
  | .functions => "functions"

/-- Why bytes are no artifact. -/
inductive LoadError
  /-- The artifact starts with another number than `magic`. -/
  | badMagic (found : Nat)
  /-- The bytes end inside a section. -/
  | unexpectedEnd (part : Part)
  /-- A literal has a tag that the format does not know. -/
  | unknownLiteralTag (tag : UInt8)
  /-- A byte of code is no opcode. -/
  | unknownOpcode (byte : UInt8) (part : Part)
  /-- A symbol or a text literal is no UTF-8. -/
  | invalidText (part : Part)
  /-- The source broke. -/
  | unreadable (reason : String)
  deriving DecidableEq, Repr

/-- The text of an error. -/
def LoadError.message : LoadError → String
  | .badMagic found => s!"not a kulac file (magic 0x{Text.upperHexadecimal 4 found})"
  | .unexpectedEnd part => s!"unexpected end of file in {part.name} section"
  | .unknownLiteralTag tag => s!"undefined literal type 0x{Text.upperHexadecimal 2 tag.toNat}"
  | .unknownOpcode byte part =>
    s!"unknown opcode 0x{Text.upperHexadecimal 2 byte.toNat} in {part.name} section"
  | .invalidText part => s!"invalid UTF-8 text in {part.name} section"
  | .unreadable reason => s!"io error: {reason}"

/-- Why a program has no artifact. -/
inductive EncodeError
  /-- A symbol has as many bytes as the end mark counts, or more. -/
  | symbolTooLong (symbol : String)
  /-- A text literal has more bytes than its length field can count. -/
  | textTooLong (size : Nat)
  /-- A null or boolean literal, which has no tag. -/
  | unstorableLiteral
  /-- An operand needs more bytes than its opcode has. -/
  | operandTooLarge (operand : Nat) (op : Opcode)
  /-- A function has more parameters than a byte can count. -/
  | tooManyParameters (count : Nat)
  deriving DecidableEq, Repr

/-- The text of an error. -/
def EncodeError.message : EncodeError → String
  | .symbolTooLong symbol => s!"symbol `{symbol}` is too long"
  | .textTooLong size => s!"string literal of {Text.decimal size} bytes"
  | .unstorableLiteral => "only number and string literals can be stored in an artifact"
  | .operandTooLarge operand op => s!"operand {Text.decimal operand} does not fit {op.mnemonic}"
  | .tooManyParameters count => s!"{Text.decimal count} parameters"

/-- The number whose bytes are given, low byte first. -/
def ofLittleEndian : List UInt8 → Nat
  | [] => 0
  | b :: rest => b.toNat + 256 * ofLittleEndian rest

/-- The lowest `count` bytes of a number, low byte first. -/
def littleEndian : (count : Nat) → Nat → List UInt8
  | 0, _ => []
  | count + 1, n => UInt8.ofNat n :: littleEndian count (n / 256)

end StackMachine.Artifact
