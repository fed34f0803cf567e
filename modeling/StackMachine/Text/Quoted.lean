import StackMachine.Text.Decimal
import StackMachine.Text.Printable

/-!
# Quoted text

Text between double quotes, with the quote, the backslash and everything unprintable escaped.  A
quoted text has no line break inside.
-/

namespace StackMachine.Text

/-- The escape of a character by its code point. -/
def codePointEscape (c : Char) : String := "\\u\x7b" ++ hexadecimal c.toNat ++ "\x7d"

/-- A character as it stands in quoted text. -/
def quotedChar (c : Char) : String :=
  if c = '\x00' then "\\0"
  else if c = '\t' then "\\t"
  else if c = '\r' then "\\r"
  else if c = '\n' then "\\n"
  else if c = '"' then "\\\""
  else if c = '\\' then "\\\\"
  else if isPrintable c then String.singleton c
  else codePointEscape c

/-- Text in double quotes. -/
def quoted (s : String) : String :=
  s.toList.foldl (fun text c => text ++ quotedChar c) "\"" ++ "\""

end StackMachine.Text
