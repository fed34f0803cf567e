import StackMachine.Text.Decimal

/-!
# JSON text

A JSON document and its two layouts: on one line without blanks, and on several lines with an
indent of two blanks a level.
-/

namespace StackMachine

/-- A JSON document.  A number is held as its text. -/
inductive Json
  | null
  | bool (b : Bool)
  | number (text : String)
  | string (s : String)
  | array (items : List Json)
  | object (fields : List (String × Json))

namespace Json

/-- A character as it stands in a JSON string. -/
def escapedChar (c : Char) : String :=
  if c = '"' then "\\\""
  else if c = '\\' then "\\\\"
  else if c = '\x08' then "\\b"
  else if c = '\x0c' then "\\f"
  else if c = '\n' then "\\n"
  else if c = '\r' then "\\r"
  else if c = '\t' then "\\t"
  else if c.toNat < 0x20 then "\\u00" ++ Text.padLeft 2 '0' (Text.hexadecimal c.toNat)
  else String.singleton c

/-- A string in double quotes. -/
def quoted (s : String) : String :=
  s.toList.foldl (fun text c => text ++ escapedChar c) "\"" ++ "\""

mutual

/-- The document on one line. -/
def compact : Json → String
  | .null => "null"
  | .bool b => if b then "true" else "false"
  | .number text => text
  | .string s => quoted s
  | .array items => "[" ++ String.intercalate "," (compactItems items) ++ "]"
  | .object fields => "\x7b" ++ String.intercalate "," (compactFields fields) ++ "\x7d"

/-- The items of an array, each on one line. -/
def compactItems : List Json → List String
  | [] => []
  | item :: rest => item.compact :: compactItems rest

/-- The fields of an object, each on one line. -/
def compactFields : List (String × Json) → List String
  | [] => []
  | (name, value) :: rest => (quoted name ++ ":" ++ value.compact) :: compactFields rest

end

/-- The start of a line at a level. -/
def newLine (level : Nat) : String := "\n" ++ String.ofList (List.replicate (2 * level) ' ')

/-- Entries between brackets: on lines of their own, or nothing between the brackets. -/
def block (opening closing : String) (level : Nat) : List String → String
  | [] => opening ++ closing
  | entries =>
    opening ++ newLine (level + 1) ++ String.intercalate ("," ++ newLine (level + 1)) entries ++
      newLine level ++ closing

mutual

/-- The document on several lines, nested in a given number of levels. -/
def pretty (level : Nat) : Json → String
  | .null => "null"
  | .bool b => if b then "true" else "false"
  | .number text => text
  | .string s => quoted s
  | .array items => block "[" "]" level (prettyItems (level + 1) items)
  | .object fields => block "\x7b" "\x7d" level (prettyFields (level + 1) fields)

/-- The items of an array, on several lines each. -/
def prettyItems (level : Nat) : List Json → List String
  | [] => []
  | item :: rest => item.pretty level :: prettyItems level rest

/-- The fields of an object, on several lines each. -/
def prettyFields (level : Nat) : List (String × Json) → List String
  | [] => []
  | (name, value) :: rest =>
    (quoted name ++ ": " ++ value.pretty level) :: prettyFields level rest

end

end Json

end StackMachine
