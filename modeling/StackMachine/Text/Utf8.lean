/-!
# UTF-8

Text as UTF-8 bytes and back.  `utf8` and `ofUtf8?` are inverse to each other; `lossy` reads any
bytes and shows what is no UTF-8 as replacement characters.
-/

namespace StackMachine.Text

/-- The UTF-8 bytes of a text. -/
def utf8 (s : String) : List UInt8 := s.toUTF8.data.toList

/-- The text with the given UTF-8 bytes, if they are valid. -/
def ofUtf8? (bytes : List UInt8) : Option String := String.fromUTF8? ⟨bytes.toArray⟩

/-- A text is read back from its bytes. -/
@[simp]
theorem ofUtf8?_utf8 (s : String) : ofUtf8? (utf8 s) = some s := by
  simp [ofUtf8?, utf8, String.fromUTF8?, String.fromUTF8, s.isValidUTF8]

/-- Only the bytes of a text are read as that text. -/
theorem utf8_of_ofUtf8? {bytes : List UInt8} {s : String} (h : ofUtf8? bytes = some s) :
    utf8 s = bytes := by
  simp only [ofUtf8?, String.fromUTF8?] at h
  split at h
  · cases h
    simp [utf8, String.fromUTF8]
  · cases h

/-- A character of which some bytes are still missing: the bits read so far, the number of
    bytes to come, and the range the next one lies in. -/
structure Unfinished where
  value : Nat
  missing : Nat
  low : Nat
  high : Nat

/-- The unfinished character that a lead byte starts, or nothing if no character of two or more
    bytes starts with it.  The ranges shut out overlong forms, surrogates and values above
    U+10FFFF. -/
def lead? (b : Nat) : Option Unfinished :=
  if 0xC2 ≤ b && b ≤ 0xDF then some ⟨b - 0xC0, 1, 0x80, 0xBF⟩
  else if b = 0xE0 then some ⟨b - 0xE0, 2, 0xA0, 0xBF⟩
  else if b = 0xED then some ⟨b - 0xE0, 2, 0x80, 0x9F⟩
  else if 0xE1 ≤ b && b ≤ 0xEF then some ⟨b - 0xE0, 2, 0x80, 0xBF⟩
  else if b = 0xF0 then some ⟨b - 0xF0, 3, 0x90, 0xBF⟩
  else if 0xF1 ≤ b && b ≤ 0xF3 then some ⟨b - 0xF0, 3, 0x80, 0xBF⟩
  else if b = 0xF4 then some ⟨b - 0xF0, 3, 0x80, 0x8F⟩
  else none

/-- The state of a lossy reader: the text so far and the character it is in the middle of. -/
structure Lossy where
  text : String
  pending : Option Unfinished

namespace Lossy

/-- The replacement character. -/
def replacement : Char := Char.ofNat 0xFFFD

/-- Reads a byte at the start of a character. -/
def start (text : String) (b : Nat) : Lossy :=
  if b < 0x80 then ⟨text.push (Char.ofNat b), none⟩
  else match lead? b with
    | some u => ⟨text, some u⟩
    | none => ⟨text.push replacement, none⟩

/-- Reads one byte.  A character that breaks off is replaced as a whole, and the byte that broke
    it starts anew. -/
def feed (r : Lossy) (byte : UInt8) : Lossy :=
  let b := byte.toNat
  match r.pending with
  | none => start r.text b
  | some u =>
    if u.low ≤ b && b ≤ u.high then
      let value := u.value * 64 + (b - 0x80)
      if u.missing ≤ 1 then ⟨r.text.push (Char.ofNat value), none⟩
      else ⟨r.text, some ⟨value, u.missing - 1, 0x80, 0xBF⟩⟩
    else start (r.text.push replacement) b

/-- The text when no bytes follow. -/
def finish (r : Lossy) : String :=
  if r.pending.isSome then r.text.push replacement else r.text

end Lossy

/-- Bytes as text, where each longest stretch that starts a character without finishing it, and
    each byte that starts none, becomes one replacement character. -/
def lossy (bytes : List UInt8) : String := (bytes.foldl Lossy.feed ⟨"", none⟩).finish

end StackMachine.Text
