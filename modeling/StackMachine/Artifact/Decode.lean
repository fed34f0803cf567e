import StackMachine.Artifact.Format
import StackMachine.Artifact.Source

/-!
# Reading artifacts

`Artifact.load` reads a program from a source of bytes, and `Artifact.decode` from bytes at hand.
Every section is a run of entries that `readAll` collects; each entry takes at least one byte,
which is why reading ends.
-/

namespace StackMachine.Artifact

/-- The next `n` bytes of a section. -/
def need (part : Part) (n : Nat) (s : Source) : Except LoadError (List UInt8 × Source) :=
  match s.take n with
  | .ok taken => .ok taken
  | .error .ended => .error (.unexpectedEnd part)
  | .error (.broken reason) => .error (.unreadable reason)

/-- The next `n` bytes of a section as a number. -/
def needNumber (part : Part) (n : Nat) (s : Source) : Except LoadError (Nat × Source) :=
  match need part n s with
  | .ok (bytes, rest) => .ok (ofLittleEndian bytes, rest)
  | .error e => .error e

/-- The next `n` bytes of a section as text.  All bytes are taken before they are looked at. -/
def needText (part : Part) (n : Nat) (s : Source) : Except LoadError (String × Source) :=
  match need part n s with
  | .ok (bytes, rest) => match Text.ofUtf8? bytes with
    | some text => .ok (text, rest)
    | none => .error (.invalidText part)
  | .error e => .error e

theorem size_of_need {part : Part} {n : Nat} {s rest : Source} {bytes : List UInt8}
    (h : need part n s = .ok (bytes, rest)) : rest.size + n = s.size := by
  unfold need at h
  split at h
  · rename_i taken htake
    cases h
    exact Source.size_of_take htake
  · cases h
  · cases h

theorem size_of_needNumber {part : Part} {n value : Nat} {s rest : Source}
    (h : needNumber part n s = .ok (value, rest)) : rest.size + n = s.size := by
  unfold needNumber at h
  split at h
  · rename_i bytes rest' hneed
    cases h
    exact size_of_need hneed
  · cases h

theorem size_of_needText {part : Part} {n : Nat} {s rest : Source} {text : String}
    (h : needText part n s = .ok (text, rest)) : rest.size + n = s.size := by
  unfold needText at h
  split at h
  · rename_i bytes rest' hneed
    split at h
    · cases h
      exact size_of_need hneed
    · cases h
  · cases h

/-- What stands at some place in a section. -/
inductive Entry (α : Type)
  /-- The section's end. -/
  | finished (rest : Source)
  /-- An entry without content. -/
  | reserved (rest : Source)
  /-- An entry. -/
  | item (a : α) (rest : Source)

/-- Every entry takes bytes away from the source it is read from. -/
def Entry.Shorter {α : Type} (s : Source) : Entry α → Prop
  | .finished _ => True
  | .reserved rest => rest.size < s.size
  | .item _ rest => rest.size < s.size

/-- The entries up to a section's end, after those found so far. -/
def readAll {α : Type} (entry : Source → Except LoadError (Entry α))
    (hentry : ∀ s e, entry s = .ok e → e.Shorter s) (s : Source) (found : Array α) :
    Except LoadError (Array α × Source) :=
  match _h : entry s with
  | .error e => .error e
  | .ok (.finished rest) => .ok (found, rest)
  | .ok (.reserved rest) => readAll entry hentry rest found
  | .ok (.item a rest) => readAll entry hentry rest (found.push a)
termination_by s.size
decreasing_by
  · exact hentry _ _ _h
  · exact hentry _ _ _h

/-- Reading entries makes no source larger. -/
theorem size_of_readAll {α : Type} {entry : Source → Except LoadError (Entry α)}
    {hentry : ∀ s e, entry s = .ok e → e.Shorter s}
    (hfinished : ∀ s rest, entry s = .ok (.finished rest) → rest.size ≤ s.size)
    {s rest : Source} {found all : Array α}
    (h : readAll entry hentry s found = .ok (all, rest)) : rest.size ≤ s.size := by
  fun_induction readAll entry hentry s found with
  | case1 => cases h
  | case2 s found rest' hfin =>
    cases h
    exact hfinished _ _ hfin
  | case3 s found rest' hres ih =>
    exact Nat.le_trans (ih h) (Nat.le_of_lt (hentry _ _ hres))
  | case4 s found a rest' hitem ih =>
    exact Nat.le_trans (ih h) (Nat.le_of_lt (hentry _ _ hitem))

/-- A symbol, or the end mark. -/
def symbolEntry (s : Source) : Except LoadError (Entry String) :=
  match needNumber .symbols 1 s with
  | .error e => .error e
  | .ok (length, s₁) =>
    if length = endMark.toNat then .ok (.finished s₁)
    else match needText .symbols length s₁ with
      | .error e => .error e
      | .ok (symbol, s₂) => .ok (.item symbol s₂)

/-- A literal, a reserved tag, or the end mark. -/
def literalEntry (s : Source) : Except LoadError (Entry Literal) :=
  match needNumber .literals 1 s with
  | .error e => .error e
  | .ok (byte, s₁) =>
    let tag := UInt8.ofNat byte
    if tag = endMark then .ok (.finished s₁)
    else if isReservedTag tag then .ok (.reserved s₁)
    else if tag = numberTag then
      match needNumber .literals 8 s₁ with
      | .error e => .error e
      | .ok (bits, s₂) => .ok (.item (.number ⟨UInt64.ofNat bits⟩) s₂)
    else if tag = textTag then
      match needNumber .literals 4 s₁ with
      | .error e => .error e
      | .ok (length, s₂) => match needText .literals length s₂ with
        | .error e => .error e
        | .ok (text, s₃) => .ok (.item (.text text) s₃)
    else .error (.unknownLiteralTag tag)

/-- An instruction, or the end mark. -/
def instructionEntry (part : Part) (s : Source) : Except LoadError (Entry Instruction) :=
  match needNumber part 1 s with
  | .error e => .error e
  | .ok (byte, s₁) =>
    if UInt8.ofNat byte = endMark then .ok (.finished s₁)
    else match Opcode.ofByte? (UInt8.ofNat byte) with
      | none => .error (.unknownOpcode (UInt8.ofNat byte) part)
      | some op => match needNumber part op.width s₁ with
        | .error e => .error e
        | .ok (operand, s₂) => .ok (.item ⟨op, UInt16.ofNat operand⟩ s₂)

theorem symbolEntry_shorter (s : Source) (e : Entry String) (h : symbolEntry s = .ok e) :
    e.Shorter s := by
  unfold symbolEntry at h
  split at h
  · cases h
  · rename_i length s₁ hlength
    have h₁ := size_of_needNumber hlength
    split at h
    · cases h; trivial
    · split at h
      · cases h
      · rename_i symbol s₂ hsymbol
        have h₂ := size_of_needText hsymbol
        cases h
        simp only [Entry.Shorter]
        omega

theorem literalEntry_shorter (s : Source) (e : Entry Literal) (h : literalEntry s = .ok e) :
    e.Shorter s := by
  unfold literalEntry at h
  split at h
  · cases h
  · rename_i byte s₁ hbyte
    have h₁ := size_of_needNumber hbyte
    dsimp only at h
    split at h
    · cases h; trivial
    · split at h
      · cases h
        simp only [Entry.Shorter]
        omega
      · split at h
        · split at h
          · cases h
          · rename_i bits s₂ hbits
            have h₂ := size_of_needNumber hbits
            cases h
            simp only [Entry.Shorter]
            omega
        · split at h
          · split at h
            · cases h
            · rename_i length s₂ hlength
              have h₂ := size_of_needNumber hlength
              split at h
              · cases h
              · rename_i text s₃ htext
                have h₃ := size_of_needText htext
                cases h
                simp only [Entry.Shorter]
                omega
          · cases h

theorem instructionEntry_shorter (part : Part) (s : Source) (e : Entry Instruction)
    (h : instructionEntry part s = .ok e) : e.Shorter s := by
  unfold instructionEntry at h
  split at h
  · cases h
  · rename_i byte s₁ hbyte
    have h₁ := size_of_needNumber hbyte
    split at h
    · cases h; trivial
    · split at h
      · cases h
      · split at h
        · cases h
        · rename_i operand s₂ hoperand
          have h₂ := size_of_needNumber hoperand
          cases h
          simp only [Entry.Shorter]
          omega

/-- The end of a stretch of code is the byte after its last instruction. -/
theorem instructionEntry_finished (part : Part) (s rest : Source)
    (h : instructionEntry part s = .ok (.finished rest)) : rest.size ≤ s.size := by
  unfold instructionEntry at h
  split at h
  · cases h
  · rename_i byte s₁ hbyte
    have h₁ := size_of_needNumber hbyte
    split at h
    · cases h; omega
    · split at h
      · cases h
      · split at h <;> cases h

/-- The code up to its end mark. -/
def readCode (part : Part) (s : Source) : Except LoadError (Array Instruction × Source) :=
  readAll (instructionEntry part) (instructionEntry_shorter part) s #[]

/-- Bytes in pairs as two-byte numbers; a last byte without a partner is dropped. -/
def pairs : List UInt8 → List UInt16
  | low :: high :: rest => UInt16.ofNat (ofLittleEndian [low, high]) :: pairs rest
  | _ => []

/-- A function, or the end of the artifact. -/
def functionEntry (s : Source) : Except LoadError (Entry FunctionDef) :=
  match s.take 1 with
  | .error .ended => .ok (.finished s)
  | .error (.broken reason) => .error (.unreadable reason)
  | .ok (count, s₁) => match need .functions (2 * ofLittleEndian count) s₁ with
    | .error e => .error e
    | .ok (params, s₂) => match readCode .functions s₂ with
      | .error e => .error e
      | .ok (code, s₃) => .ok (.item ⟨(pairs params).toArray, code⟩ s₃)

theorem functionEntry_shorter (s : Source) (e : Entry FunctionDef)
    (h : functionEntry s = .ok e) : e.Shorter s := by
  unfold functionEntry at h
  split at h
  · cases h; trivial
  · cases h
  · rename_i count s₁ hcount
    have h₁ := Source.size_of_take hcount
    split at h
    · cases h
    · rename_i params s₂ hparams
      have h₂ := size_of_need hparams
      split at h
      · cases h
      · rename_i code s₃ hcode
        have h₃ := size_of_readAll (instructionEntry_finished .functions) hcode
        cases h
        simp only [Entry.Shorter]
        omega

/-- The program that a source holds.  Reading stops at the first error. -/
def load (s : Source) : Except LoadError Program := do
  let (found, s) ← needNumber .header 2 s
  if found ≠ magic then throw (.badMagic found)
  let (symbols, s) ← readAll symbolEntry symbolEntry_shorter s #[]
  let (literals, s) ← readAll literalEntry literalEntry_shorter s #[]
  let (code, s) ← readCode .topLevel s
  let (functions, _) ← readAll functionEntry functionEntry_shorter s #[]
  return { symbols, literals, code, functions }

/-- The program that bytes hold. -/
def decode (bytes : List UInt8) : Except LoadError Program := load (.ofBytes bytes)

end StackMachine.Artifact
