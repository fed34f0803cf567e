import StackMachine.Artifact.Encode
import StackMachine.Proofs.Artifact.Reading
import StackMachine.Proofs.Sequence

/-!
# Artifacts are read back

A program that has an artifact is read back from it (`Artifact.decode_encode`), but for the
operands of instructions that have no bytes for them.
-/

namespace StackMachine

/-- The instruction without the operand that its opcode has no bytes for. -/
def Instruction.normal (i : Instruction) : Instruction :=
  if i.op.width = 0 then { i with operand := 0 } else i

theorem Instruction.op_normal (i : Instruction) : i.normal.op = i.op := by
  rw [normal]
  split <;> rfl

/-- The function with the instructions of its code as they are in an artifact. -/
def FunctionDef.normal (f : FunctionDef) : FunctionDef :=
  { f with code := f.code.map Instruction.normal }

namespace Program

/-- The program with all instructions as they are in an artifact. -/
def normal (p : Program) : Program :=
  { p with
    code := p.code.map Instruction.normal
    functions := p.functions.map FunctionDef.normal }

/-- The instructions of all chunks. -/
def instructions (p : Program) : List Instruction :=
  p.code.toList ++ p.functions.toList.flatMap fun f => f.code.toList

end Program

theorem map_normal_eq_self {code : Array Instruction}
    (h : ∀ i ∈ code.toList, i.op.width = 0 → i.operand = 0) :
    code.map Instruction.normal = code := by
  apply Array.toList_inj.mp
  rw [Array.toList_map]
  conv => rhs; rw [← List.map_id code.toList]
  apply List.map_congr_left
  intro i hi
  rw [Instruction.normal]
  split
  · rename_i hwidth
    rw [← h i hi hwidth]
    rfl
  · rfl

/-- A program whose instructions carry no operands without bytes is as it is in an artifact. -/
theorem Program.normal_eq_self {p : Program}
    (h : ∀ i ∈ p.instructions, i.op.width = 0 → i.operand = 0) : p.normal = p := by
  have hcode : p.code.map Instruction.normal = p.code :=
    map_normal_eq_self fun i hi => h i (List.mem_append_left _ hi)
  have hfunctions : p.functions.map FunctionDef.normal = p.functions := by
    apply Array.toList_inj.mp
    rw [Array.toList_map]
    conv => rhs; rw [← List.map_id p.functions.toList]
    apply List.map_congr_left
    intro f hf
    have hf' : f.code.map Instruction.normal = f.code := by
      refine map_normal_eq_self fun i hi => h i (List.mem_append_right _ ?_)
      exact List.mem_flatMap.mpr ⟨f, hf, hi⟩
    rw [FunctionDef.normal, hf']
    rfl
  rw [normal, hcode, hfunctions]

namespace Artifact

open Source

/-! ## Entries are read back -/

theorem reads_symbol {symbol : String} {bytes : List UInt8}
    (h : encodeSymbol symbol = .ok bytes) : Reads symbolEntry bytes symbol := by
  unfold encodeSymbol at h
  dsimp only at h
  split at h
  · rename_i hlength
    cases h
    intro tail
    have hbyte : (UInt8.ofNat (Text.utf8 symbol).length).toNat = (Text.utf8 symbol).length :=
      UInt8.toNat_ofNat_of_lt' (Nat.lt_of_lt_of_le hlength (by decide))
    rw [List.cons_append, symbolEntry, needNumber_byte]
    dsimp only
    rw [hbyte, if_neg (Nat.ne_of_lt hlength), needText_utf8]
  · cases h

theorem reads_literal {literal : Literal} {bytes : List UInt8}
    (h : encodeLiteral literal = .ok bytes) : Reads literalEntry bytes literal := by
  intro tail
  cases literal with
  | null => cases h
  | bool b => cases h
  | number x =>
    cases h
    have hlt : x.bits.toNat < 256 ^ 8 := x.bits.toNat_lt
    rw [List.cons_append, literalEntry, needNumber_byte]
    dsimp only
    rw [UInt8.ofNat_toNat, if_neg (by decide), if_neg (by decide), if_pos rfl,
      needNumber_littleEndian hlt]
    dsimp only
    rw [UInt64.ofNat_toNat]
  | text s =>
    unfold encodeLiteral at h
    dsimp only at h
    split at h
    · rename_i hlength
      cases h
      have hlt : (Text.utf8 s).length < 256 ^ 4 := hlength
      rw [List.cons_append, List.append_assoc, literalEntry, needNumber_byte]
      dsimp only
      rw [UInt8.ofNat_toNat, if_neg (by decide), if_neg (by decide), if_neg (by decide),
        if_pos rfl, needNumber_littleEndian hlt]
      dsimp only
      rw [needText_utf8]
    · cases h

/-- No opcode's byte is an end mark. -/
theorem byte_ne_endMark (op : Opcode) : op.byte ≠ endMark := by
  cases op <;> decide

/-- An operand that was written is read back from its bytes. -/
theorem ofNat_operand {i : Instruction} (h : ¬(i.op.width = 1 ∧ 255 < i.operand.toNat)) :
    UInt16.ofNat (ofLittleEndian (littleEndian i.op.width i.operand.toNat)) =
      i.normal.operand := by
  have hlt : i.operand.toNat < 2 ^ 16 := i.operand.toNat_lt
  have hwidth : i.op.width = 0 ∨ i.op.width = 1 ∨ i.op.width = 2 := by
    cases i.op <;> decide
  rw [Instruction.normal]
  rcases hwidth with hwidth | hwidth | hwidth <;> rw [hwidth]
  · rfl
  · rw [ofLittleEndian_littleEndian (by omega), UInt16.ofNat_toNat]
    rfl
  · rw [ofLittleEndian_littleEndian (by omega), UInt16.ofNat_toNat]
    rfl

theorem reads_instruction {part : Part} {i : Instruction} {bytes : List UInt8}
    (h : encodeInstruction i = .ok bytes) : Reads (instructionEntry part) bytes i.normal := by
  unfold encodeInstruction at h
  split at h
  · cases h
  · rename_i hoperand
    cases h
    intro tail
    rw [List.cons_append, instructionEntry, needNumber_byte]
    dsimp only
    rw [UInt8.ofNat_toNat, if_neg (byte_ne_endMark i.op), Opcode.ofByte?_byte]
    dsimp only
    rw [needNumber, need_ofBytes (length_littleEndian _ _)]
    dsimp only
    rw [ofNat_operand hoperand, ← i.op_normal]

/-! ## Sections are read back -/

section Sections

variable {α : Type} {encodeEntry : α → Except EncodeError (List UInt8)}

/-- What is written for a list is what is written for each of its members, in order. -/
theorem mapM_eq_ok {xs : List α} {parts : List (List UInt8)}
    (h : xs.mapM encodeEntry = .ok parts) :
    List.Forall₂ (fun x bytes => encodeEntry x = .ok bytes) xs parts := by
  induction xs generalizing parts with
  | nil =>
    cases h
    exact .nil
  | cons x xs ih =>
    rw [List.mapM_cons] at h
    obtain ⟨bytes, hx, h⟩ := except_bind_eq_ok h
    obtain ⟨rest, hxs, h⟩ := except_bind_eq_ok h
    cases h
    exact .cons hx (ih hxs)

variable {entry : Source → Except LoadError (Entry α)}
  {hentry : ∀ s e, entry s = .ok e → e.Shorter s} {change : α → α}

/-- Where each entry is read back, perhaps changed, so are all of them. -/
theorem readAll_encodeAll
    (hreads : ∀ x bytes, encodeEntry x = .ok bytes → Reads entry bytes (change x))
    {xs : Array α} {bytes : List UInt8} (h : encodeAll encodeEntry xs = .ok bytes)
    (tail : List UInt8) :
    readAll entry hentry (ofBytes (bytes ++ tail)) #[] =
      readAll entry hentry (ofBytes tail) (xs.map change) := by
  obtain ⟨parts, hparts, h⟩ := except_bind_eq_ok h
  cases h
  have hitems : List.Forall₂ (Reads entry) parts (xs.toList.map change) := by
    rw [List.forall₂_map_right_iff]
    exact ((mapM_eq_ok hparts).imp hreads).flip
  rw [readAll_flatten hitems, Array.empty_append, ← Array.toList_map]

theorem readAll_encodeAll_endMark
    (hreads : ∀ x bytes, encodeEntry x = .ok bytes → Reads entry bytes (change x))
    (hend : ∀ tail, entry (ofBytes (endMark :: tail)) = .ok (.finished (ofBytes tail)))
    {xs : Array α} {bytes : List UInt8} (h : encodeAll encodeEntry xs = .ok bytes)
    (tail : List UInt8) :
    readAll entry hentry (ofBytes (bytes ++ [endMark] ++ tail)) #[] =
      .ok (xs.map change, ofBytes tail) := by
  rw [List.append_assoc, List.singleton_append, readAll_encodeAll hreads h,
    readAll_finished (hend tail)]

end Sections

theorem readSymbols_encodeAll {symbols : Array String} {bytes : List UInt8}
    (h : encodeAll encodeSymbol symbols = .ok bytes) (tail : List UInt8) :
    readAll symbolEntry symbolEntry_shorter (ofBytes (bytes ++ [endMark] ++ tail)) #[] =
      .ok (symbols, ofBytes tail) := by
  have hreads : ∀ x bytes, encodeSymbol x = .ok bytes → Reads symbolEntry bytes (id x) :=
    fun _ _ => reads_symbol
  rw [readAll_encodeAll_endMark hreads symbolEntry_endMark h, Array.map_id]

theorem readLiterals_encodeAll {literals : Array Literal} {bytes : List UInt8}
    (h : encodeAll encodeLiteral literals = .ok bytes) (tail : List UInt8) :
    readAll literalEntry literalEntry_shorter (ofBytes (bytes ++ [endMark] ++ tail)) #[] =
      .ok (literals, ofBytes tail) := by
  have hreads : ∀ x bytes, encodeLiteral x = .ok bytes → Reads literalEntry bytes (id x) :=
    fun _ _ => reads_literal
  rw [readAll_encodeAll_endMark hreads literalEntry_endMark h, Array.map_id]

theorem readCode_encodeCode {part : Part} {code : Array Instruction} {bytes : List UInt8}
    (h : encodeCode code = .ok bytes) (tail : List UInt8) :
    readCode part (ofBytes (bytes ++ tail)) =
      .ok (code.map Instruction.normal, ofBytes tail) := by
  obtain ⟨all, hall, h⟩ := except_bind_eq_ok h
  cases h
  exact readAll_encodeAll_endMark (fun _ _ => reads_instruction) instructionEntry_endMark hall tail

/-- A function is read back; a count of 255 parameters is not mistaken for an end mark, since no
    end mark is looked for where a function starts. -/
theorem reads_function {f : FunctionDef} {bytes : List UInt8}
    (h : encodeFunction f = .ok bytes) : Reads functionEntry bytes f.normal := by
  unfold encodeFunction at h
  split at h
  · cases h
  · rename_i hsize
    obtain ⟨code, hcode, h⟩ := except_bind_eq_ok h
    cases h
    intro tail
    have hcount : (UInt8.ofNat f.params.size).toNat = f.params.size :=
      UInt8.toNat_ofNat_of_lt' (Nat.lt_succ_of_le (Nat.le_of_not_lt hsize))
    have hlength : (f.params.toList.flatMap fun p => littleEndian 2 p.toNat).length =
        2 * ofLittleEndian [UInt8.ofNat f.params.size] := by
      rw [length_flatMap_littleEndian, ofLittleEndian, ofLittleEndian, hcount, Array.length_toList]
      rfl
    rw [List.cons_append, ← List.singleton_append, List.append_assoc, functionEntry,
      take_ofBytes List.length_singleton]
    dsimp only
    rw [need_ofBytes hlength]
    dsimp only
    rw [readCode_encodeCode hcode]
    dsimp only
    rw [pairs_flatMap, FunctionDef.normal, Array.toArray_toList]

/-- The functions end with the artifact. -/
theorem readFunctions_encodeAll {functions : Array FunctionDef} {bytes : List UInt8}
    (h : encodeAll encodeFunction functions = .ok bytes) :
    readAll functionEntry functionEntry_shorter (ofBytes bytes) #[] =
      .ok (functions.map FunctionDef.normal, ofBytes []) := by
  rw [← List.append_nil bytes, readAll_encodeAll (fun _ _ => reads_function) h,
    readAll_finished functionEntry_nil]

/-- Reading an artifact undoes writing it: it gives the program, with the operand of every
    instruction that has no operand bytes set to zero, and so the program itself if these operands
    are zero already. -/
theorem decode_encode {p : Program} {bytes : List UInt8} (h : encode p = .ok bytes) :
    decode bytes = .ok p.normal ∧
      ((∀ i ∈ p.instructions, i.op.width = 0 → i.operand = 0) → decode bytes = .ok p) := by
  have hdecode : decode bytes = .ok p.normal := by
    obtain ⟨symbols, hsymbols, h⟩ := except_bind_eq_ok h
    obtain ⟨literals, hliterals, h⟩ := except_bind_eq_ok h
    obtain ⟨code, hcode, h⟩ := except_bind_eq_ok h
    obtain ⟨functions, hfunctions, h⟩ := except_bind_eq_ok h
    cases h
    have hmagic : magic < 256 ^ 2 := by decide
    rw [decode, List.append_assoc, List.append_assoc, List.append_assoc]
    apply load_of_sections (needNumber_littleEndian hmagic _)
    · exact readSymbols_encodeAll hsymbols _
    · exact readLiterals_encodeAll hliterals _
    · exact readCode_encodeCode hcode functions
    · exact readFunctions_encodeAll hfunctions
  refine ⟨hdecode, fun hzero => ?_⟩
  rw [hdecode, Program.normal_eq_self hzero]

/-- Bytes like the end mark in a number, an operand and a parameter do no harm, and the operand of
    a pop is lost. -/
theorem decode_encode_marks :
    let p : Program := ⟨#["ab"], #[.number ⟨0x7FF80000000000FF⟩],
      #[⟨.load, 0x00FF⟩, ⟨.pop, 7⟩], #[⟨#[0xFFFF], #[⟨.print, 255⟩]⟩]⟩
    ∃ bytes, encode p = .ok bytes ∧ decode bytes = .ok p.normal ∧
      p.normal = { p with code := #[⟨.load, 0x00FF⟩, ⟨.pop, 0⟩] } := by
  intro p
  have hencode : encode p = .ok [0x01, 0x17, 2, 97, 98, 0xFF, 0x82, 0xFF, 0, 0, 0, 0, 0, 0xF8,
      0x7F, 0xFF, 0x02, 0xFF, 0, 0x05, 0xFF, 1, 0xFF, 0xFF, 0x4E, 0xFF, 0xFF] := rfl
  refine ⟨_, hencode, (decode_encode hencode).1, ?_⟩
  simp [p, Program.normal, FunctionDef.normal, Instruction.normal, Opcode.width]

end Artifact

end StackMachine
