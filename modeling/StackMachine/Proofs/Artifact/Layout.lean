import StackMachine.Proofs.Artifact.RoundTrip

/-!
# Where things stand in an artifact

A `Layout` is an artifact cut into the bytes of its entries, section by section.  `layout` gives
the one that writing a program produces, and `Layout.Holds` allows in addition for reserved tags
among the literals.  Bytes that have such a layout are read as the program
(`decode_of_holds`).
-/

namespace StackMachine.Artifact

open Source

/-- `padded` are the entries, in order, with any number of reserved tags in front of each of them
    and after the last. -/
inductive Padded (isReserved : UInt8 → Bool) : List (List UInt8) → List (List UInt8) → Prop
  | nil : Padded isReserved [] []
  | entry (bytes : List UInt8) {entries padded : List (List UInt8)}
      (h : Padded isReserved entries padded) :
      Padded isReserved (bytes :: entries) (bytes :: padded)
  | reserved {tag : UInt8} (htag : isReserved tag = true) {entries padded : List (List UInt8)}
      (h : Padded isReserved entries padded) : Padded isReserved entries ([tag] :: padded)

/-- Nothing is added where no entry is a reserved tag. -/
theorem Padded.eq_of_not_mem {isReserved : UInt8 → Bool} {entries padded : List (List UInt8)}
    (h : Padded isReserved entries padded)
    (hnone : ∀ tag, isReserved tag = true → [tag] ∉ padded) : padded = entries := by
  induction h with
  | nil => rfl
  | entry bytes h ih =>
    rw [ih fun tag htag hmem => hnone tag htag (List.mem_cons_of_mem _ hmem)]
  | reserved htag h ih => exact absurd List.mem_cons_self (hnone _ htag)

theorem Padded.refl (isReserved : UInt8 → Bool) (entries : List (List UInt8)) :
    Padded isReserved entries entries := by
  induction entries with
  | nil => exact .nil
  | cons bytes entries ih => exact .entry bytes ih

/-- The entries of an artifact's sections, each as its bytes.  A reserved tag among the literals
    is an entry of its own. -/
structure Layout where
  symbols : List (List UInt8)
  literals : List (List UInt8)
  code : List (List UInt8)
  functions : List (List UInt8)

/-- Entries and the end mark after them. -/
def closed (entries : List (List UInt8)) : List UInt8 := entries.flatten ++ [endMark]

namespace Layout

/-- The bytes of the sections whose length is known from the sections themselves. -/
def sections (l : Layout) : List (Part × List UInt8) :=
  [(.header, littleEndian 2 magic), (.symbols, closed l.symbols), (.literals, closed l.literals),
    (.topLevel, closed l.code)]

/-- The whole artifact. -/
def bytes (l : Layout) : List UInt8 := (l.sections.map Prod.snd).flatten ++ l.functions.flatten

theorem bytes_eq (l : Layout) : l.bytes = littleEndian 2 magic ++
    (closed l.symbols ++ (closed l.literals ++ (closed l.code ++ l.functions.flatten))) := by
  simp [bytes, sections]

/-- `l` is `c` with reserved tags added among the literals. -/
structure Pads (c l : Layout) : Prop where
  symbols : l.symbols = c.symbols
  literals : Padded isReservedTag c.literals l.literals
  code : l.code = c.code
  functions : l.functions = c.functions

theorem Pads.eq_of_not_mem {c l : Layout} (h : c.Pads l)
    (hnone : ∀ tag, isReservedTag tag = true → [tag] ∉ l.literals) : l = c := by
  obtain ⟨hsymbols, hliterals, hcode, hfunctions⟩ := h
  cases l
  cases c
  simp only [Layout.mk.injEq]
  exact ⟨hsymbols, hliterals.eq_of_not_mem hnone, hcode, hfunctions⟩

end Layout

/-- The layout of a program's artifact, or the first problem in writing order. -/
def layout (p : Program) : Except EncodeError Layout := do
  let symbols ← p.symbols.toList.mapM encodeSymbol
  let literals ← p.literals.toList.mapM encodeLiteral
  let code ← p.code.toList.mapM encodeInstruction
  let functions ← p.functions.toList.mapM encodeFunction
  return { symbols, literals, code, functions }

/-- An artifact is written entry by entry. -/
theorem encode_eq_map_layout (p : Program) : encode p = (layout p).map Layout.bytes := by
  unfold encode layout encodeCode encodeAll
  cases p.symbols.toList.mapM encodeSymbol with
  | error e => rfl
  | ok symbols =>
    cases p.literals.toList.mapM encodeLiteral with
    | error e => rfl
    | ok literals =>
      cases p.code.toList.mapM encodeInstruction with
      | error e => rfl
      | ok code =>
        cases p.functions.toList.mapM encodeFunction with
        | error e => rfl
        | ok functions =>
          simp [bind, Except.bind, pure, Except.pure, Except.map, Layout.bytes_eq, closed]

theorem encode_of_layout {p : Program} {c : Layout} (h : layout p = .ok c) :
    encode p = .ok c.bytes := by
  rw [encode_eq_map_layout, h]
  rfl

/-- The layout of a program is made of those of its parts. -/
theorem layout_eq_ok_iff {p : Program} {l : Layout} : layout p = .ok l ↔
    p.symbols.toList.mapM encodeSymbol = .ok l.symbols ∧
    p.literals.toList.mapM encodeLiteral = .ok l.literals ∧
    p.code.toList.mapM encodeInstruction = .ok l.code ∧
    p.functions.toList.mapM encodeFunction = .ok l.functions := by
  constructor
  · intro h
    obtain ⟨symbols, hsymbols, h⟩ := except_bind_eq_ok h
    obtain ⟨literals, hliterals, h⟩ := except_bind_eq_ok h
    obtain ⟨code, hcode, h⟩ := except_bind_eq_ok h
    obtain ⟨functions, hfunctions, h⟩ := except_bind_eq_ok h
    cases h
    exact ⟨hsymbols, hliterals, hcode, hfunctions⟩
  · rintro ⟨hsymbols, hliterals, hcode, hfunctions⟩
    rw [layout, hsymbols, hliterals, hcode, hfunctions]
    rfl

/-- The bytes of the layout are an artifact of the program: the one that is written for it, or
    that one with reserved tags added. -/
def Layout.Holds (l : Layout) (p : Program) : Prop := ∃ c, layout p = .ok c ∧ c.Pads l

/-! ## Artifacts are read, reserved tags or not -/

theorem encodeAll_of_mapM {α : Type} {encodeEntry : α → Except EncodeError (List UInt8)}
    {xs : Array α} {entries : List (List UInt8)}
    (h : xs.toList.mapM encodeEntry = .ok entries) :
    encodeAll encodeEntry xs = .ok entries.flatten := by
  rw [encodeAll, h]
  rfl

theorem literalEntry_reserved {tag : UInt8} (h : isReservedTag tag = true) (tail : List UInt8) :
    literalEntry (ofBytes (tag :: tail)) = .ok (.reserved (ofBytes tail)) := by
  have hmark : tag ≠ endMark := by
    rintro rfl
    cases h
  rw [literalEntry, needNumber_byte]
  dsimp only
  rw [UInt8.ofNat_toNat, if_neg hmark, if_pos h]

theorem readAll_reserved {α : Type} {entry : Source → Except LoadError (Entry α)}
    {hentry : ∀ s e, entry s = .ok e → e.Shorter s} {s rest : Source}
    (h : entry s = .ok (.reserved rest)) (found : Array α) :
    readAll entry hentry s found = readAll entry hentry rest found := by
  rw [readAll]
  split
  all_goals rename_i heq; rw [h] at heq; cases heq
  rfl

/-- Reserved tags make no difference to the literals that are read. -/
theorem readAll_padded {entries padded : List (List UInt8)}
    (hpadded : Padded isReservedTag entries padded) {literals : List Literal}
    (h : List.Forall₂ (Reads literalEntry) entries literals) (tail : List UInt8)
    (found : Array Literal) :
    readAll literalEntry literalEntry_shorter (ofBytes (padded.flatten ++ tail)) found =
      readAll literalEntry literalEntry_shorter (ofBytes tail) (found ++ literals.toArray) := by
  induction hpadded generalizing literals found with
  | nil =>
    cases h
    simp
  | entry bytes _ ih =>
    cases h with
    | @cons _ a _ literals hhead htail =>
      rw [List.flatten_cons, List.append_assoc, readAll_item (hhead _), ih htail]
      simp
  | reserved htag _ ih =>
    rw [List.flatten_cons, List.append_assoc, List.singleton_append,
      readAll_reserved (literalEntry_reserved htag _), ih h]

theorem readSymbols_closed {symbols : Array String} {entries : List (List UInt8)}
    (h : symbols.toList.mapM encodeSymbol = .ok entries) (tail : List UInt8) :
    readAll symbolEntry symbolEntry_shorter (ofBytes (closed entries ++ tail)) #[] =
      .ok (symbols, ofBytes tail) :=
  readSymbols_encodeAll (encodeAll_of_mapM h) tail

theorem readLiterals_closed {literals : Array Literal} {entries padded : List (List UInt8)}
    (h : literals.toList.mapM encodeLiteral = .ok entries)
    (hpadded : Padded isReservedTag entries padded) (tail : List UInt8) :
    readAll literalEntry literalEntry_shorter (ofBytes (closed padded ++ tail)) #[] =
      .ok (literals, ofBytes tail) := by
  have hreads : List.Forall₂ (Reads literalEntry) entries literals.toList :=
    ((mapM_eq_ok h).imp fun _ _ => reads_literal).flip
  rw [closed, List.append_assoc, readAll_padded hpadded hreads, List.singleton_append,
    readAll_finished (literalEntry_endMark tail), Array.empty_append, Array.toArray_toList]

theorem readCode_closed {part : Part} {code : Array Instruction} {entries : List (List UInt8)}
    (h : code.toList.mapM encodeInstruction = .ok entries) (tail : List UInt8) :
    readCode part (ofBytes (closed entries ++ tail)) =
      .ok (code.map Instruction.normal, ofBytes tail) := by
  apply readCode_encodeCode
  rw [encodeCode, encodeAll_of_mapM h]
  rfl

/-- Bytes with the layout of a program are read as that program, but for the operands that have
    no bytes. -/
theorem decode_of_holds {l : Layout} {p : Program} (h : l.Holds p) :
    decode l.bytes = .ok p.normal := by
  obtain ⟨c, hc, hpads⟩ := h
  obtain ⟨hsymbols, hliterals, hcode, hfunctions⟩ := layout_eq_ok_iff.mp hc
  have hmagic : magic < 256 ^ 2 := by decide
  rw [decode, Layout.bytes_eq, hpads.symbols, hpads.code, hpads.functions]
  apply load_of_sections (needNumber_littleEndian hmagic _)
  · exact readSymbols_closed hsymbols _
  · exact readLiterals_closed hliterals hpads.literals _
  · exact readCode_closed hcode _
  · exact readFunctions_encodeAll (encodeAll_of_mapM hfunctions)

/-- What is written for a program has its layout. -/
theorem decode_of_encode {p : Program} {bytes : List UInt8} (h : encode p = .ok bytes) :
    decode bytes = .ok p.normal := by
  rw [encode_eq_map_layout] at h
  cases hlayout : layout p with
  | error e =>
    rw [hlayout] at h
    cases h
  | ok l =>
    rw [hlayout] at h
    cases h
    exact decode_of_holds ⟨l, hlayout, rfl, Padded.refl _ _, rfl, rfl⟩

end StackMachine.Artifact
