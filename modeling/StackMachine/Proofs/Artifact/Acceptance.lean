import StackMachine.Proofs.Artifact.Layout

/-!
# Exactly the artifacts are read

Whatever is read from a source was written there: each reader takes just the bytes that the
writer has for what it gives.  So bytes are read as a program if and only if they are the
program's artifact, perhaps with reserved tags added (`decode_eq_ok_iff`).
-/

namespace StackMachine.Artifact

open Source

variable {part : Part} {s rest : Source}

/-! ## Numbers and texts -/

theorem littleEndian_ofLittleEndian (bytes : List UInt8) :
    littleEndian bytes.length (ofLittleEndian bytes) = bytes := by
  induction bytes with
  | nil => rfl
  | cons b bytes ih =>
    have hlow : UInt8.ofNat (b.toNat + 256 * ofLittleEndian bytes) = b := by
      apply UInt8.toNat_inj.mp
      rw [UInt8.toNat_ofNat', Nat.add_mul_mod_self_left]
      exact Nat.mod_eq_of_lt b.toNat_lt
    have hhigh : (b.toNat + 256 * ofLittleEndian bytes) / 256 = ofLittleEndian bytes := by
      have := b.toNat_lt
      omega
    rw [ofLittleEndian, List.length_cons, littleEndian, hlow, hhigh, ih]

theorem ofLittleEndian_lt (bytes : List UInt8) : ofLittleEndian bytes < 256 ^ bytes.length := by
  induction bytes with
  | nil => exact Nat.one_pos
  | cons b bytes ih =>
    have := b.toNat_lt
    rw [ofLittleEndian, List.length_cons, Nat.pow_succ]
    omega

theorem bytes_of_need {n : Nat} {got : List UInt8} (h : need part n s = .ok (got, rest)) :
    s.bytes = got ++ rest.bytes ∧ got.length = n := by
  unfold need at h
  split at h
  · rename_i taken htake
    cases h
    exact bytes_of_take htake
  · cases h
  · cases h

/-- A number is read from the bytes that are written for it. -/
theorem bytes_of_needNumber {n value : Nat} (h : needNumber part n s = .ok (value, rest)) :
    s.bytes = littleEndian n value ++ rest.bytes ∧ value < 256 ^ n := by
  unfold needNumber at h
  split at h
  · rename_i got rest' hneed
    cases h
    obtain ⟨hbytes, rfl⟩ := bytes_of_need hneed
    rw [littleEndian_ofLittleEndian]
    exact ⟨hbytes, ofLittleEndian_lt got⟩
  · cases h

/-- A text is read from its UTF-8 bytes. -/
theorem bytes_of_needText {n : Nat} {text : String}
    (h : needText part n s = .ok (text, rest)) :
    s.bytes = Text.utf8 text ++ rest.bytes ∧ (Text.utf8 text).length = n := by
  unfold needText at h
  split at h
  · rename_i got rest' hneed
    split at h
    · rename_i text' htext
      cases h
      rw [Text.utf8_of_ofUtf8? htext]
      exact bytes_of_need hneed
    · cases h
  · cases h

/-- Parameters are read from the bytes that are written for them. -/
theorem flatMap_pairs : ∀ {bytes : List UInt8} {n : Nat}, bytes.length = 2 * n →
    ((pairs bytes).flatMap fun p => littleEndian 2 p.toNat) = bytes ∧ (pairs bytes).length = n
  | [], n, h => by
    simp only [List.length_nil] at h
    simp only [pairs, List.flatMap_nil, List.length_nil, true_and]
    omega
  | [_], n, h => by
    simp only [List.length_singleton] at h
    omega
  | low :: high :: bytes, n, h => by
    have hlength : bytes.length = 2 * (n - 1) := by
      simp only [List.length_cons] at h
      omega
    obtain ⟨hbytes, hcount⟩ := flatMap_pairs hlength
    have hlt : ofLittleEndian [low, high] < 256 ^ 2 := ofLittleEndian_lt [low, high]
    have hpair : (UInt16.ofNat (ofLittleEndian [low, high])).toNat = ofLittleEndian [low, high] :=
      UInt16.toNat_ofNat_of_lt' hlt
    have hback : littleEndian 2 (ofLittleEndian [low, high]) = [low, high] :=
      littleEndian_ofLittleEndian [low, high]
    simp only [List.length_cons] at h
    rw [pairs, List.flatMap_cons, hpair, hback, hbytes, List.length_cons]
    exact ⟨rfl, by omega⟩

/-! ## Entries -/

/-- How a section is written: the bytes of its entries, the reserved tags that may stand between
    them, and what its end looks like together with all that follows. -/
structure Grammar (α : Type) where
  writes : α → List UInt8 → Prop
  isReserved : UInt8 → Bool
  ends : List UInt8 → List UInt8 → Prop

/-- What was read at the front of a source stands there as the grammar has it. -/
def Entry.Follows {α : Type} (g : Grammar α) (s : Source) : Entry α → Prop
  | .finished rest => g.ends s.bytes rest.bytes
  | .reserved rest => ∃ tag, g.isReserved tag = true ∧ s.bytes = tag :: rest.bytes
  | .item a rest => ∃ used, g.writes a used ∧ s.bytes = used ++ rest.bytes

/-- A section that ends with the end mark. -/
def marked (bytes rest : List UInt8) : Prop := bytes = endMark :: rest

/-- The operand of an instruction without operand bytes is zero. -/
def NoLooseOperand (i : Instruction) : Prop := i.op.width = 0 → i.operand = 0

instance (i : Instruction) : Decidable (NoLooseOperand i) :=
  inferInstanceAs (Decidable (i.op.width = 0 → i.operand = 0))

def symbolGrammar : Grammar String where
  writes symbol bytes := encodeSymbol symbol = .ok bytes
  isReserved _ := false
  ends := marked

def literalGrammar : Grammar Literal where
  writes literal bytes := encodeLiteral literal = .ok bytes
  isReserved := isReservedTag
  ends := marked

def instructionGrammar : Grammar Instruction where
  writes i bytes := NoLooseOperand i ∧ encodeInstruction i = .ok bytes
  isReserved _ := false
  ends := marked

/-- The functions end with the artifact. -/
def functionGrammar : Grammar FunctionDef where
  writes f bytes := (∀ i ∈ f.code.toList, NoLooseOperand i) ∧ encodeFunction f = .ok bytes
  isReserved _ := false
  ends bytes rest := bytes = [] ∧ rest = []

theorem symbolEntry_follows (s : Source) (e : Entry String) (h : symbolEntry s = .ok e) :
    e.Follows symbolGrammar s := by
  unfold symbolEntry at h
  split at h
  · cases h
  · rename_i length s₁ hlength
    obtain ⟨hbytes, hlt⟩ := bytes_of_needNumber hlength
    split at h
    · rename_i hmark
      cases h
      rw [hmark] at hbytes
      exact hbytes
    · rename_i hmark
      split at h
      · cases h
      · rename_i symbol s₂ htext
        cases h
        obtain ⟨hbytes₁, rfl⟩ := bytes_of_needText htext
        have hshort : (Text.utf8 symbol).length < endMark.toNat := by
          have : endMark.toNat = 255 := rfl
          omega
        refine ⟨_, if_pos hshort, ?_⟩
        rw [hbytes, hbytes₁]
        rfl

theorem literalEntry_follows (s : Source) (e : Entry Literal) (h : literalEntry s = .ok e) :
    e.Follows literalGrammar s := by
  unfold literalEntry at h
  split at h
  · cases h
  · rename_i byte s₁ hbyte
    obtain ⟨hbytes, -⟩ := bytes_of_needNumber hbyte
    replace hbytes : s.bytes = UInt8.ofNat byte :: s₁.bytes := hbytes
    dsimp only at h
    split at h
    · rename_i hmark
      cases h
      rw [hmark] at hbytes
      exact hbytes
    · split at h
      · rename_i htag
        cases h
        exact ⟨_, htag, hbytes⟩
      · split at h
        · rename_i htag
          split at h
          · cases h
          · rename_i bits s₂ hbits
            cases h
            obtain ⟨hbytes₁, hlt⟩ := bytes_of_needNumber hbits
            refine ⟨_, rfl, ?_⟩
            rw [hbytes, hbytes₁, UInt64.toNat_ofNat_of_lt' hlt, htag]
            rfl
        · split at h
          · rename_i htag
            split at h
            · cases h
            · rename_i length s₂ hlength
              split at h
              · cases h
              · rename_i text s₃ htext
                cases h
                obtain ⟨hbytes₁, hlt⟩ := bytes_of_needNumber hlength
                obtain ⟨hbytes₂, rfl⟩ := bytes_of_needText htext
                refine ⟨_, if_pos hlt, ?_⟩
                rw [hbytes, hbytes₁, hbytes₂, htag, List.cons_append, List.append_assoc]
          · cases h

theorem instructionEntry_follows (part : Part) (s : Source) (e : Entry Instruction)
    (h : instructionEntry part s = .ok e) : e.Follows instructionGrammar s := by
  unfold instructionEntry at h
  split at h
  · cases h
  · rename_i byte s₁ hbyte
    obtain ⟨hbytes, -⟩ := bytes_of_needNumber hbyte
    replace hbytes : s.bytes = UInt8.ofNat byte :: s₁.bytes := hbytes
    split at h
    · rename_i hmark
      cases h
      rw [hmark] at hbytes
      exact hbytes
    · split at h
      · cases h
      · rename_i op hop
        split at h
        · cases h
        · rename_i operand s₂ hoperand
          cases h
          obtain ⟨hbytes₁, hlt⟩ := bytes_of_needNumber hoperand
          have hwidth : op.width ≤ 2 := by cases op <;> decide
          have hword : (UInt16.ofNat operand).toNat = operand :=
            UInt16.toNat_ofNat_of_lt'
              (Nat.lt_of_lt_of_le hlt (Nat.pow_le_pow_right (by decide) hwidth))
          refine ⟨_, ⟨?_, if_neg ?_⟩, ?_⟩
          · intro hzero
            dsimp only at hzero ⊢
            rw [hzero, Nat.pow_zero, Nat.lt_one_iff] at hlt
            rw [hlt]
            rfl
          · rw [hword]
            rintro ⟨hone, hlarge⟩
            dsimp only at hone
            rw [hone] at hlt
            omega
          · rw [hbytes, hbytes₁, hword, Opcode.byte_of_ofByte? hop]
            rfl

/-! ## Sections -/

section Sections

variable {α : Type} {entry : Source → Except LoadError (Entry α)}
  {hentry : ∀ s e, entry s = .ok e → e.Shorter s} {g : Grammar α}

/-- Where each entry follows the grammar, so does the section. -/
theorem bytes_of_readAll (hfollows : ∀ s e, entry s = .ok e → e.Follows g s) {found all : Array α}
    (h : readAll entry hentry s found = .ok (all, rest)) :
    ∃ items entries padded ending, all = found ++ List.toArray items ∧
      List.Forall₂ g.writes items entries ∧ Padded g.isReserved entries padded ∧
      g.ends ending rest.bytes ∧ s.bytes = padded.flatten ++ ending := by
  fun_induction readAll entry hentry s found with
  | case1 => cases h
  | case2 s found rest' hfin =>
    cases h
    exact ⟨[], [], [], s.bytes, by simp, .nil, .nil, hfollows _ _ hfin, by simp⟩
  | case3 s found rest' hres ih =>
    obtain ⟨items, entries, padded, ending, hall, hwrites, hpadded, hends, hrest⟩ := ih h
    obtain ⟨tag, htag, hbytes⟩ := hfollows _ _ hres
    exact ⟨items, entries, [tag] :: padded, ending, hall, hwrites, .reserved htag hpadded, hends,
      by rw [hbytes, hrest]; rfl⟩
  | case4 s found a rest' hitem ih =>
    obtain ⟨items, entries, padded, ending, hall, hwrites, hpadded, hends, hrest⟩ := ih h
    obtain ⟨used, hused, hbytes⟩ := hfollows _ _ hitem
    refine ⟨a :: items, used :: entries, used :: padded, ending, ?_, .cons hused hwrites,
      .entry used hpadded, hends, ?_⟩
    · rw [hall]
      simp
    · rw [hbytes, hrest, List.flatten_cons, List.append_assoc]

/-- A section without reserved tags holds its entries and nothing else. -/
theorem bytes_of_readAll_plain (hfollows : ∀ s e, entry s = .ok e → e.Follows g s)
    (hplain : ∀ tag, g.isReserved tag = false) {all : Array α}
    (h : readAll entry hentry s #[] = .ok (all, rest)) :
    ∃ entries ending, List.Forall₂ g.writes all.toList entries ∧ g.ends ending rest.bytes ∧
      s.bytes = entries.flatten ++ ending := by
  obtain ⟨items, entries, padded, ending, rfl, hwrites, hpadded, hends, hbytes⟩ :=
    bytes_of_readAll hfollows h
  have heq : padded = entries :=
    hpadded.eq_of_not_mem fun tag htag => by rw [hplain tag] at htag; cases htag
  rw [heq] at hbytes
  exact ⟨entries, ending, by simpa using hwrites, hends, hbytes⟩

/-- What is written for each member of a list is written for the list. -/
theorem mapM_of_forall₂ {encodeEntry : α → Except EncodeError (List UInt8)} {xs : List α}
    {entries : List (List UInt8)}
    (h : List.Forall₂ (fun x bytes => encodeEntry x = .ok bytes) xs entries) :
    xs.mapM encodeEntry = .ok entries := by
  induction h with
  | nil => rfl
  | cons hx _ ih =>
    rw [List.mapM_cons, hx, ih]
    rfl

end Sections

/-- Code is read from the bytes that are written for it. -/
theorem bytes_of_readCode {code : Array Instruction} (h : readCode part s = .ok (code, rest)) :
    (∀ i ∈ code.toList, NoLooseOperand i) ∧
      ∃ entries, code.toList.mapM encodeInstruction = .ok entries ∧
        s.bytes = closed entries ++ rest.bytes := by
  obtain ⟨entries, ending, hwrites, hends, hbytes⟩ :=
    bytes_of_readAll_plain (instructionEntry_follows part) (fun _ => rfl) h
  obtain ⟨hloose, hwrites⟩ := (List.forall₂_and_left _ _).mp hwrites
  refine ⟨hloose, entries, mapM_of_forall₂ hwrites, ?_⟩
  rw [hbytes, closed, List.append_assoc]
  exact congrArg (entries.flatten ++ ·) hends

theorem functionEntry_follows (s : Source) (e : Entry FunctionDef) (h : functionEntry s = .ok e) :
    e.Follows functionGrammar s := by
  unfold functionEntry at h
  split at h
  · rename_i htake
    cases h
    have hnone : s.bytes = [] := by
      have hsize := (size_lt_of_take_error htake).1
      exact List.eq_nil_of_length_eq_zero (Nat.lt_one_iff.mp hsize)
    exact ⟨hnone, hnone⟩
  · cases h
  · rename_i count s₁ hcount
    split at h
    · cases h
    · rename_i params s₂ hparams
      split at h
      · cases h
      · rename_i code s₃ hcode
        cases h
        obtain ⟨hbytes, hone⟩ := bytes_of_take hcount
        obtain ⟨b, rfl⟩ := List.length_eq_one_iff.mp hone
        obtain ⟨hbytes₁, hlength⟩ := bytes_of_need hparams
        obtain ⟨hloose, entries, hentries, hbytes₂⟩ := bytes_of_readCode hcode
        obtain ⟨hback, hsize⟩ := flatMap_pairs hlength
        have hb : ofLittleEndian [b] = b.toNat := rfl
        refine ⟨b :: (params ++ closed entries), ⟨hloose, ?_⟩, ?_⟩
        · have hlt : b.toNat < 256 := b.toNat_lt
          have hfew : ¬255 < (pairs params).toArray.size := by
            rw [List.size_toArray, hsize, hb]
            omega
          have hcode' : encodeCode code = .ok (closed entries) := by
            rw [encodeCode, encodeAll_of_mapM hentries]
            rfl
          rw [encodeFunction, if_neg hfew, hcode']
          simp [hsize, hb, hback, pure, Except.pure, bind, Except.bind]
        · rw [hbytes, hbytes₁, hbytes₂]
          simp

/-! ## Programs -/

/-- Reading a program is reading its sections one after the other. -/
theorem load_eq (s : Source) : load s = needNumber .header 2 s >>= fun (found, s₁) =>
    if found = magic then readAll symbolEntry symbolEntry_shorter s₁ #[] >>= fun (symbols, s₂) =>
      readAll literalEntry literalEntry_shorter s₂ #[] >>= fun (literals, s₃) =>
      readCode .topLevel s₃ >>= fun (code, s₄) =>
      readAll functionEntry functionEntry_shorter s₄ #[] >>= fun (functions, _) =>
      .ok ⟨symbols, literals, code, functions⟩
    else .error (.badMagic found) := by
  unfold load
  cases needNumber .header 2 s with
  | error e => rfl
  | ok header =>
    obtain ⟨found, s₁⟩ := header
    by_cases hmagic : found = magic
    · simp only [bind, Except.bind, ne_eq, hmagic, not_true_eq_false, if_false, if_true]
      rfl
    · simp only [bind, Except.bind, ne_eq, hmagic, not_false_eq_true, if_true, if_false]
      rfl

/-- A program is read from bytes that have its layout, and none of its instructions has an operand
    without bytes. -/
theorem holds_of_load {p : Program} (h : load s = .ok p) :
    (∀ i ∈ p.instructions, NoLooseOperand i) ∧ ∃ l : Layout, l.Holds p ∧ s.bytes = l.bytes := by
  rw [load_eq] at h
  obtain ⟨⟨found, s₁⟩, hheader, h⟩ := except_bind_eq_ok h
  dsimp only at h
  split at h
  · rename_i hmagic
    obtain ⟨⟨symbols, s₂⟩, hsymbols, h⟩ := except_bind_eq_ok h
    obtain ⟨⟨literals, s₃⟩, hliterals, h⟩ := except_bind_eq_ok h
    obtain ⟨⟨code, s₄⟩, hcode, h⟩ := except_bind_eq_ok h
    obtain ⟨⟨functions, s₅⟩, hfunctions, h⟩ := except_bind_eq_ok h
    cases h
    obtain ⟨hbytes, -⟩ := bytes_of_needNumber hheader
    obtain ⟨es₁, end₁, hwrites₁, hend₁, hbytes₁⟩ :=
      bytes_of_readAll_plain symbolEntry_follows (fun _ => rfl) hsymbols
    obtain ⟨items, es₂, padded, end₂, hitems, hwrites₂, hpadded, hend₂, hbytes₂⟩ :=
      bytes_of_readAll literalEntry_follows hliterals
    obtain ⟨hloose₃, es₃, hcode₃, hbytes₃⟩ := bytes_of_readCode hcode
    obtain ⟨es₄, end₄, hwrites₄, ⟨hend₄, -⟩, hbytes₄⟩ :=
      bytes_of_readAll_plain functionEntry_follows (fun _ => rfl) hfunctions
    obtain ⟨hloose₄, hwrites₄⟩ := (List.forall₂_and_left _ _).mp hwrites₄
    have hlayout : layout ⟨symbols, literals, code, functions⟩ = .ok ⟨es₁, es₂, es₃, es₄⟩ := by
      refine layout_eq_ok_iff.mpr ⟨mapM_of_forall₂ hwrites₁, mapM_of_forall₂ ?_, hcode₃,
        mapM_of_forall₂ hwrites₄⟩
      rw [hitems, Array.empty_append]
      exact hwrites₂
    refine ⟨?_, ⟨es₁, padded, es₃, es₄⟩, ⟨_, hlayout, ⟨rfl, hpadded, rfl, rfl⟩⟩, ?_⟩
    · intro i hi
      obtain hi | hi := List.mem_append.mp hi
      · exact hloose₃ i hi
      · obtain ⟨f, hf, hi⟩ := List.mem_flatMap.mp hi
        exact hloose₄ f hf i hi
    · rw [Layout.bytes_eq, hbytes, hmagic, hbytes₁, hend₁, hbytes₂, hend₂, hbytes₃, hbytes₄, hend₄]
      simp [closed]
  · cases h

/-- Bytes are read as a program if and only if they have its layout, reserved tags or not. -/
theorem decode_eq_ok_iff_holds {bytes : List UInt8} {p : Program} : decode bytes = .ok p ↔
    (∀ i ∈ p.instructions, NoLooseOperand i) ∧ ∃ l : Layout, l.Holds p ∧ bytes = l.bytes := by
  constructor
  · intro h
    obtain ⟨hloose, l, hl, hbytes⟩ := holds_of_load h
    rw [bytes_ofBytes] at hbytes
    exact ⟨hloose, l, hl, hbytes⟩
  · rintro ⟨hloose, l, hl, rfl⟩
    rw [decode_of_holds hl, Program.normal_eq_self hloose]

/-- Bytes are read as a program exactly if the operands of its instructions without operand bytes
    are zero and the bytes are its artifact, perhaps with reserved tags where the tag of a literal
    or the end of the literals is due.  So every program that was read can be written; writing it
    gives the bytes back if they have no reserved tags; and two artifacts of one program are the
    same but for reserved tags. -/
theorem decode_eq_ok_iff :
    (∀ bytes p, decode bytes = .ok p ↔
      (∀ i ∈ p.instructions, i.op.width = 0 → i.operand = 0) ∧
        ∃ c, layout p = .ok c ∧ encode p = .ok c.bytes ∧ ∃ l, c.Pads l ∧ bytes = l.bytes) ∧
    (∀ bytes p, decode bytes = .ok p → ∃ written, encode p = .ok written) ∧
    (∀ bytes p, decode bytes = .ok p → ∀ l : Layout, l.Holds p → bytes = l.bytes →
      (∀ tag, isReservedTag tag = true → [tag] ∉ l.literals) → encode p = .ok bytes) ∧
    ∀ bytes₁ bytes₂ p, decode bytes₁ = .ok p → decode bytes₂ = .ok p →
      ∃ c l₁ l₂, layout p = .ok c ∧ c.Pads l₁ ∧ c.Pads l₂ ∧ bytes₁ = l₁.bytes ∧
        bytes₂ = l₂.bytes := by
  refine ⟨fun bytes p => ?_, fun bytes p h => ?_, fun bytes p _ l hl hbytes hplain => ?_,
    fun bytes₁ bytes₂ p h₁ h₂ => ?_⟩
  · rw [decode_eq_ok_iff_holds]
    constructor
    · rintro ⟨hloose, l, ⟨c, hc, hpads⟩, hbytes⟩
      exact ⟨hloose, c, hc, encode_of_layout hc, l, hpads, hbytes⟩
    · rintro ⟨hloose, c, hc, -, l, hpads, hbytes⟩
      exact ⟨hloose, l, ⟨c, hc, hpads⟩, hbytes⟩
  · obtain ⟨-, l, ⟨c, hc, -⟩, -⟩ := decode_eq_ok_iff_holds.mp h
    exact ⟨c.bytes, encode_of_layout hc⟩
  · obtain ⟨c, hc, hpads⟩ := hl
    rw [hbytes, hpads.eq_of_not_mem hplain]
    exact encode_of_layout hc
  · obtain ⟨-, l₁, ⟨c₁, hc₁, hpads₁⟩, hbytes₁⟩ := decode_eq_ok_iff_holds.mp h₁
    obtain ⟨-, l₂, ⟨c₂, hc₂, hpads₂⟩, hbytes₂⟩ := decode_eq_ok_iff_holds.mp h₂
    have hsame : c₁ = c₂ := Except.ok.inj (hc₁.symm.trans hc₂)
    rw [← hsame] at hpads₂
    exact ⟨c₁, l₁, l₂, hc₁, hpads₁, hpads₂, hbytes₁, hbytes₂⟩

/-- Reserved tags in front of a number and of the end mark are skipped; the same bytes inside the
    number are not. -/
theorem decode_eq_ok_iff_reserved :
    let p : Program := ⟨#["a"], #[.number ⟨0x8180⟩], #[⟨.pop, 0⟩], #[]⟩
    let bytes := [0x01, 0x17, 1, 97, 0xFF, 0x80, 0x82, 0x80, 0x81, 0, 0, 0, 0, 0, 0, 0x81, 0x80,
      0xFF, 0x05, 0xFF]
    decode bytes = .ok p ∧ encode p ≠ .ok bytes ∧ ∃ written, encode p = .ok written := by
  intro p bytes
  have hdecode : decode bytes = .ok p := by
    refine (decode_eq_ok_iff.1 bytes p).mpr ⟨by decide, _, rfl, rfl,
      ⟨[[1, 97]], [[0x80], [0x82, 0x80, 0x81, 0, 0, 0, 0, 0, 0], [0x81], [0x80]], [[0x05]], []⟩,
      ⟨rfl, ?_, rfl, rfl⟩, rfl⟩
    exact .reserved rfl (.entry _ (.reserved rfl (.reserved rfl .nil)))
  exact ⟨hdecode, by decide, decode_eq_ok_iff.2.1 bytes p hdecode⟩

end StackMachine.Artifact
