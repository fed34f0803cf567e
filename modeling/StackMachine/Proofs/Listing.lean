import StackMachine.Listing
import StackMachine.Proofs.Artifact.RoundTrip
import StackMachine.Proofs.Library.NumberText
import StackMachine.Proofs.Text.Lines

/-!
# What a listing tells

A listing is a text of lines (`Listing.rows`).  The lines of a section do not start like the heads
of sections and functions, so the lines tell where each section and each function ends, whatever
symbols and literals look like; and a line about an instruction tells its opcode and its operand,
whatever note comes after them.  So all code can be read back from a listing
(`Listing.render_unambiguous`).
-/

namespace StackMachine

/-- The mnemonic of an opcode stands for that opcode alone. -/
@[simp]
theorem Opcode.ofMnemonic?_mnemonic (op : Opcode) : ofMnemonic? op.mnemonic = some op := by
  cases op <;> decide

theorem Opcode.mnemonic_inj {op other : Opcode} (h : op.mnemonic = other.mnemonic) :
    op = other := by
  rw [← Option.some_inj, ← ofMnemonic?_mnemonic op, h, ofMnemonic?_mnemonic]

/-- A mnemonic has neither a blank nor a line break. -/
theorem Opcode.not_mem_mnemonic (op : Opcode) :
    ' ' ∉ op.mnemonic.toList ∧ '\n' ∉ op.mnemonic.toList := by
  cases op <;> decide

theorem Text.decimal_inj {m n : Nat} (h : decimal m = decimal n) : m = n := by
  rw [← value_toDigits m, ← value_toDigits n, String.ofList_injective h]

namespace Listing

open Text (OneLine decimal padLeft unlines)

variable {p q : Program} {i j : Instruction}

/-! ## Lines -/

/-- A line that starts with a right-aligned index. -/
def indexedRow (index : Nat) (content : String) : String :=
  padLeft 4 ' ' (decimal index) ++ "  " ++ content

/-- The operand in the line about an instruction. -/
def operandText (i : Instruction) : String :=
  if 0 < i.op.width then " " ++ decimal i.operand.toNat else ""

/-- The note in the line about an instruction. -/
def noteText (p : Program) (i : Instruction) : String :=
  match note? p i with
  | some text => "  ; " ++ text
  | none => ""

/-- The line about the instruction at an index. -/
def instructionRow (p : Program) (index : Nat) (i : Instruction) : String :=
  padLeft 4 '0' (decimal index) ++ " " ++ instructionText i ++ noteText p i

/-- The line with a function's parameters. -/
def functionHead (p : Program) (index : Nat) (f : FunctionDef) : String :=
  "---- F " ++ decimal index ++ " (" ++
    String.intercalate ", " (f.params.toList.map (parameter p)) ++ ") ----"

/-- What is made from elements and their indexes, which count from a start. -/
def numbered {α β : Type} (make : Nat → α → β) (start : Nat) (xs : List α) : List β :=
  (xs.zipIdx start).map fun (x, index) => make index x

/-- The lines of a function. -/
def functionRows (p : Program) (index : Nat) (f : FunctionDef) : List String :=
  functionHead p index f :: numbered (instructionRow p) 0 f.code.toList

/-- The lines of a listing. -/
def rows (p : Program) : List String :=
  "==== Symbols ====" :: (numbered indexedRow 0 p.symbols.toList ++
  "==== Literals ====" :: (numbered (fun index l => indexedRow index l.listed) 0 p.pool.toList ++
  "==== Instructions ====" :: (numbered (instructionRow p) 0 p.code.toList ++
  "==== Functions ====" :: (numbered (functionRows p) 0 p.functions.toList).flatten)))

theorem lines_eq_unlines {α : Type} {line row : Nat → α → String}
    (h : ∀ index x, line index x = row index x ++ "\n") (xs : Array α) :
    lines line xs = unlines (numbered row 0 xs.toList) := by
  simp [lines, unlines, numbered, h, Function.comp_def]

theorem instructions_eq_unlines (p : Program) (code : Array Instruction) :
    lines (instructionLine p) code = unlines (numbered (instructionRow p) 0 code.toList) :=
  lines_eq_unlines (fun _ _ => rfl) code

theorem function_eq_unlines (p : Program) (index : Nat) (f : FunctionDef) :
    function p index f = unlines (functionRows p index f) := by
  have hend : (") ----\n" : String) = ") ----" ++ "\n" := rfl
  rw [functionRows, Text.unlines_cons, ← instructions_eq_unlines, function, functionHead, hend]
  simp only [String.append_assoc]

theorem functions_eq_unlines (p : Program) :
    lines (function p) p.functions =
      unlines (numbered (functionRows p) 0 p.functions.toList).flatten := by
  have hflatten : ∀ blocks : List (List String),
      String.join (blocks.map unlines) = unlines blocks.flatten := by
    intro blocks
    induction blocks with
    | nil => rfl
    | cons block blocks ih => simp [ih, Text.unlines_append]
  simp [lines, numbered, ← hflatten, function_eq_unlines, Function.comp_def]

/-- A listing is the text of its lines. -/
theorem render_eq_unlines (p : Program) : render p = unlines (rows p) := by
  have hsymbols : lines indexedLine p.symbols = unlines (numbered indexedRow 0 p.symbols.toList) :=
    lines_eq_unlines (fun _ _ => rfl) p.symbols
  have hliterals : lines (fun index l => indexedLine index l.listed) p.pool =
      unlines (numbered (fun index l => indexedRow index l.listed) 0 p.pool.toList) :=
    lines_eq_unlines (fun _ _ => rfl) p.pool
  have hfunctions := functions_eq_unlines p
  have hheads : "==== Symbols ====\n" = "==== Symbols ====" ++ "\n" ∧
      "==== Literals ====\n" = "==== Literals ====" ++ "\n" ∧
      "==== Instructions ====\n" = "==== Instructions ====" ++ "\n" ∧
      "==== Functions ====\n" = "==== Functions ====" ++ "\n" := ⟨rfl, rfl, rfl, rfl⟩
  unfold render rows
  rw [hsymbols, hliterals, instructions_eq_unlines, hfunctions]
  simp only [Text.unlines_cons, Text.unlines_append, hheads, String.append_assoc]

/-! ## No line break inside a line -/

theorem oneLine_listed (l : Literal) : OneLine l.listed := by
  cases l with
  | null => decide
  | bool b => cases b <;> decide
  | number x =>
    intro hmem
    have hblank : Text.isBlank '\n' = true := by decide
    rw [Binary64.not_isBlank_of_mem_fixedText x hmem] at hblank
    cases hblank
  | text s => exact Text.oneLine_quoted s

theorem oneLine_symbol (hp : ∀ s ∈ p.symbols, OneLine s) (index : Nat) {missing : String}
    (hmissing : OneLine missing) : OneLine (p.symbols[index]?.getD missing) := by
  cases hs : p.symbols[index]? with
  | none => exact hmissing
  | some s => exact hp s (Array.mem_of_getElem? hs)

theorem oneLine_indexedRow (index : Nat) {content : String} (h : OneLine content) :
    OneLine (indexedRow index content) := by
  have hpad : OneLine (padLeft 4 ' ' (decimal index)) :=
    Text.oneLine_padLeft 4 (by decide) (Text.oneLine_decimal index)
  simp only [indexedRow, Text.oneLine_append]
  exact ⟨⟨hpad, by decide⟩, h⟩

theorem oneLine_noteText (hp : ∀ s ∈ p.symbols, OneLine s) (i : Instruction) :
    OneLine (noteText p i) := by
  have hnote : ∀ text, note? p i = some text → OneLine text := by
    intro text htext
    unfold note? at htext
    split at htext <;> cases htext
    case h_4 =>
      cases p.literal? i.operand.toNat with
      | none => decide
      | some l => exact oneLine_listed l
    all_goals exact oneLine_symbol hp _ (by decide)
  unfold noteText
  split
  · rename_i text htext
    rw [Text.oneLine_append]
    exact ⟨by decide, hnote text htext⟩
  · decide

theorem oneLine_instructionRow (hp : ∀ s ∈ p.symbols, OneLine s) (index : Nat) (i : Instruction) :
    OneLine (instructionRow p index i) := by
  have hpad : OneLine (padLeft 4 '0' (decimal index)) :=
    Text.oneLine_padLeft 4 (by decide) (Text.oneLine_decimal index)
  have htext : OneLine (instructionText i) := by
    have hmnemonic : OneLine i.op.mnemonic := i.op.not_mem_mnemonic.2
    unfold instructionText
    split
    · simp only [Text.oneLine_append]
      exact ⟨⟨hmnemonic, by decide⟩, Text.oneLine_decimal _⟩
    · exact hmnemonic
  simp only [instructionRow, Text.oneLine_append]
  exact ⟨⟨⟨hpad, by decide⟩, htext⟩, oneLine_noteText hp i⟩

theorem oneLine_functionHead (hp : ∀ s ∈ p.symbols, OneLine s) (index : Nat) (f : FunctionDef) :
    OneLine (functionHead p index f) := by
  have hparams : OneLine (String.intercalate ", " (f.params.toList.map (parameter p))) := by
    apply Text.oneLine_intercalate (by decide)
    intro text htext
    obtain ⟨param, -, rfl⟩ := List.mem_map.mp htext
    exact oneLine_symbol hp _ (Text.oneLine_append.mpr ⟨by decide, Text.oneLine_decimal _⟩)
  simp only [functionHead, Text.oneLine_append]
  exact ⟨⟨⟨⟨by decide, Text.oneLine_decimal _⟩, by decide⟩, hparams⟩, by decide⟩

/-- What all that is made from elements has, if it does whatever their indexes are. -/
theorem forall_mem_numbered {α β : Type} {make : Nat → α → β} {P : β → Prop} {xs : List α}
    (h : ∀ index, ∀ x ∈ xs, P (make index x)) (start : Nat) :
    ∀ b ∈ numbered make start xs, P b := by
  intro b hb
  obtain ⟨⟨x, index⟩, hmem, rfl⟩ := List.mem_map.mp hb
  exact h index x (List.fst_mem_of_mem_zipIdx hmem)

/-- The lines of a listing have no line breaks inside if the symbols have none. -/
theorem oneLine_of_mem_rows (hp : ∀ s ∈ p.symbols, OneLine s) : ∀ row ∈ rows p, OneLine row := by
  have hcode : ∀ code : Array Instruction,
      ∀ row ∈ numbered (instructionRow p) 0 code.toList, OneLine row := fun code =>
    forall_mem_numbered (fun index i _ => oneLine_instructionRow hp index i) 0
  have hsymbols : ∀ row ∈ numbered indexedRow 0 p.symbols.toList, OneLine row :=
    forall_mem_numbered (fun index s hs => oneLine_indexedRow index (hp s (by simpa using hs))) 0
  have hliterals : ∀ row ∈ numbered (fun index l => indexedRow index l.listed) 0 p.pool.toList,
      OneLine row :=
    forall_mem_numbered (fun index l _ => oneLine_indexedRow index (oneLine_listed l)) 0
  have hfunctions : ∀ row ∈ (numbered (functionRows p) 0 p.functions.toList).flatten,
      OneLine row := by
    intro row hrow
    obtain ⟨block, hblock, hrow⟩ := List.mem_flatten.mp hrow
    have hblocks : ∀ index, ∀ f ∈ p.functions.toList,
        ∀ row ∈ functionRows p index f, OneLine row := fun index f _ =>
      List.forall_mem_cons.mpr ⟨oneLine_functionHead hp index f, hcode f.code⟩
    exact forall_mem_numbered (P := (∀ row ∈ ·, OneLine row)) hblocks 0 block hblock row hrow
  simp only [rows, List.forall_mem_cons, List.forall_mem_append]
  exact ⟨by decide, hsymbols, by decide, hliterals, by decide, hcode p.code, by decide, hfunctions⟩

/-! ## Where a section ends -/

/-- Whether a line starts with an index, on which there may be blanks. -/
def isEntry (row : String) : Bool := row.toList.head?.any fun c => c == ' ' || c.isDigit

theorem isEntry_padLeft {fill : Char} (hfill : (fill == ' ' || fill.isDigit) = true)
    (width index : Nat) (after : String) :
    isEntry (padLeft width fill (decimal index) ++ after) = true := by
  obtain ⟨c, digits, hdigits⟩ :=
    List.exists_cons_of_ne_nil (Nat.toDigits_ne_nil (n := index) (b := 10))
  have hc : c.isDigit = true :=
    Nat.isDigit_of_mem_toDigits (n := index) (by decide) (by decide)
      (hdigits ▸ List.mem_cons_self)
  unfold isEntry padLeft
  cases width - (decimal index).length with
  | zero => simp [decimal, hdigits, hc]
  | succ n => simpa [List.replicate_succ] using hfill

theorem isEntry_indexedRow (index : Nat) (content : String) :
    isEntry (indexedRow index content) = true := by
  rw [indexedRow, String.append_assoc]
  exact isEntry_padLeft (by decide) 4 index _

theorem isEntry_instructionRow (p : Program) (index : Nat) (i : Instruction) :
    isEntry (instructionRow p index i) = true := by
  simp only [instructionRow, String.append_assoc]
  exact isEntry_padLeft (by decide) 4 index _

/-- The lines of a section are those in front of the head of the next one. -/
theorem section_inj {head : String} {entries others below under : List String}
    (hhead : isEntry head = false) (hentries : ∀ row ∈ entries, isEntry row = true)
    (hothers : ∀ row ∈ others, isEntry row = true)
    (h : entries ++ head :: below = others ++ head :: under) :
    entries = others ∧ below = under := by
  have hnext : ∀ (rows : List String) (row : String),
      (head :: rows).head? = some row → isEntry row = false := by
    intro rows row hrow
    cases hrow
    exact hhead
  obtain ⟨hfront, hrest⟩ := append_inj_of_head hentries hothers (hnext _) (hnext _) h
  exact ⟨hfront, (List.cons.inj hrest).2⟩

theorem isEntry_functionHead (p : Program) (index : Nat) (f : FunctionDef) :
    isEntry (functionHead p index f) = false := by
  simp [isEntry, functionHead]

/-! ## What a line tells -/

/-- Elements are as much alike as what is made from them tells. -/
theorem map_eq_of_numbered {α β γ : Type} {make make' : Nat → α → β} {view : α → γ}
    (hmake : ∀ index x y, make index x = make' index y → view x = view y) {start : Nat}
    {xs ys : List α} (h : numbered make start xs = numbered make' start ys) :
    xs.map view = ys.map view := by
  induction xs generalizing ys start with
  | nil =>
    cases ys with
    | nil => rfl
    | cons y ys => cases h
  | cons x xs ih =>
    cases ys with
    | nil => cases h
    | cons y ys =>
      obtain ⟨hhead, htail⟩ := List.cons.inj h
      rw [List.map_cons, List.map_cons, hmake start x y hhead, ih htail]

theorem symbols_of_rows {symbols symbols' : Array String}
    (h : numbered indexedRow 0 symbols.toList = numbered indexedRow 0 symbols'.toList) :
    symbols = symbols' := by
  have hcontent : ∀ index s t, indexedRow index s = indexedRow index t → s = t :=
    fun _ _ _ hrow => (String.append_right_inj _).mp hrow
  have hlists : symbols.toList.map (fun s => s) = symbols'.toList.map (fun s => s) :=
    map_eq_of_numbered hcontent h
  apply Array.toList_inj.mp
  simpa using hlists

theorem instructionText_eq (i : Instruction) :
    instructionText i = i.op.mnemonic ++ operandText i := by
  unfold instructionText operandText
  split <;> simp [String.append_assoc]

/-- The note is set off by a blank from what is in front of it. -/
theorem head?_noteText {c : Char} (h : (noteText p i).toList.head? = some c) : c = ' ' := by
  unfold noteText at h
  split at h
  · simpa using h.symm
  · simp at h

theorem head?_operandText {c : Char}
    (h : (operandText i ++ noteText p i).toList.head? = some c) : c = ' ' := by
  unfold operandText at h
  split at h
  · simpa using h.symm
  · rw [String.empty_append] at h
    exact head?_noteText h

/-- The operand is in the line if the opcode has one. -/
theorem operand_of_operandText (hop : i.op = j.op) (hwidth : 0 < i.op.width)
    (h : operandText i ++ noteText p i = operandText j ++ noteText q j) :
    i.operand = j.operand := by
  have hdigits : ∀ operand : UInt16, ∀ c ∈ (decimal operand.toNat).toList, c.isDigit = true := by
    intro operand c hc
    rw [decimal, String.toList_ofList] at hc
    exact Text.Digits.toDigits _ c hc
  have hnote : ∀ (p : Program) (i : Instruction) (c : Char),
      (noteText p i).toList.head? = some c → c.isDigit = false := by
    intro p i c hc
    rw [head?_noteText hc]
    decide
  rw [operandText, operandText, ← hop, if_pos hwidth, if_pos hwidth, String.append_assoc,
    String.append_assoc, String.append_right_inj] at h
  obtain ⟨hdecimal, -⟩ :=
    Text.append_inj_of_head (hdigits _) (hdigits _) (hnote p i) (hnote q j) h
  exact UInt16.toNat_inj.mp (Text.decimal_inj hdecimal)

/-- The line about an instruction tells all of it that an artifact keeps. -/
theorem normal_of_instructionRow {index : Nat}
    (h : instructionRow p index i = instructionRow q index j) : i.normal = j.normal := by
  have hmnemonic : ∀ op : Opcode, ∀ c ∈ op.mnemonic.toList, (c != ' ') = true := by
    intro op c hc
    exact bne_iff_ne.mpr fun hblank => op.not_mem_mnemonic.1 (hblank ▸ hc)
  have hbehind : ∀ (p : Program) (i : Instruction) (c : Char),
      (operandText i ++ noteText p i).toList.head? = some c → (c != ' ') = false := by
    intro p i c hc
    rw [head?_operandText hc]
    decide
  simp only [instructionRow, instructionText_eq, String.append_assoc, String.append_right_inj] at h
  obtain ⟨hname, hrest⟩ :=
    Text.append_inj_of_head (hmnemonic _) (hmnemonic _) (hbehind p i) (hbehind q j) h
  have hop := Opcode.mnemonic_inj hname
  unfold Instruction.normal
  by_cases hwidth : 0 < i.op.width
  · have hoperand := operand_of_operandText hop hwidth hrest
    cases i
    cases j
    simp_all
  · rw [← hop, if_pos (by omega), if_pos (by omega)]

theorem isEntry_of_mem_instructionRows {row : String} {code : Array Instruction}
    (h : row ∈ numbered (instructionRow p) 0 code.toList) : isEntry row = true :=
  forall_mem_numbered (P := (isEntry · = true)) (fun index i _ => isEntry_instructionRow p index i)
    0 row h

theorem code_of_rows {code code' : Array Instruction}
    (h : numbered (instructionRow p) 0 code.toList = numbered (instructionRow q) 0 code'.toList) :
    code.map Instruction.normal = code'.map Instruction.normal := by
  have hnormal : ∀ index i j, instructionRow p index i = instructionRow q index j →
      i.normal = j.normal := fun _ _ _ => normal_of_instructionRow
  apply Array.toList_inj.mp
  rw [Array.toList_map, Array.toList_map]
  exact map_eq_of_numbered hnormal h

/-- The lines of functions, one function after the other, tell the code of each. -/
theorem code_of_functionRows {fs gs : List FunctionDef} {start : Nat}
    (h : (numbered (functionRows p) start fs).flatten =
      (numbered (functionRows q) start gs).flatten) :
    fs.map (fun f => f.code.map Instruction.normal) =
      gs.map (fun f => f.code.map Instruction.normal) := by
  have hnext : ∀ (p : Program) (start : Nat) (fs : List FunctionDef) (row : String),
      (numbered (functionRows p) start fs).flatten.head? = some row → isEntry row = false := by
    intro p start fs row hrow
    cases fs with
    | nil => cases hrow
    | cons f fs =>
      cases hrow
      exact isEntry_functionHead p start f
  induction fs generalizing gs start with
  | nil =>
    cases gs with
    | nil => rfl
    | cons g gs => cases h
  | cons f fs ih =>
    cases gs with
    | nil => cases h
    | cons g gs =>
      obtain ⟨-, hrows⟩ := List.cons.inj h
      obtain ⟨hcode, hrest⟩ := append_inj_of_head (fun _ => isEntry_of_mem_instructionRows)
        (fun _ => isEntry_of_mem_instructionRows) (hnext p (start + 1) fs)
        (hnext q (start + 1) gs) hrows
      rw [List.map_cons, List.map_cons, code_of_rows hcode, ih hrest]

/-- Programs with the same listing have the same symbols, as many literals, the same code of the top
    level and functions of the same code.  No symbol may have a line break. -/
theorem render_unambiguous (hp : ∀ s ∈ p.symbols, OneLine s) (hq : ∀ s ∈ q.symbols, OneLine s)
    (h : render p = render q) :
    p.symbols = q.symbols ∧ p.literals.size = q.literals.size ∧
      p.code.map Instruction.normal = q.code.map Instruction.normal ∧
      p.functions.map (fun f => f.code.map Instruction.normal) =
        q.functions.map (fun f => f.code.map Instruction.normal) := by
  have hindexed : ∀ {α : Type} {content : α → String} {xs : List α},
      ∀ row ∈ numbered (fun index x => indexedRow index (content x)) 0 xs, isEntry row = true :=
    forall_mem_numbered (fun index x _ => isEntry_indexedRow index _) 0
  have hcode : ∀ {p : Program}, ∀ row ∈ numbered (instructionRow p) 0 p.code.toList,
      isEntry row = true := fun _ => isEntry_of_mem_instructionRows
  rw [render_eq_unlines, render_eq_unlines] at h
  have hrows := Text.lines_of_unlines (oneLine_of_mem_rows hp) (oneLine_of_mem_rows hq) h
  unfold rows at hrows
  obtain ⟨hsymbols, hrows⟩ := section_inj (by decide) hindexed hindexed (List.cons.inj hrows).2
  obtain ⟨hliterals, hrows⟩ := section_inj (by decide) hindexed hindexed hrows
  obtain ⟨htop, hfunctions⟩ := section_inj (by decide) hcode hcode hrows
  refine ⟨symbols_of_rows hsymbols, ?_, code_of_rows htop, ?_⟩
  · have hlength := congrArg List.length hliterals
    simpa [numbered, Program.pool] using hlength
  · apply Array.toList_inj.mp
    rw [Array.toList_map, Array.toList_map]
    exact code_of_functionRows hfunctions

/-- A symbol that looks like the head of a section, and two programs that differ where a listing
    shows nothing: in an operand without bytes and far behind the point of a number. -/
theorem render_unambiguous_shown :
    let p : Program := ⟨#["==== Literals ====", "x"], #[.number ⟨0x3FF0000000000000⟩],
      #[⟨.load, 0⟩, ⟨.dup, 3⟩], #[⟨#[1], #[⟨.loadConst, 3⟩, ⟨.ret, 2⟩]⟩]⟩
    let q : Program := ⟨#["==== Literals ====", "x"], #[.number ⟨0x3FF0000000000001⟩],
      #[⟨.load, 0⟩, ⟨.dup, 5⟩], #[⟨#[1], #[⟨.loadConst, 3⟩, ⟨.ret, 0⟩]⟩]⟩
    (∀ s ∈ p.symbols, OneLine s) ∧ (∀ s ∈ q.symbols, OneLine s) ∧ render p = render q ∧ p ≠ q ∧
      p.symbols = q.symbols ∧ p.literals.size = q.literals.size ∧
      p.code.map Instruction.normal = q.code.map Instruction.normal ∧
      p.functions.map (fun f => f.code.map Instruction.normal) =
        q.functions.map (fun f => f.code.map Instruction.normal) := by
  intro p q
  have hp : ∀ s ∈ p.symbols, OneLine s := by decide
  have hq : ∀ s ∈ q.symbols, OneLine s := by decide
  have hlisting : render p = render q := by decide +kernel
  exact ⟨hp, hq, hlisting, by decide, render_unambiguous hp hq hlisting⟩

end Listing

end StackMachine
