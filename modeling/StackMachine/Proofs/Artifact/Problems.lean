import StackMachine.Proofs.Artifact.RoundTrip

/-!
# What has no artifact

The format cannot hold every program.  `Artifact.problems` lists everything in a program that it
cannot hold, in the order in which an artifact is written, and `Artifact.encode_reports` says that
writing fails exactly where there is such a problem, and with the first of them.
-/

namespace StackMachine

/-! ## Failing with the first of several errors -/

/-- The operation fails exactly if there are errors, and then with the first of them. -/
def Reports {ε α : Type} (errors : List ε) (x : Except ε α) : Prop :=
  ∀ e, x = .error e ↔ errors.head? = some e

namespace Reports

variable {ε α β : Type} {errors later : List ε} {x : Except ε α}

theorem ok (a : α) : Reports ([] : List ε) (.ok a) := by
  intro e
  simp

theorem error (e : ε) (later : List ε) : Reports (e :: later) (.error e : Except ε α) := by
  intro e'
  simp

/-- The errors of a sequence are those of its parts. -/
theorem bind {f : α → Except ε β} (hx : Reports errors x) (hf : ∀ a, Reports later (f a)) :
    Reports (errors ++ later) (x >>= f) := by
  intro e
  cases errors with
  | nil =>
    cases x with
    | error e' => simpa using (hx e').mp rfl
    | ok a => exact hf a e
  | cons first rest =>
    obtain rfl : x = .error first := (hx first).mpr rfl
    simp [Bind.bind, Except.bind]

/-- The errors of a list of operations are those of its members, in order. -/
theorem mapM {errorsOf : α → List ε} {f : α → Except ε β} (hf : ∀ a, Reports (errorsOf a) (f a))
    (as : List α) : Reports (as.flatMap errorsOf) (as.mapM f) := by
  induction as with
  | nil => exact ok []
  | cons a as ih =>
    rw [List.mapM_cons, List.flatMap_cons]
    refine (hf a).bind fun b => ?_
    rw [← List.append_nil (as.flatMap errorsOf)]
    exact ih.bind fun bs => ok (b :: bs)

theorem exists_error_iff (hx : Reports errors x) : (∃ e, x = .error e) ↔ errors ≠ [] := by
  simp only [hx _]
  cases errors <;> simp

end Reports

namespace Text

theorem length_utf8 (s : String) : (utf8 s).length = s.utf8ByteSize := by
  rfl

end Text

namespace Artifact

/-! ## Problems -/

/-- The length byte of a symbol has to differ from the end mark. -/
def symbolProblems (symbol : String) : List EncodeError :=
  if 255 ≤ symbol.utf8ByteSize then [.symbolTooLong symbol] else []

/-- Null and the booleans have no tag, and the length of a text has four bytes. -/
def literalProblems : Literal → List EncodeError
  | .null => [.unstorableLiteral]
  | .bool _ => [.unstorableLiteral]
  | .number _ => []
  | .text s => if 2 ^ 32 ≤ s.utf8ByteSize then [.textTooLong s.utf8ByteSize] else []

/-- An operand of one byte has to be below 256. -/
def instructionProblems (i : Instruction) : List EncodeError :=
  if i.op.width = 1 ∧ 255 < i.operand.toNat then [.operandTooLarge i.operand.toNat i.op] else []

/-- The problems of code. -/
def codeProblems (code : Array Instruction) : List EncodeError :=
  code.toList.flatMap instructionProblems

/-- The number of a function's parameters has one byte.  It is written in front of the code. -/
def functionProblems (f : FunctionDef) : List EncodeError :=
  (if 255 < f.params.size then [.tooManyParameters f.params.size] else []) ++ codeProblems f.code

/-- Everything in a program that an artifact cannot hold, in writing order. -/
def problems (p : Program) : List EncodeError :=
  p.symbols.toList.flatMap symbolProblems ++ (p.literals.toList.flatMap literalProblems ++
    (codeProblems p.code ++ p.functions.toList.flatMap functionProblems))

/-! ## Reports -/

theorem reports_symbol (symbol : String) :
    Reports (symbolProblems symbol) (encodeSymbol symbol) := by
  unfold symbolProblems encodeSymbol
  dsimp only
  rw [Text.length_utf8]
  by_cases hlong : 255 ≤ symbol.utf8ByteSize
  · rw [if_pos hlong, if_neg (by simpa [endMark] using hlong)]
    exact .error _ _
  · rw [if_neg hlong, if_pos (by simpa [endMark] using hlong)]
    exact .ok _

theorem reports_literal (l : Literal) : Reports (literalProblems l) (encodeLiteral l) := by
  cases l with
  | null => exact .error _ _
  | bool b => exact .error _ _
  | number x => exact .ok _
  | text s =>
    unfold literalProblems encodeLiteral
    dsimp only
    rw [Text.length_utf8]
    by_cases hlong : 2 ^ 32 ≤ s.utf8ByteSize
    · rw [if_pos hlong, if_neg (Nat.not_lt.mpr hlong)]
      exact .error _ _
    · rw [if_neg hlong, if_pos (Nat.lt_of_not_le hlong)]
      exact .ok _

theorem reports_instruction (i : Instruction) :
    Reports (instructionProblems i) (encodeInstruction i) := by
  unfold instructionProblems encodeInstruction
  split
  · exact .error _ _
  · exact .ok _

theorem reports_encodeAll {α : Type} {errorsOf : α → List EncodeError}
    {entry : α → Except EncodeError (List UInt8)} (h : ∀ a, Reports (errorsOf a) (entry a))
    (xs : Array α) : Reports (xs.toList.flatMap errorsOf) (encodeAll entry xs) := by
  rw [← List.append_nil (xs.toList.flatMap errorsOf)]
  exact (Reports.mapM h xs.toList).bind fun _ => .ok _

theorem reports_code (code : Array Instruction) :
    Reports (codeProblems code) (encodeCode code) := by
  rw [← List.append_nil (codeProblems code)]
  exact (reports_encodeAll reports_instruction code).bind fun _ => .ok _

theorem reports_function (f : FunctionDef) :
    Reports (functionProblems f) (encodeFunction f) := by
  unfold functionProblems encodeFunction
  split
  · exact .error _ _
  · rw [List.nil_append, ← List.append_nil (codeProblems f.code)]
    exact (reports_code f.code).bind fun _ => .ok _

theorem reports_encode (p : Program) : Reports (problems p) (encode p) := by
  refine (reports_encodeAll reports_symbol p.symbols).bind fun symbols => ?_
  refine (reports_encodeAll reports_literal p.literals).bind fun literals => ?_
  refine (reports_code p.code).bind fun code => ?_
  rw [← List.append_nil (p.functions.toList.flatMap functionProblems)]
  exact (reports_encodeAll reports_function p.functions).bind fun _ => .ok _

/-! ## Where there are problems -/

theorem literalProblems_ne_nil_iff {l : Literal} : literalProblems l ≠ [] ↔
    l = .null ∨ (∃ b, l = .bool b) ∨ ∃ s, l = .text s ∧ 2 ^ 32 ≤ s.utf8ByteSize := by
  cases l <;> simp [literalProblems]

theorem codeProblems_ne_nil_iff {code : Array Instruction} : codeProblems code ≠ [] ↔
    ∃ i ∈ code, i.op.width = 1 ∧ 255 < i.operand.toNat := by
  simp [codeProblems, instructionProblems]

theorem functionProblems_ne_nil_iff {f : FunctionDef} : functionProblems f ≠ [] ↔
    255 < f.params.size ∨ ∃ i ∈ f.code, i.op.width = 1 ∧ 255 < i.operand.toNat := by
  rw [functionProblems, Ne, List.append_eq_nil_iff, Classical.not_and_iff_not_or_not]
  exact or_congr (by simp) codeProblems_ne_nil_iff

theorem problems_ne_nil_iff {p : Program} : problems p ≠ [] ↔
    (∃ symbol ∈ p.symbols, 255 ≤ symbol.utf8ByteSize) ∨
    (∃ l ∈ p.literals, l = .null ∨ (∃ b, l = .bool b) ∨
      ∃ s, l = .text s ∧ 2 ^ 32 ≤ s.utf8ByteSize) ∨
    (∃ i ∈ p.instructions, i.op.width = 1 ∧ 255 < i.operand.toNat) ∨
    ∃ f ∈ p.functions, 255 < f.params.size := by
  have hsymbols : p.symbols.toList.flatMap symbolProblems ≠ [] ↔
      ∃ symbol ∈ p.symbols, 255 ≤ symbol.utf8ByteSize := by
    simp [symbolProblems]
  have hliterals : p.literals.toList.flatMap literalProblems ≠ [] ↔
      ∃ l ∈ p.literals, l = .null ∨ (∃ b, l = .bool b) ∨
        ∃ s, l = .text s ∧ 2 ^ 32 ≤ s.utf8ByteSize := by
    simp only [ne_eq, List.flatMap_eq_nil_iff, Classical.not_forall, exists_prop,
      Array.mem_toList_iff]
    simp only [← ne_eq, literalProblems_ne_nil_iff]
  have hfunctions : p.functions.toList.flatMap functionProblems ≠ [] ↔
      (∃ f ∈ p.functions, 255 < f.params.size) ∨
        ∃ f ∈ p.functions, ∃ i ∈ f.code, i.op.width = 1 ∧ 255 < i.operand.toNat := by
    simp only [ne_eq, List.flatMap_eq_nil_iff, Classical.not_forall, exists_prop,
      Array.mem_toList_iff]
    simp only [← ne_eq, functionProblems_ne_nil_iff, and_or_left, exists_or]
  have hinstructions : (∃ i ∈ p.instructions, i.op.width = 1 ∧ 255 < i.operand.toNat) ↔
      (∃ i ∈ p.code, i.op.width = 1 ∧ 255 < i.operand.toNat) ∨
        ∃ f ∈ p.functions, ∃ i ∈ f.code, i.op.width = 1 ∧ 255 < i.operand.toNat := by
    simp only [Program.instructions, List.mem_append, List.mem_flatMap, Array.mem_toList_iff,
      or_and_right, exists_or]
    refine or_congr Iff.rfl ⟨?_, ?_⟩
    · rintro ⟨i, ⟨f, hf, hi⟩, hlarge⟩
      exact ⟨f, hf, i, hi, hlarge⟩
    · rintro ⟨f, hf, i, hi, hlarge⟩
      exact ⟨i, ⟨f, hf, hi⟩, hlarge⟩
  have hsplit : problems p ≠ [] ↔ p.symbols.toList.flatMap symbolProblems ≠ [] ∨
      p.literals.toList.flatMap literalProblems ≠ [] ∨ codeProblems p.code ≠ [] ∨
        p.functions.toList.flatMap functionProblems ≠ [] := by
    simp only [problems, ne_eq, List.append_eq_nil_iff, Classical.not_and_iff_not_or_not]
  rw [hsplit, hsymbols, hliterals, codeProblems_ne_nil_iff, hfunctions, hinstructions, or_assoc]
  -- What is left is a change of order: code of functions stands before their parameters here.
  exact or_congr Iff.rfl (or_congr Iff.rfl (or_congr Iff.rfl or_comm))

/-- A literal comes before all code, and the operand of a jump has two bytes. -/
example : problems ⟨#[], #[.bool true], #[⟨.print, 256⟩, ⟨.jump, 256⟩],
    #[⟨#[], #[⟨.call, 300⟩]⟩]⟩ =
      [.unstorableLiteral, .operandTooLarge 256 .print, .operandTooLarge 300 .call] := by
  decide

end Artifact

end StackMachine
