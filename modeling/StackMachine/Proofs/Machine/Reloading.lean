import StackMachine.Proofs.Artifact.Layout
import StackMachine.Proofs.Machine.Comparison

/-!
# Programs and their artifacts run alike

An artifact keeps of a program all that the machine and the listing look at: no instruction, and no
line about one, depends on an operand that the opcode has no bytes for.  So a program that is read
back from its artifact takes the same steps (`State.step_normal`), and no host can tell it from the
one that was written (`Artifact.views_of_reload`).
-/

namespace StackMachine

theorem Instruction.normal_of_width_pos {i : Instruction} (h : 0 < i.op.width) :
    i.normal = i := by
  rw [normal, if_neg (Nat.ne_of_gt h)]

theorem FunctionDef.params_normal (f : FunctionDef) : f.normal.params = f.params := rfl

namespace Program

theorem symbols_normal (p : Program) : p.normal.symbols = p.symbols := rfl

theorem literals_normal (p : Program) : p.normal.literals = p.literals := rfl

theorem functions_normal (p : Program) :
    p.normal.functions = p.functions.map FunctionDef.normal := rfl

theorem sameTables_normal (p : Program) : p.SameTables p.normal := by
  refine ⟨p.symbols_normal, p.literals_normal, ?_⟩
  rw [functions_normal, Array.map_map]
  rfl

theorem chunk_normal (p : Program) (active : Option Nat) :
    p.normal.chunk active = (p.chunk active).map Instruction.normal := by
  cases active with
  | none => rfl
  | some n =>
    rw [chunk, chunk, functions_normal, Array.getElem?_map]
    cases p.functions[n]? with
    | none => exact Array.map_empty.symm
    | some f => rfl

end Program

/-! ## Steps -/

/-- No instruction looks at an operand that its opcode has no bytes for. -/
theorem Exec.instruction_normal (p : Program) (cfg : Settings) (i : Instruction) :
    instruction p cfg i.normal = instruction p cfg i := by
  by_cases hwidth : 0 < i.op.width
  · rw [Instruction.normal_of_width_pos hwidth]
  · obtain ⟨op, operand⟩ := i
    cases op
    case loadConst | load | declare | assign | jump | jumpTruthy | jumpFalsy | call | callWith |
        function | print =>
      exact absurd (Nat.succ_pos _) hwidth
    all_goals rfl

/-- Nor does the line about it. -/
theorem Listing.instructionText_normal (i : Instruction) :
    instructionText i.normal = instructionText i := by
  by_cases hwidth : 0 < i.op.width
  · rw [Instruction.normal_of_width_pos hwidth]
  · rw [instructionText, instructionText, Instruction.op_normal, if_neg hwidth, if_neg hwidth]

namespace State

theorem next?_normal (p : Program) (s : State) :
    s.next? p.normal = (s.next? p).map Instruction.normal := by
  rw [next?, next?, Program.chunk_normal, Array.getElem?_map]

theorem logged_normal (cfg : Settings) (i : Instruction) (s : State) :
    s.logged cfg i.normal = s.logged cfg i := by
  have hlines : s.logLines i.normal = s.logLines i := by
    unfold logLines
    rw [Listing.instructionText_normal]
  rw [logged, logged, hlines]

/-- A program takes the same steps as it does with all instructions as they are in an artifact. -/
theorem step_normal (p : Program) (cfg : Settings) (s : State) :
    s.step p.normal cfg = s.step p cfg := by
  unfold step
  rw [next?_normal]
  cases s.next? p with
  | none => rfl
  | some i =>
    have hexec : Exec.instruction p.normal cfg i.normal = Exec.instruction p cfg i := by
      rw [Exec.instruction_congr p.sameTables_normal, Exec.instruction_normal]
    rw [Option.map_some]
    dsimp only
    rw [hexec, logged_normal]

end State

/-! ## Listings -/

namespace Listing

theorem lines_map {α β : Type} (line : Nat → β → String) (f : α → β) (xs : Array α) :
    lines line (xs.map f) = lines (fun index x => line index (f x)) xs := by
  rw [lines, lines, Array.toList_map, List.zipIdx_map, List.map_map]
  rfl

theorem note?_normal (p : Program) (i : Instruction) : note? p.normal i.normal = note? p i := by
  by_cases hwidth : 0 < i.op.width
  · rw [Instruction.normal_of_width_pos hwidth]
    rfl
  · obtain ⟨op, operand⟩ := i
    cases op
    case loadConst | load | declare | assign => exact absurd (Nat.succ_pos _) hwidth
    all_goals rfl

theorem lines_normal (p : Program) (code : Array Instruction) :
    lines (instructionLine p.normal) (code.map Instruction.normal) =
      lines (instructionLine p) code := by
  have hline : ∀ index i, instructionLine p.normal index i.normal = instructionLine p index i := by
    intro index i
    unfold instructionLine
    rw [note?_normal, instructionText_normal]
  rw [lines_map]
  simp only [hline]

theorem function_normal (p : Program) (index : Nat) (f : FunctionDef) :
    function p.normal index f.normal = function p index f := by
  have hparameter : parameter p.normal = parameter p := rfl
  have hcode : lines (instructionLine p.normal) f.normal.code = lines (instructionLine p) f.code :=
    lines_normal p f.code
  unfold function
  rw [hparameter, f.params_normal, hcode]

/-- A listing shows nothing that an artifact does not keep. -/
theorem render_normal (p : Program) : render p.normal = render p := by
  have hcode : lines (instructionLine p.normal) p.normal.code = lines (instructionLine p) p.code :=
    lines_normal p p.code
  have hfunctions : lines (function p.normal) p.normal.functions =
      lines (function p) p.functions := by
    rw [p.functions_normal, lines_map]
    simp only [function_normal]
  have hpool : p.normal.pool = p.pool := by
    rw [Program.pool, Program.pool, p.literals_normal]
  unfold render
  rw [p.symbols_normal, hpool, hcode, hfunctions]

theorem summary_normal (p : Program) : summary p.normal = summary p := by
  have hcode : p.normal.code.size = p.code.size := Array.size_map
  have hfunctions : p.normal.functions.size = p.functions.size := Array.size_map
  have hcount : p.normal.instructionCount = p.instructionCount := by
    rw [Program.instructionCount, Program.instructionCount, hcode, p.functions_normal,
      Array.foldl_map]
    simp only [FunctionDef.normal, Array.size_map]
  unfold summary
  rw [p.symbols_normal, p.literals_normal, hcount, hfunctions]

end Listing

/-! ## Artifacts -/

namespace Artifact

/-- A program that has an artifact is read back from it, and no sequence of requests to a machine,
    whatever its state and settings, shows whether it has the one or the other program.  They also
    have the same listing. -/
theorem views_of_reload {p : Program} {bytes : List UInt8} (h : encode p = .ok bytes) :
    ∃ q, decode bytes = .ok q ∧
      (∀ (m : Session) (requests : List Request),
        (m.withProgram q).views requests = (m.withProgram p).views requests) ∧
      Listing.render q = Listing.render p ∧ Listing.summary q = Listing.summary p := by
  refine ⟨p.normal, decode_of_encode h, fun m requests => ?_, ?_, ?_⟩
  · exact Session.views_congr (State.step_normal p) requests m
  · exact Listing.render_normal p
  · exact Listing.summary_normal p

/-- Three instructions carry operands that the artifact drops. -/
theorem views_of_reload_dropped :
    let p : Program := ⟨#["x"], #[], #[⟨.loadConst, 1⟩, ⟨.dup, 3⟩, ⟨.not, 2⟩, ⟨.ret, 7⟩], #[]⟩
    let store := ((Store.empty fun _ => ⟨0⟩).newScope none).2
    let requests : List Request := [.define "x" fun st => (.null, st), .setMaxCallDepth 2, .run 5]
    ∃ bytes q, encode p = .ok bytes ∧ decode bytes = .ok q ∧
      (∀ m : Session, (m.withProgram q).views requests = (m.withProgram p).views requests) ∧
      (Session.views requests ⟨q, {}, .initial store {}⟩).map View.stackDepth = [0, 0, 2] ∧
      Listing.render q = Listing.render p ∧ Listing.summary q = Listing.summary p := by
  intro p store requests
  have hencode : encode p =
      .ok [0x01, 0x17, 1, 120, 0xFF, 0xFF, 0x01, 1, 0, 0x06, 0x47, 0x0D, 0xFF] := rfl
  obtain ⟨q, hdecode, hviews, hlisting⟩ := views_of_reload hencode
  refine ⟨_, q, hencode, hdecode, fun m => hviews m requests, ?_, hlisting⟩
  have hq := hviews ⟨p, {}, .initial store {}⟩ requests
  exact congrArg (List.map View.stackDepth) hq

end Artifact

end StackMachine
