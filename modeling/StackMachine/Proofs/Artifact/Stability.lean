import StackMachine.Proofs.Artifact.Acceptance

/-!
# Reading from sources that give more

A reader that ends well takes no notice of the bytes behind those it takes, nor of how the source
ends, and a reader that fails does so for want of bytes or because of bytes that it has seen.
`Stable` says both of a reader.  It passes through sequences of readers, so it holds of every
section that marks its own end; reading a whole program is `Strict`, which is the part of it about
failures.
-/

namespace StackMachine

/-- The error of a reader that wants more bytes in a section than the source gives. -/
def Source.Stop.error (part : Artifact.Part) : Source.Stop → Artifact.LoadError
  | .ended => .unexpectedEnd part
  | .broken reason => .unreadable reason

namespace Artifact

open Source

abbrev Reader (α : Type) := Source → Except LoadError (α × Source)

variable {α β : Type} {part : Part}

/-- What the reader finds in a source it finds in every source that gives the same bytes first, and
    it leaves what follows there; and it fails either at the end of the source or in every source
    that gives the same bytes first. -/
structure Stable (part : Part) (read : Reader α) : Prop where
  ok {s t rest : Source} {a : α} {extra : List UInt8} (h : read s = .ok (a, rest))
    (ht : t.bytes = s.bytes ++ extra) :
    ∃ rest', read t = .ok (a, rest') ∧ rest'.bytes = rest.bytes ++ extra ∧ rest'.stop = t.stop
  error {s : Source} {e : LoadError} (h : read s = .error e) :
    e = s.stop.error part ∨ ∀ t extra, t.bytes = s.bytes ++ extra → read t = .error e

/-- The reader fails only at the end of a source or in every source that gives the same bytes
    first. -/
def Strict (read : Source → Except LoadError β) : Prop :=
  ∀ s e, read s = .error e →
    (∃ part, e = s.stop.error part) ∨ ∀ t extra, t.bytes = s.bytes ++ extra → read t = .error e

/-- Reads and goes on with what was read. -/
def andThen (read : Reader α) (next : α → Source → Except LoadError β) (s : Source) :
    Except LoadError β :=
  match read s with
  | .ok (a, rest) => next a rest
  | .error e => .error e

theorem andThen_eq_bind (read : Reader α) (next : α → Source → Except LoadError β) (s : Source) :
    andThen read next s = read s >>= fun (a, rest) => next a rest := by
  rw [andThen]
  cases read s <;> rfl

theorem andThen_ok {read : Reader α} {s rest : Source} {a : α} (h : read s = .ok (a, rest))
    (next : α → Source → Except LoadError β) : andThen read next s = next a rest := by
  rw [andThen, h]

theorem andThen_error {read : Reader α} {s : Source} {e : LoadError} (h : read s = .error e)
    (next : α → Source → Except LoadError β) : andThen read next s = .error e := by
  rw [andThen, h]

/-! ## Sequences -/

namespace Stable

theorem stop_eq {read : Reader α} (hread : Stable part read) {s rest : Source} {a : α}
    (h : read s = .ok (a, rest)) : rest.stop = s.stop := by
  obtain ⟨rest', hrest', -, hstop⟩ := hread.ok h (List.append_nil s.bytes).symm
  rw [h] at hrest'
  cases hrest'
  exact hstop

theorem give (a : α) : Stable part fun s => .ok (a, s) where
  ok := by
    intro s t rest b extra h ht
    cases h
    exact ⟨t, rfl, ht, rfl⟩
  error := by
    intro s e h
    cases h

theorem fail (e : LoadError) : Stable part fun _ => (.error e : Except LoadError (α × Source)) where
  ok := by
    intro s t rest b extra h
    cases h
  error := by
    intro s e' h
    cases h
    exact Or.inr fun _ _ _ => rfl

/-- A sequence fails in its first reader, which is stable, or behind what that has read. -/
theorem andThen_fails {read : Reader α} {next : α → Source → Except LoadError β} {ends : Prop}
    (hread : Stable part read) {s : Source} {e : LoadError} (h : andThen read next s = .error e)
    (hends : e = s.stop.error part → ends)
    (hnext : ∀ a rest, read s = .ok (a, rest) → next a rest = .error e →
      ends ∨ ∀ t extra, t.bytes = rest.bytes ++ extra → next a t = .error e) :
    ends ∨ ∀ t extra, t.bytes = s.bytes ++ extra → andThen read next t = .error e := by
  cases hs : read s with
  | error e' =>
    rw [andThen_error hs] at h
    cases h
    exact (hread.error hs).imp hends fun hall t extra ht => andThen_error (hall t extra ht) next
  | ok taken =>
    obtain ⟨a, rest⟩ := taken
    rw [andThen_ok hs] at h
    refine (hnext a rest hs h).imp_right fun hall t extra ht => ?_
    obtain ⟨rest', hr, hbytes, -⟩ := hread.ok hs ht
    rw [andThen_ok hr]
    exact hall rest' extra hbytes

theorem andThen {read : Reader α} {next : α → Reader β} (hread : Stable part read)
    (hnext : ∀ a, Stable part (next a)) : Stable part (andThen read next) where
  ok := by
    intro s t rest b extra h ht
    cases hs : read s with
    | error e =>
      rw [andThen_error hs] at h
      cases h
    | ok taken =>
      obtain ⟨a, rest₁⟩ := taken
      obtain ⟨rest₂, hr, hbytes, hstop⟩ := hread.ok hs ht
      rw [andThen_ok hs] at h
      rw [andThen_ok hr, ← hstop]
      exact (hnext a).ok h hbytes
  error := by
    intro s e h
    refine hread.andThen_fails h id fun a rest hs hrest => ?_
    rw [← hread.stop_eq hs]
    exact (hnext a).error hrest

theorem ite {c : Prop} [Decidable c] {x y : Reader α} (hx : Stable part x) (hy : Stable part y) :
    Stable part fun s => if c then x s else y s := by
  by_cases hc : c
  · simpa only [if_pos hc] using hx
  · simpa only [if_neg hc] using hy

end Stable

theorem Strict.andThen {read : Reader α} {next : α → Source → Except LoadError β}
    (hread : Stable part read) (hnext : ∀ a, Strict (next a)) : Strict (andThen read next) := by
  intro s e h
  refine hread.andThen_fails h (fun hend => ⟨part, hend⟩) fun a rest hs hrest => ?_
  rw [← hread.stop_eq hs]
  exact hnext a rest e hrest

theorem Strict.bind_ok {γ : Type} {read : Source → Except LoadError β} (hread : Strict read)
    (f : β → γ) : Strict fun s => read s >>= fun b => .ok (f b) := by
  intro s e h
  cases hs : read s with
  | ok b =>
    simp only [hs] at h
    cases h
  | error e' =>
    simp only [hs] at h
    cases h
    refine (hread s _ hs).imp_right fun hall t extra ht => ?_
    simp only [hall t extra ht]
    rfl

theorem Strict.fail (e : LoadError) : Strict fun _ => (.error e : Except LoadError β) := by
  intro s e' h
  cases h
  exact Or.inr fun _ _ _ => rfl

/-! ## Numbers and texts -/

theorem stable_need (part : Part) (n : Nat) : Stable part (need part n) where
  ok := by
    intro s t rest got extra h ht
    obtain ⟨hbytes, hlength⟩ := bytes_of_need h
    have hsize : n ≤ t.size := by
      rw [size, ht, hbytes, List.length_append, List.length_append, hlength]
      omega
    cases htake : t.take n with
    | error stop =>
      have := (size_lt_of_take_error htake).1
      omega
    | ok taken =>
      obtain ⟨got', rest'⟩ := taken
      obtain ⟨hbytes', hlength'⟩ := bytes_of_take htake
      rw [ht, hbytes, List.append_assoc] at hbytes'
      obtain ⟨rfl, hrest⟩ := List.append_inj hbytes' (hlength.trans hlength'.symm)
      exact ⟨rest', by rw [need, htake], hrest.symm, stop_of_take htake⟩
  error := by
    intro s e h
    unfold need at h
    split at h
    · cases h
    · rename_i htake
      cases h
      rw [← (size_lt_of_take_error htake).2]
      exact Or.inl rfl
    · rename_i reason htake
      cases h
      rw [← (size_lt_of_take_error htake).2]
      exact Or.inl rfl

theorem needNumber_eq_andThen (part : Part) (n : Nat) : needNumber part n =
    andThen (need part n) fun bytes s => .ok (ofLittleEndian bytes, s) := by
  funext s
  rw [needNumber, andThen]
  cases need part n s <;> rfl

theorem needText_eq_andThen (part : Part) (n : Nat) : needText part n =
    andThen (need part n) fun bytes s =>
      (Text.ofUtf8? bytes).elim (.error (.invalidText part)) fun text => .ok (text, s) := by
  funext s
  rw [needText, andThen]
  cases need part n s with
  | error e => rfl
  | ok taken =>
    obtain ⟨bytes, s₁⟩ := taken
    dsimp only
    cases Text.ofUtf8? bytes <;> rfl

theorem stable_needNumber (part : Part) (n : Nat) : Stable part (needNumber part n) := by
  rw [needNumber_eq_andThen]
  exact (stable_need part n).andThen fun bytes => .give (ofLittleEndian bytes)

theorem stable_needText (part : Part) (n : Nat) : Stable part (needText part n) := by
  rw [needText_eq_andThen]
  refine (stable_need part n).andThen fun bytes => ?_
  cases Text.ofUtf8? bytes with
  | some text => exact .give text
  | none => exact .fail _

/-! ## Entries -/

/-- What stands at some place of a section, without the source that follows. -/
inductive Mark (α : Type)
  | finished
  | reserved
  | item (a : α)

def Entry.mark : Entry α → Mark α × Source
  | .finished rest => (.finished, rest)
  | .reserved rest => (.reserved, rest)
  | .item a rest => (.item a, rest)

def Mark.entry : Mark α → Source → Entry α
  | .finished, rest => .finished rest
  | .reserved, rest => .reserved rest
  | .item a, rest => .item a rest

/-- An entry's reader as a reader of marks. -/
def marks (entry : Source → Except LoadError (Entry α)) (s : Source) :
    Except LoadError (Mark α × Source) :=
  (entry s).map Entry.mark

theorem marks_eq_ok_iff {entry : Source → Except LoadError (Entry α)} {s rest : Source}
    {m : Mark α} : marks entry s = .ok (m, rest) ↔ entry s = .ok (m.entry rest) := by
  unfold marks
  cases entry s with
  | error e =>
    constructor <;> intro h <;> cases h
  | ok e =>
    constructor
    · intro h
      cases e <;> cases h <;> rfl
    · intro h
      cases h
      cases m <;> rfl

theorem marks_eq_error_iff {entry : Source → Except LoadError (Entry α)} {s : Source}
    {e : LoadError} : marks entry s = .error e ↔ entry s = .error e := by
  unfold marks
  cases entry s with
  | error e' =>
    constructor <;> intro h <;> cases h <;> rfl
  | ok a =>
    constructor <;> intro h <;> cases h

theorem marks_symbolEntry : marks symbolEntry = andThen (needNumber .symbols 1) fun length s₁ =>
    if length = endMark.toNat then .ok (.finished, s₁)
    else andThen (needText .symbols length) (fun symbol s₂ => .ok (.item symbol, s₂)) s₁ := by
  funext s
  rw [marks, symbolEntry, andThen]
  cases needNumber .symbols 1 s with
  | error e => rfl
  | ok taken =>
    obtain ⟨length, s₁⟩ := taken
    dsimp only
    split
    · rfl
    · rw [andThen]
      cases needText .symbols length s₁ <;> rfl

theorem marks_literalEntry : marks literalEntry = andThen (needNumber .literals 1) fun byte s₁ =>
    if UInt8.ofNat byte = endMark then .ok (.finished, s₁)
    else if isReservedTag (UInt8.ofNat byte) then .ok (.reserved, s₁)
    else if UInt8.ofNat byte = numberTag then
      andThen (needNumber .literals 8)
        (fun bits s₂ => .ok (.item (.number ⟨UInt64.ofNat bits⟩), s₂)) s₁
    else if UInt8.ofNat byte = textTag then
      andThen (needNumber .literals 4)
        (fun length => andThen (needText .literals length)
          fun text s₃ => .ok (.item (.text text), s₃)) s₁
    else .error (.unknownLiteralTag (UInt8.ofNat byte)) := by
  funext s
  rw [marks, literalEntry, andThen]
  cases needNumber .literals 1 s with
  | error e => rfl
  | ok taken =>
    obtain ⟨byte, s₁⟩ := taken
    dsimp only
    split
    · rfl
    · split
      · rfl
      · split
        · rw [andThen]
          cases needNumber .literals 8 s₁ <;> rfl
        · split
          · rw [andThen]
            cases needNumber .literals 4 s₁ with
            | error e => rfl
            | ok taken =>
              obtain ⟨length, s₂⟩ := taken
              dsimp only
              rw [andThen]
              cases needText .literals length s₂ <;> rfl
          · rfl

theorem marks_instructionEntry (part : Part) : marks (instructionEntry part) =
    andThen (needNumber part 1) fun byte s₁ =>
      if UInt8.ofNat byte = endMark then .ok (.finished, s₁)
      else (Opcode.ofByte? (UInt8.ofNat byte)).elim
        (.error (.unknownOpcode (UInt8.ofNat byte) part)) fun op =>
          andThen (needNumber part op.width)
            (fun operand s₂ => .ok (.item ⟨op, UInt16.ofNat operand⟩, s₂)) s₁ := by
  funext s
  rw [marks, instructionEntry, andThen]
  cases needNumber part 1 s with
  | error e => rfl
  | ok taken =>
    obtain ⟨byte, s₁⟩ := taken
    dsimp only
    split
    · rfl
    · cases Opcode.ofByte? (UInt8.ofNat byte) with
      | none => rfl
      | some op =>
        dsimp only [Option.elim]
        rw [andThen]
        cases needNumber part op.width s₁ <;> rfl

theorem stable_symbolEntry : Stable .symbols (marks symbolEntry) := by
  rw [marks_symbolEntry]
  exact (stable_needNumber _ _).andThen fun length => .ite (.give _)
    ((stable_needText _ _).andThen fun symbol => .give _)

theorem stable_literalEntry : Stable .literals (marks literalEntry) := by
  rw [marks_literalEntry]
  refine (stable_needNumber _ _).andThen fun byte =>
    .ite (.give _) (.ite (.give _) (.ite ?_ (.ite ?_ (.fail _))))
  · exact (stable_needNumber _ _).andThen fun bits => .give _
  · exact (stable_needNumber _ _).andThen fun length =>
      (stable_needText _ _).andThen fun text => .give _

theorem stable_instructionEntry (part : Part) : Stable part (marks (instructionEntry part)) := by
  rw [marks_instructionEntry]
  refine (stable_needNumber _ _).andThen fun byte => .ite (.give _) ?_
  cases Opcode.ofByte? (UInt8.ofNat byte) with
  | none => exact .fail _
  | some op => exact (stable_needNumber _ _).andThen fun operand => .give _

/-! ## Sections -/

section Sections

variable {entry : Source → Except LoadError (Entry α)}
  {hentry : ∀ s e, entry s = .ok e → e.Shorter s}

theorem readAll_error {s : Source} {e : LoadError} (h : entry s = .error e) (found : Array α) :
    readAll entry hentry s found = .error e := by
  rw [readAll]
  split
  all_goals rename_i heq; rw [h] at heq; cases heq
  rfl

/-- Where the entries of a section are stable, so is the section. -/
theorem stable_readAll (h : Stable part (marks entry)) (found : Array α) :
    Stable part fun s => readAll entry hentry s found where
  ok := by
    intro s t rest all extra hs ht
    fun_induction readAll entry hentry s found generalizing t with
    | case1 => cases hs
    | case2 s found rest₁ hfin =>
      cases hs
      obtain ⟨rest₂, hmark, hbytes, hstop⟩ := h.ok (marks_eq_ok_iff (m := .finished).mpr hfin) ht
      exact ⟨rest₂, readAll_finished (marks_eq_ok_iff.mp hmark) _, hbytes, hstop⟩
    | case3 s found rest₁ hres ih =>
      obtain ⟨rest₂, hmark, hbytes, hstop⟩ := h.ok (marks_eq_ok_iff (m := .reserved).mpr hres) ht
      rw [readAll_reserved (marks_eq_ok_iff.mp hmark), ← hstop]
      exact ih hs hbytes
    | case4 s found a rest₁ hitem ih =>
      obtain ⟨rest₂, hmark, hbytes, hstop⟩ := h.ok (marks_eq_ok_iff (m := .item a).mpr hitem) ht
      rw [readAll_item (marks_eq_ok_iff.mp hmark), ← hstop]
      exact ih hs hbytes
  error := by
    intro s e hs
    fun_induction readAll entry hentry s found with
    | case1 s found e' herror =>
      cases hs
      refine (h.error (marks_eq_error_iff.mpr herror)).imp_right fun hall t extra ht => ?_
      exact readAll_error (marks_eq_error_iff.mp (hall t extra ht)) found
    | case2 => cases hs
    | case3 s found rest₁ hres ih =>
      have hmark := marks_eq_ok_iff (m := .reserved).mpr hres
      rw [← h.stop_eq hmark]
      refine (ih hs).imp_right fun hall t extra ht => ?_
      obtain ⟨rest₂, hmark₂, hbytes, -⟩ := h.ok hmark ht
      rw [readAll_reserved (marks_eq_ok_iff.mp hmark₂)]
      exact hall rest₂ extra hbytes
    | case4 s found a rest₁ hitem ih =>
      have hmark := marks_eq_ok_iff (m := .item a).mpr hitem
      rw [← h.stop_eq hmark]
      refine (ih hs).imp_right fun hall t extra ht => ?_
      obtain ⟨rest₂, hmark₂, hbytes, -⟩ := h.ok hmark ht
      rw [readAll_item (marks_eq_ok_iff.mp hmark₂)]
      exact hall rest₂ extra hbytes

end Sections

theorem stable_readSymbols :
    Stable .symbols fun s => readAll symbolEntry symbolEntry_shorter s #[] :=
  stable_readAll stable_symbolEntry #[]

theorem stable_readLiterals :
    Stable .literals fun s => readAll literalEntry literalEntry_shorter s #[] :=
  stable_readAll stable_literalEntry #[]

theorem stable_readCode (part : Part) : Stable part (readCode part) :=
  stable_readAll (stable_instructionEntry part) #[]

/-! ## Functions and programs -/

/-- A function, in a source that is known to hold one. -/
def readFunction : Reader FunctionDef :=
  andThen (need .functions 1) fun count =>
    andThen (need .functions (2 * ofLittleEndian count)) fun params =>
      andThen (readCode .functions) fun code s => .ok (⟨(pairs params).toArray, code⟩, s)

theorem stable_readFunction : Stable .functions readFunction :=
  (stable_need _ _).andThen fun _ => (stable_need _ _).andThen fun _ =>
    (stable_readCode _).andThen fun _ => .give _

theorem readFunction_of_nil {s : Source} (h : s.bytes = []) :
    readFunction s = .error (s.stop.error .functions) := by
  have hsize : s.size < 1 := by rw [size, h]; exact Nat.one_pos
  apply andThen_error
  rw [need, take_of_size_lt hsize]
  cases s.stop <;> rfl

theorem functionEntry_of_ended {s : Source} (h : s.bytes = []) (hstop : s.stop = .ended) :
    functionEntry s = .ok (.finished s) := by
  have hsize : s.size < 1 := by rw [size, h]; exact Nat.one_pos
  rw [functionEntry, take_of_size_lt hsize, hstop]

/-- Where the source does not end, a function is read. -/
theorem functionEntry_eq {s : Source} (h : ¬(s.bytes = [] ∧ s.stop = .ended)) :
    functionEntry s = (readFunction s).map fun (f, rest) => .item f rest := by
  rw [functionEntry, readFunction, andThen, need]
  cases htake : s.take 1 with
  | error stop =>
    obtain ⟨hsize, rfl⟩ := size_lt_of_take_error htake
    have hnil : s.bytes = [] := List.eq_nil_of_length_eq_zero (Nat.lt_one_iff.mp hsize)
    cases hstop : s.stop with
    | ended => exact absurd ⟨hnil, hstop⟩ h
    | broken reason => rfl
  | ok taken =>
    obtain ⟨count, s₁⟩ := taken
    dsimp only
    rw [andThen]
    cases need .functions (2 * ofLittleEndian count) s₁ with
    | error e => rfl
    | ok taken =>
      obtain ⟨params, s₂⟩ := taken
      dsimp only
      rw [andThen]
      cases readCode .functions s₂ <;> rfl

theorem functionEntry_of_ok {s rest : Source} {f : FunctionDef}
    (h : readFunction s = .ok (f, rest)) : functionEntry s = .ok (.item f rest) := by
  have hnil : s.bytes ≠ [] := by
    intro hnil
    rw [readFunction_of_nil hnil] at h
    cases h
  rw [functionEntry_eq fun hend => hnil hend.1, h]
  rfl

theorem functionEntry_of_error {s : Source} {e : LoadError} (hnil : s.bytes ≠ [])
    (h : readFunction s = .error e) : functionEntry s = .error e := by
  rw [functionEntry_eq fun hend => hnil hend.1, h]
  rfl

theorem readFunction_of_item {s rest : Source} {f : FunctionDef}
    (h : functionEntry s = .ok (.item f rest)) : readFunction s = .ok (f, rest) := by
  by_cases hend : s.bytes = [] ∧ s.stop = .ended
  · rw [functionEntry_of_ended hend.1 hend.2] at h
    cases h
  · rw [functionEntry_eq hend] at h
    cases hread : readFunction s <;> rw [hread] at h <;> cases h
    rfl

theorem readFunction_of_error {s : Source} {e : LoadError} (h : functionEntry s = .error e) :
    readFunction s = .error e := by
  by_cases hend : s.bytes = [] ∧ s.stop = .ended
  · rw [functionEntry_of_ended hend.1 hend.2] at h
    cases h
  · rw [functionEntry_eq hend] at h
    cases hread : readFunction s <;> rw [hread] at h <;> cases h
    rfl

/-- The functions are not stable, since more bytes may hold more functions, but failures are. -/
theorem strict_readFunctions (found : Array FunctionDef) :
    Strict fun s => readAll functionEntry functionEntry_shorter s found := by
  intro s e hs
  dsimp only at hs ⊢
  fun_induction readAll functionEntry functionEntry_shorter s found with
  | case1 s found e' herror =>
    cases hs
    have hread := readFunction_of_error herror
    by_cases hnil : s.bytes = []
    · rw [readFunction_of_nil hnil] at hread
      cases hread
      exact Or.inl ⟨_, rfl⟩
    · obtain hend | hall := stable_readFunction.error hread
      · exact Or.inl ⟨_, hend⟩
      · refine Or.inr fun t extra ht => ?_
        have hmore : t.bytes ≠ [] := by
          rw [ht]
          exact List.append_ne_nil_of_left_ne_nil hnil extra
        exact readAll_error (functionEntry_of_error hmore (hall t extra ht)) _
  | case2 => cases hs
  | case3 s found rest hres ih =>
    obtain ⟨tag, htag, -⟩ := functionEntry_follows _ _ hres
    cases htag
  | case4 s found f rest hitem ih =>
    have hread := readFunction_of_item hitem
    rw [← stable_readFunction.stop_eq hread]
    refine (ih hs).imp_right fun hall t extra ht => ?_
    obtain ⟨rest', hread', hbytes, -⟩ := stable_readFunction.ok hread ht
    rw [readAll_item (functionEntry_of_ok hread')]
    exact hall rest' extra hbytes

theorem load_eq_andThen : load = andThen (needNumber .header 2) fun found s₁ =>
    if found = magic then
      andThen (fun s => readAll symbolEntry symbolEntry_shorter s #[]) (fun symbols =>
        andThen (fun s => readAll literalEntry literalEntry_shorter s #[]) fun literals =>
        andThen (readCode .topLevel) fun code s₄ =>
        readAll functionEntry functionEntry_shorter s₄ #[] >>= fun taken =>
        .ok ⟨symbols, literals, code, taken.1⟩) s₁
    else .error (.badMagic found) := by
  funext s
  simp only [load_eq, andThen_eq_bind]

theorem strict_load : Strict load := by
  rw [load_eq_andThen]
  refine .andThen (stable_needNumber _ _) fun found => ?_
  by_cases hmagic : found = magic
  · simp only [if_pos hmagic]
    exact .andThen stable_readSymbols fun symbols => .andThen stable_readLiterals fun literals =>
      .andThen (stable_readCode _) fun code =>
      (strict_readFunctions #[]).bind_ok fun taken => Program.mk symbols literals code taken.1
  · simp only [if_neg hmagic]
    exact .fail _

end Artifact

end StackMachine
