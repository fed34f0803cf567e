import StackMachine.Proofs.Artifact.Stability

/-!
# Artifacts that are cut off

The front part of an artifact is read as a program only where a function may end the artifact;
everywhere else the error says that bytes are missing and names the section in which they are
(`decode_append`).  Bytes that are refused for another reason are refused whatever follows them.
-/

namespace StackMachine.Artifact

open Source

variable {α : Type} {part : Part} {read : Reader α} {a : α}

/-! ## Readers at a cut -/

/-- The value is read from just these bytes, whatever follows them. -/
def Delivers (read : Reader α) (bytes : List UInt8) (a : α) : Prop :=
  ∀ t tail, t.bytes = bytes ++ tail →
    ∃ rest, read t = .ok (a, rest) ∧ rest.bytes = tail ∧ rest.stop = t.stop

namespace Stable

theorem delivers (h : Stable part read) {bytes : List UInt8}
    (hread : read (ofBytes bytes) = .ok (a, ofBytes [])) : Delivers read bytes a := by
  intro t tail ht
  have hbytes : t.bytes = (ofBytes bytes).bytes ++ tail := by rw [bytes_ofBytes, ht]
  simpa using h.ok hread hbytes

/-- A reader that gets only the front part of its bytes runs out of them. -/
theorem error_of_cut (h : Stable part read) {front back : List UInt8}
    (hread : Delivers read (front ++ back) a) (hback : back ≠ []) {t : Source}
    (ht : t.bytes = front) : read t = .error (t.stop.error part) := by
  obtain ⟨whole, hwhole, hnone, -⟩ := hread (ofBytes (front ++ back)) [] (by simp)
  have hmore : (ofBytes (front ++ back)).bytes = t.bytes ++ back := by rw [bytes_ofBytes, ht]
  cases hs : read t with
  | ok taken =>
    obtain ⟨b, rest⟩ := taken
    obtain ⟨rest', hrest', hbytes, -⟩ := h.ok hs hmore
    rw [hwhole] at hrest'
    cases hrest'
    rw [hnone] at hbytes
    exact absurd (List.append_eq_nil_iff.mp hbytes.symm).2 hback
  | error e =>
    obtain hend | hall := h.error hs
    · rw [hend]
    · have := hall _ back hmore
      rw [hwhole] at this
      cases this

/-- The bytes of a section are cut, or the cut is further on. -/
theorem read_take (h : Stable part read) {bytes later : List UInt8} (hread : Delivers read bytes a)
    {t : Source} {n : Nat} (ht : t.bytes = (bytes ++ later).take n) :
    (n < bytes.length → read t = .error (t.stop.error part)) ∧
      (bytes.length ≤ n → t.bytes = bytes ++ later.take (n - bytes.length) ∧
        ∃ rest, read t = .ok (a, rest) ∧ rest.bytes = later.take (n - bytes.length) ∧
          rest.stop = t.stop) := by
  rw [List.take_append] at ht
  constructor
  · intro hlt
    have hfront : t.bytes = bytes.take n := by
      rw [ht, Nat.sub_eq_zero_of_le (Nat.le_of_lt hlt), List.take_zero, List.append_nil]
    have hback : bytes.drop n ≠ [] := by
      intro hnil
      have := List.drop_eq_nil_iff.mp hnil
      omega
    have hwhole : Delivers read (bytes.take n ++ bytes.drop n) a := by rwa [List.take_append_drop]
    exact h.error_of_cut hwhole hback hfront
  · intro hle
    rw [List.take_of_length_le hle] at ht
    exact ⟨ht, hread t _ ht⟩

end Stable

/-! ## Sections at a cut -/

/-- The section in which a cut at `n` lies: the first that is not whole. -/
def firstCut : List (Part × List UInt8) → (n : Nat) → Part
  | [], _ => .functions
  | (part, bytes) :: later, n =>
    if n < bytes.length then part else firstCut later (n - bytes.length)

/-- A section that is read before others is cut, or one of the others is. -/
theorem andThen_take {β : Type} (h : Stable part read) {bytes later : List UInt8}
    (hread : Delivers read bytes a) {next : α → Source → Except LoadError β}
    {sections : List (Part × List UInt8)} {t : Source} {n : Nat}
    (ht : t.bytes = (bytes ++ later).take n) (hstop : t.stop = .ended)
    (hnext : ∀ rest, t.bytes = bytes ++ rest.bytes →
      rest.bytes = later.take (n - bytes.length) → rest.stop = .ended →
      next a rest = .error (.unexpectedEnd (firstCut sections (n - bytes.length)))) :
    andThen read next t = .error (.unexpectedEnd (firstCut ((part, bytes) :: sections) n)) := by
  obtain ⟨hinside, hbehind⟩ := h.read_take hread ht
  rw [firstCut]
  split
  · rename_i hn
    rw [andThen_error (hinside hn), hstop]
    rfl
  · rename_i hn
    obtain ⟨hbytes, rest, hrest, hlater, hstop'⟩ := hbehind (Nat.le_of_not_lt hn)
    rw [andThen_ok hrest]
    exact hnext rest (by rw [hbytes, hlater]) hlater (hstop'.trans hstop)

theorem delivers_function {f : FunctionDef} {bytes : List UInt8}
    (h : encodeFunction f = .ok bytes) : Delivers readFunction bytes f.normal := by
  apply stable_readFunction.delivers
  apply readFunction_of_item
  have := reads_function h []
  rwa [List.append_nil] at this

/-- Functions that are cut off inside one of them. -/
theorem readFunctions_cut {entries : List (List UInt8)}
    (hentries : ∀ bytes ∈ entries, ∃ f, Delivers readFunction bytes f) {t : Source} {n : Nat}
    {found : Array FunctionDef} (ht : t.bytes = entries.flatten.take n) (hstop : t.stop = .ended)
    (hcut : ∀ k, t.bytes ≠ (entries.take k).flatten) :
    readAll functionEntry functionEntry_shorter t found = .error (.unexpectedEnd .functions) := by
  induction entries generalizing t n found with
  | nil =>
    rw [List.flatten_nil, List.take_nil] at ht
    exact absurd ht (hcut 0)
  | cons bytes entries ih =>
    obtain ⟨f, hf⟩ := hentries bytes List.mem_cons_self
    obtain ⟨hinside, hbehind⟩ := stable_readFunction.read_take hf ht
    by_cases hn : n < bytes.length
    · have hread := hinside hn
      rw [hstop] at hread
      exact readAll_error (functionEntry_of_error (hcut 0) hread) found
    · obtain ⟨hbytes, rest, hread, hrest, hstop'⟩ := hbehind (Nat.le_of_not_lt hn)
      rw [readAll_item (functionEntry_of_ok hread)]
      apply ih (fun b hb => hentries b (List.mem_cons_of_mem _ hb)) hrest (hstop'.trans hstop)
      intro k hk
      apply hcut (k + 1)
      rw [hbytes, ← hrest, hk, List.take_succ_cons, List.flatten_cons]

/-- The layout up to its first `k` functions. -/
def Layout.cut (l : Layout) (k : Nat) : Layout := { l with functions := l.functions.take k }

theorem exists_of_mapM {encodeEntry : α → Except EncodeError (List UInt8)} {xs : List α}
    {entries : List (List UInt8)} (h : xs.mapM encodeEntry = .ok entries) {bytes : List UInt8}
    (hbytes : bytes ∈ entries) : ∃ x ∈ xs, encodeEntry x = .ok bytes := by
  have hpairs := mapM_eq_ok h
  clear h
  induction hpairs with
  | nil => cases hbytes
  | @cons x bytes' xs entries hx _ ih =>
    rcases List.mem_cons.mp hbytes with rfl | hmem
    · exact ⟨x, List.mem_cons_self, hx⟩
    · obtain ⟨y, hy, henc⟩ := ih hmem
      exact ⟨y, List.mem_cons_of_mem x hy, henc⟩

theorem Layout.holds_cut {l : Layout} {p : Program} (h : l.Holds p) (k : Nat) :
    (l.cut k).Holds { p with functions := p.functions.take k } := by
  obtain ⟨c, hc, hpads⟩ := h
  obtain ⟨hsymbols, hliterals, hcode, hfunctions⟩ := layout_eq_ok_iff.mp hc
  refine ⟨c.cut k, layout_eq_ok_iff.mpr ⟨hsymbols, hliterals, hcode, ?_⟩,
    ⟨hpads.symbols, hpads.literals, hpads.code, ?_⟩⟩
  · have hlist : (p.functions.take k).toList = p.functions.toList.take k := by simp
    dsimp only
    rw [hlist]
    exact mapM_of_forall₂ (List.forall₂_take k (mapM_eq_ok hfunctions))
  · exact congrArg (List.take k) hpads.functions

/-- The program up to its first `k` functions is read from the layout up to these. -/
theorem decode_cut {l : Layout} {p : Program} (hl : l.Holds p)
    (hloose : ∀ i ∈ p.instructions, NoLooseOperand i) (k : Nat) :
    decode (l.cut k).bytes = .ok { p with functions := p.functions.take k } := by
  refine decode_eq_ok_iff_holds.mpr ⟨fun i hi => hloose i ?_, l.cut k, Layout.holds_cut hl k, rfl⟩
  simp only [Program.instructions, List.mem_append, List.mem_flatMap] at hi ⊢
  refine hi.imp_right fun ⟨f, hf, hi⟩ => ⟨f, ?_, hi⟩
  have hlist : (p.functions.take k).toList = p.functions.toList.take k := by simp
  rw [hlist] at hf
  exact List.mem_of_mem_take hf

/-- A layout that is cut off elsewhere lacks bytes of the section in which it is cut. -/
theorem load_cut {l : Layout} {p : Program} (hl : l.Holds p) {t : Source} {n : Nat}
    (ht : t.bytes = l.bytes.take n) (hstop : t.stop = .ended)
    (hcut : ∀ k, t.bytes ≠ (l.cut k).bytes) :
    load t = .error (.unexpectedEnd (firstCut l.sections n)) := by
  obtain ⟨c, hc, hpads⟩ := hl
  obtain ⟨hsymbols, hliterals, hcode, hfunctions⟩ := layout_eq_ok_iff.mp hc
  have hmagic := (stable_needNumber .header 2).delivers
    (needNumber_littleEndian (by decide : magic < 256 ^ 2) [])
  have hread₁ := stable_readSymbols.delivers (by simpa using readSymbols_closed hsymbols [])
  have hread₂ := stable_readLiterals.delivers
    (by simpa using readLiterals_closed hliterals hpads.literals [])
  have hread₃ := (stable_readCode .topLevel).delivers (by simpa using readCode_closed hcode [])
  rw [← hpads.symbols] at hread₁
  rw [← hpads.code] at hread₃
  rw [Layout.bytes_eq] at ht
  rw [load_eq_andThen]
  refine andThen_take (stable_needNumber _ _) hmagic ht hstop fun s₁ ht₁ hs₁ hstop₁ => ?_
  rw [if_pos rfl]
  refine andThen_take stable_readSymbols hread₁ hs₁ hstop₁ fun s₂ ht₂ hs₂ hstop₂ => ?_
  refine andThen_take stable_readLiterals hread₂ hs₂ hstop₂ fun s₃ ht₃ hs₃ hstop₃ => ?_
  refine andThen_take (stable_readCode _) hread₃ hs₃ hstop₃ fun s₄ ht₄ hs₄ hstop₄ => ?_
  have hentries : ∀ bytes ∈ l.functions, ∃ f, Delivers readFunction bytes f := by
    intro bytes hbytes
    rw [hpads.functions] at hbytes
    obtain ⟨f, -, hf⟩ := exists_of_mapM hfunctions hbytes
    exact ⟨f.normal, delivers_function hf⟩
  have hfail : readAll functionEntry functionEntry_shorter s₄ #[] =
      .error (.unexpectedEnd .functions) := by
    refine readFunctions_cut hentries hs₄ hstop₄ fun k hk => hcut k ?_
    rw [ht₁, ht₂, ht₃, ht₄, hk, Layout.bytes_eq]
    rfl
  rw [hfail]
  rfl

theorem decode_append_of_error {front : List UInt8} {e : LoadError} (h : decode front = .error e)
    (he : ∀ part, e ≠ .unexpectedEnd part) (back : List UInt8) :
    decode (front ++ back) = .error e := by
  obtain ⟨part, hend⟩ | hall := strict_load _ _ h
  · exact absurd hend (he part)
  · exact hall _ back (by rw [bytes_ofBytes, bytes_ofBytes])

theorem decode_of_cut {l : Layout} {p : Program} (hl : l.Holds p) {front back : List UInt8}
    (hbytes : l.bytes = front ++ back)
    (hcut : ∀ k ≤ l.functions.length, front ≠ (l.cut k).bytes) :
    decode front = .error (.unexpectedEnd (firstCut l.sections front.length)) := by
  apply load_cut hl
  · rw [bytes_ofBytes, hbytes, List.take_left]
  · rfl
  · intro k hk
    rw [bytes_ofBytes] at hk
    apply hcut (min k l.functions.length) (Nat.min_le_right _ _)
    rw [hk, Layout.cut, Layout.cut, ← List.take_eq_take_min]

/-- Bytes that are refused for another reason than missing bytes are refused for that reason
    whatever follows.  The front part of an artifact is itself one exactly if it goes up to the end
    of the top-level code or of some function, and then it holds the program with the functions up
    to there; every other front part is refused for missing bytes, in the first section that it
    does not hold as a whole. -/
theorem decode_append :
    (∀ front back e, decode front = .error e → (∀ part, e ≠ .unexpectedEnd part) →
      decode (front ++ back) = .error e) ∧
    ∀ front back p, decode (front ++ back) = .ok p →
      (∃ l : Layout, l.Holds p ∧ l.bytes = front ++ back) ∧
      ∀ l : Layout, l.Holds p → l.bytes = front ++ back →
        ((∃ q, decode front = .ok q) ↔ ∃ k ≤ l.functions.length, front = (l.cut k).bytes) ∧
        (∀ k ≤ l.functions.length, front = (l.cut k).bytes →
          decode front = .ok { p with functions := p.functions.take k }) ∧
        ((∀ k ≤ l.functions.length, front ≠ (l.cut k).bytes) →
          decode front = .error (.unexpectedEnd (firstCut l.sections front.length))) ∧
        ∀ e, decode front = .error e → ∃ part, e = .unexpectedEnd part := by
  refine ⟨fun front back e h he => decode_append_of_error h he back, fun front back p h => ?_⟩
  obtain ⟨hloose, l₀, hl₀, hbytes₀⟩ := decode_eq_ok_iff_holds.mp h
  refine ⟨⟨l₀, hl₀, hbytes₀.symm⟩, fun l hl hbytes => ?_⟩
  have hwhole : ∀ k, front = (l.cut k).bytes →
      decode front = .ok { p with functions := p.functions.take k } := by
    intro k hk
    rw [hk]
    exact decode_cut hl hloose k
  refine ⟨⟨?_, ?_⟩, fun k _ hk => hwhole k hk, decode_of_cut hl hbytes, ?_⟩
  · rintro ⟨q, hq⟩
    by_contra hnone
    push Not at hnone
    rw [decode_of_cut hl hbytes hnone] at hq
    cases hq
  · rintro ⟨k, -, hk⟩
    exact ⟨_, hwhole k hk⟩
  · intro e he
    by_contra hother
    push Not at hother
    rw [decode_append_of_error he hother back] at h
    cases h

/-- A cut inside a character of a symbol leaves a symbols section without its end, not a symbol
    that is no UTF-8; and a wrong start stays wrong. -/
theorem decode_append_character :
    let front := [0x01, 0x17, 2, 0xC3]
    let back := [0xA9, 0xFF, 0xFF, 0xFF, 0, 0x0D, 0xFF]
    decode (front ++ back) = .ok ⟨#["é"], #[], #[], #[⟨#[], #[⟨.ret, 0⟩]⟩]⟩ ∧
      decode front = .error (.unexpectedEnd .symbols) ∧
      decode ([0x02, 0x17] ++ back) = .error (.badMagic 0x1702) := by
  intro front back
  let p : Program := ⟨#["é"], #[], #[], #[⟨#[], #[⟨.ret, 0⟩]⟩]⟩
  let l : Layout := ⟨[[2, 0xC3, 0xA9]], [], [], [[0, 0x0D, 0xFF]]⟩
  have hl : l.Holds p := ⟨l, by rfl, rfl, .nil, rfl, rfl⟩
  have hdecode : decode (front ++ back) = .ok p :=
    decode_eq_ok_iff_holds.mpr ⟨by decide, l, hl, rfl⟩
  have hbad : decode [0x02, 0x17] = .error (.badMagic 0x1702) := rfl
  refine ⟨hdecode, ((decode_append.2 front back p hdecode).2 l hl rfl).2.2.1 ?_,
    decode_append.1 _ back _ hbad ?_⟩
  · decide
  · intro part h
    cases h

end StackMachine.Artifact
