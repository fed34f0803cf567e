import Mathlib.Data.List.Forall2
import StackMachine.Artifact.Decode

/-!
# Reading from bytes at hand

What the readers of an artifact do with a source that holds all of its bytes, when these start
with something they can read.  Nothing is asked of the bytes that follow: how many bytes an entry
takes is known from its own first bytes, so no byte inside an entry is taken for an end mark.
-/

namespace StackMachine

namespace Source

@[simp]
theorem bytes_ofBytes (bytes : List UInt8) : (ofBytes bytes).bytes = bytes := List.append_nil bytes

theorem take_ofBytes {n : Nat} {got : List UInt8} (h : got.length = n) (tail : List UInt8) :
    (ofBytes (got ++ tail)).take n = .ok (got, ofBytes tail) := by
  have htake : (got ++ tail).take n = got := List.take_left' h
  have hdrop : (got ++ tail).drop n = tail := List.drop_left' h
  simp only [ofBytes, take, htake, hdrop, h, if_true]

theorem take_ofBytes_nil {n : Nat} (h : n ≠ 0) : (ofBytes []).take n = .error .ended := by
  simp only [ofBytes, take, List.take_nil, List.length_nil, if_neg (Ne.symm h), Nat.sub_zero,
    if_neg h]

/-- Taking bytes does not change how a source ends. -/
theorem stop_of_take {n : Nat} {s rest : Source} {got : List UInt8}
    (h : s.take n = .ok (got, rest)) : rest.stop = s.stop := by
  induction s generalizing n got rest with
  | ended =>
    simp only [take] at h
    split at h <;> cases h
    rfl
  | broken reason =>
    simp only [take] at h
    split at h <;> cases h
    rfl
  | interrupted next ih =>
    simp only [take] at h
    split at h
    · cases h
      rfl
    · exact ih h
  | data chunk next ih =>
    simp only [take] at h
    split at h
    · cases h
      rfl
    · split at h
      · rename_i hmore
        cases h
        exact ih hmore
      · cases h

/-- Bytes are refused only where there are fewer of them, and for the reason that the source gives
    no more. -/
theorem size_lt_of_take_error {n : Nat} {s : Source} {stop : Stop}
    (h : s.take n = .error stop) : s.size < n ∧ stop = s.stop := by
  induction s generalizing n with
  | ended =>
    simp only [take] at h
    split at h <;> cases h
    exact ⟨Nat.pos_of_ne_zero ‹_›, rfl⟩
  | broken reason =>
    simp only [take] at h
    split at h <;> cases h
    exact ⟨Nat.pos_of_ne_zero ‹_›, rfl⟩
  | interrupted next ih =>
    simp only [take] at h
    split at h
    · cases h
    · exact ih h
  | data chunk next ih =>
    simp only [take] at h
    split at h
    · cases h
    · rename_i hlen
      split at h
      · cases h
      · rename_i stop' hmore
        cases h
        obtain ⟨hsize, hstop⟩ := ih hmore
        simp only [size, bytes, List.length_append, List.length_take] at hsize hlen ⊢
        exact ⟨by omega, hstop⟩

theorem take_of_size_lt {n : Nat} {s : Source} (h : s.size < n) : s.take n = .error s.stop := by
  cases htake : s.take n with
  | ok taken =>
    have := size_of_take htake
    omega
  | error stop => rw [(size_lt_of_take_error htake).2]

end Source

namespace Artifact

open Source

/-! ## Numbers and texts -/

@[simp]
theorem length_littleEndian (count n : Nat) : (littleEndian count n).length = count := by
  induction count generalizing n with
  | zero => rfl
  | succ count ih => rw [littleEndian, List.length_cons, ih]

/-- A number is read back from its bytes if there are enough of them. -/
theorem ofLittleEndian_littleEndian {count n : Nat} (h : n < 256 ^ count) :
    ofLittleEndian (littleEndian count n) = n := by
  induction count generalizing n with
  | zero =>
    rw [Nat.pow_zero, Nat.lt_one_iff] at h
    rw [h]
    rfl
  | succ count ih =>
    have hdiv : n / 256 < 256 ^ count := by
      apply Nat.div_lt_of_lt_mul
      rw [Nat.mul_comm, ← Nat.pow_succ]
      exact h
    rw [littleEndian, ofLittleEndian, ih hdiv, UInt8.toNat_ofNat']
    exact Nat.mod_add_div n 256

variable {part : Part}

theorem need_ofBytes {n : Nat} {got : List UInt8} (h : got.length = n) (tail : List UInt8) :
    need part n (ofBytes (got ++ tail)) = .ok (got, ofBytes tail) := by
  rw [need, take_ofBytes h]

theorem needNumber_littleEndian {count n : Nat} (h : n < 256 ^ count) (tail : List UInt8) :
    needNumber part count (ofBytes (littleEndian count n ++ tail)) = .ok (n, ofBytes tail) := by
  rw [needNumber, need_ofBytes (length_littleEndian count n)]
  dsimp only
  rw [ofLittleEndian_littleEndian h]

theorem needNumber_byte (b : UInt8) (tail : List UInt8) :
    needNumber part 1 (ofBytes (b :: tail)) = .ok (b.toNat, ofBytes tail) := by
  rw [needNumber, ← List.singleton_append, need_ofBytes (List.length_singleton)]
  rfl

theorem needText_utf8 (text : String) (tail : List UInt8) :
    needText part (Text.utf8 text).length (ofBytes (Text.utf8 text ++ tail)) =
      .ok (text, ofBytes tail) := by
  rw [needText, need_ofBytes rfl]
  dsimp only
  rw [Text.ofUtf8?_utf8]

/-- Parameters are read back from their bytes. -/
theorem pairs_flatMap (params : List UInt16) :
    pairs (params.flatMap fun p => littleEndian 2 p.toNat) = params := by
  induction params with
  | nil => rfl
  | cons p params ih =>
    have hlt : p.toNat < 256 ^ 2 := p.toNat_lt
    have hp : UInt16.ofNat (ofLittleEndian (littleEndian 2 p.toNat)) = p := by
      rw [ofLittleEndian_littleEndian hlt, UInt16.ofNat_toNat]
    rw [List.flatMap_cons]
    conv => rhs; rw [← hp, ← ih]
    rfl

theorem length_flatMap_littleEndian (params : List UInt16) :
    (params.flatMap fun p => littleEndian 2 p.toNat).length = 2 * params.length := by
  induction params with
  | nil => rfl
  | cons p params ih =>
    rw [List.flatMap_cons, List.length_append, length_littleEndian, ih, List.length_cons]
    omega

/-! ## Entries -/

section Entries

variable {α : Type} {entry : Source → Except LoadError (Entry α)}
  {hentry : ∀ s e, entry s = .ok e → e.Shorter s}

/-- Where the bytes stand at the front, the entry is read from them and from nothing else. -/
def Reads (entry : Source → Except LoadError (Entry α)) (bytes : List UInt8) (a : α) : Prop :=
  ∀ tail, entry (ofBytes (bytes ++ tail)) = .ok (.item a (ofBytes tail))

theorem readAll_item {s rest : Source} {a : α} (h : entry s = .ok (.item a rest))
    (found : Array α) :
    readAll entry hentry s found = readAll entry hentry rest (found.push a) := by
  rw [readAll]
  split
  all_goals rename_i heq; rw [h] at heq; cases heq
  rfl

theorem readAll_finished {s rest : Source} (h : entry s = .ok (.finished rest))
    (found : Array α) : readAll entry hentry s found = .ok (found, rest) := by
  rw [readAll]
  split
  all_goals rename_i heq; rw [h] at heq; cases heq
  rfl

/-- Entries that stand one after the other are read one after the other. -/
theorem readAll_flatten {parts : List (List UInt8)} {items : List α}
    (h : List.Forall₂ (Reads entry) parts items) (tail : List UInt8) (found : Array α) :
    readAll entry hentry (ofBytes (parts.flatten ++ tail)) found =
      readAll entry hentry (ofBytes tail) (found ++ items.toArray) := by
  induction h generalizing found with
  | nil => simp
  | @cons bytes a parts items hhead htail ih =>
    rw [List.flatten_cons, List.append_assoc, readAll_item (hhead _), ih]
    simp

end Entries

theorem symbolEntry_endMark (tail : List UInt8) :
    symbolEntry (ofBytes (endMark :: tail)) = .ok (.finished (ofBytes tail)) := by
  rw [symbolEntry, needNumber_byte]
  exact if_pos rfl

theorem literalEntry_endMark (tail : List UInt8) :
    literalEntry (ofBytes (endMark :: tail)) = .ok (.finished (ofBytes tail)) := by
  rw [literalEntry, needNumber_byte]
  exact if_pos rfl

theorem instructionEntry_endMark (tail : List UInt8) :
    instructionEntry part (ofBytes (endMark :: tail)) = .ok (.finished (ofBytes tail)) := by
  rw [instructionEntry, needNumber_byte]
  exact if_pos rfl

theorem functionEntry_nil : functionEntry (ofBytes []) = .ok (.finished (ofBytes [])) := by
  rw [functionEntry, take_ofBytes_nil Nat.one_ne_zero]

/-- A program is read section by section. -/
theorem load_of_sections {s s₁ s₂ s₃ s₄ s₅ : Source} {p : Program}
    (hheader : needNumber .header 2 s = .ok (magic, s₁))
    (hsymbols : readAll symbolEntry symbolEntry_shorter s₁ #[] = .ok (p.symbols, s₂))
    (hliterals : readAll literalEntry literalEntry_shorter s₂ #[] = .ok (p.literals, s₃))
    (hcode : readCode .topLevel s₃ = .ok (p.code, s₄))
    (hfunctions : readAll functionEntry functionEntry_shorter s₄ #[] = .ok (p.functions, s₅)) :
    load s = .ok p := by
  unfold load
  rw [hheader]
  simp only [bind, Except.bind, ne_eq, not_true_eq_false, if_false, hsymbols, hliterals, hcode,
    hfunctions]
  rfl

end Artifact

end StackMachine
