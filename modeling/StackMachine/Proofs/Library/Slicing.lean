import StackMachine.Library.Call
import StackMachine.Proofs.Binary64.Positions
import StackMachine.Proofs.Library.Splitting

/-!
# Slices of text

Positions in a text count its characters, and any number can be given for one.  `Text.cut` reads a
number as so many places (`Binary64.extent`), and no number is out of its range; a single character
is there exactly for the numbers that are not `Text.Outside`.  `Library.slices_of_text` says how the
methods of texts fit together.
-/

namespace StackMachine

namespace Text

variable {cs : List Char} {length : Nat} {x start count : Binary64}

/-- A number is no position of a text: it is a NaN, or not larger than minus one, or truncates to
    the length or more. -/
inductive Outside (length : Nat) (x : Binary64) : Prop
  | nan (h : x.isNaN = true)
  | negativeInfinity (h : x = .infinity true)
  | negative {q : ℚ} (h : x.rational? = some q) (hq : q ≤ -1)
  | behind (h : length ≤ x.extent)

/-! ## Positions -/

theorem position?_of_ne (h : x.datum ≠ .infinite false) : position? length x = x.index? := by
  unfold position?
  split
  · rename_i hx
    exact absurd hx h
  · rfl

theorem position?_of_rational?_ne_none (h : x.rational? ≠ none) :
    position? length x = x.index? := by
  apply position?_of_ne
  intro hx
  exact h (by rw [Binary64.rational?, hx])

/-- A number is read as its extent, or as the length of the text where there is no end to it. -/
theorem getD_position? (length : Nat) (x : Binary64) :
    x.extent = ((position? length x).getD 0 : ℕ) ∨
      x.extent = ⊤ ∧ position? length x = some length := by
  cases hx : x.rational? with
  | some q =>
    left
    rw [position?_of_rational?_ne_none (by simp [hx]), Binary64.extent_of_rational? hx,
      Binary64.getD_index?_of_rational? hx]
  | none =>
    have hindex : x.index? = none := by
      rw [Binary64.index?, Binary64.truncate?_eq, hx]
      rfl
    have hdatum := Binary64.datum_of_rational?_eq_none hx
    unfold Binary64.extent position? Binary64.isNaN
    rw [hx, hdatum, hindex]
    by_cases hpattern : x.pattern = Binary64.infinityPattern
    · cases x.signBit <;> simp [hpattern]
    · simp [hpattern]

theorem getD_position?_of_extent {n : ℕ} (h : x.extent = n) :
    (position? length x).getD 0 = n := by
  rcases getD_position? length x with hx | ⟨hx, -⟩
  · rw [h] at hx
    exact_mod_cast hx.symm
  · rw [h] at hx
    cases hx

/-! ## Parts of a text -/

theorem length_cut (cs : List Char) (start count : Binary64) :
    ((cut cs start count).length : ℕ∞) = min count.extent (cs.length - start.extent) := by
  rw [cut, List.length_take, List.length_drop]
  rcases getD_position? cs.length start with hstart | ⟨hstart, hfirst⟩ <;>
    rcases getD_position? cs.length count with hcount | ⟨hcount, hsize⟩
  · rw [hstart, hcount, Nat.mono_cast.map_min, ENat.natCast_sub]
  · rw [hstart, hcount, hsize, Option.getD_some, Nat.min_eq_right (Nat.sub_le _ _), top_inf_eq,
      ENat.natCast_sub]
  · rw [hstart, hcount, hfirst, Option.getD_some, Nat.sub_self, Nat.min_zero, ENat.sub_top,
      min_zero]
    rfl
  · simp [hstart, hcount, hfirst, hsize]

/-- The part in front of a position and the part from it on are the whole text exactly if they reach
    to its end. -/
theorem cut_append_cut_eq_iff (hstart : start.extent = 0) :
    cut cs start x ++ cut cs x count = cs ↔ cs.length ≤ x.extent + count.extent := by
  have hfirst : (position? cs.length start).getD 0 = 0 := getD_position?_of_extent hstart
  simp only [cut, hfirst, List.drop_zero]
  rw [← List.take_add, List.take_eq_self_iff]
  rcases getD_position? cs.length x with hx | ⟨hx, hsize⟩
  · rcases getD_position? cs.length count with hcount | ⟨hcount, hsize⟩
    · rw [hx, hcount]
      norm_cast
    · simp [hcount, hsize]
  · simp [hx, hsize]

theorem exists_position_of_not_outside (h : ¬Outside length x) :
    ∃ k < length, x.TruncatesTo k ∧ position? length x = some k := by
  cases hx : x.rational? with
  | none =>
    exfalso
    apply h
    have hdatum := Binary64.datum_of_rational?_eq_none hx
    split at hdatum
    · cases hsign : x.signBit with
      | true => exact .negativeInfinity (Binary64.eq_infinity_of_datum (hsign ▸ hdatum))
      | false =>
        apply Outside.behind
        simp [Binary64.extent, hx, Binary64.isNaN, hdatum, hsign]
    · exact .nan (by simp [Binary64.isNaN, hdatum])
  | some q =>
    have hq : -1 < q := by
      by_contra hle
      exact h (.negative hx (not_lt.mp hle))
    have hlt : (Binary64.towardZero q).toNat < length := by
      by_contra hle
      apply h
      apply Outside.behind
      rw [Binary64.extent_of_rational? hx]
      exact_mod_cast not_lt.mp hle
    have hk : x.TruncatesTo (Binary64.towardZero q).toNat :=
      ⟨q, hx, (Int.toNat_of_nonneg (Binary64.towardZero_nonneg_iff.mpr hq)).symm⟩
    refine ⟨_, hlt, hk, ?_⟩
    rw [position?_of_rational?_ne_none (by simp [hx])]
    exact Binary64.index?_eq_some_iff.mpr hk

theorem charAt?_eq_none_of_outside (h : Outside cs.length x) : charAt? cs x = none := by
  have hindex : position? cs.length x = x.index? → x.index? = none → charAt? cs x = none := by
    intro hposition hnone
    rw [charAt?, hposition, hnone]
  cases h with
  | nan h =>
    have hdatum : x.datum = .nan := by simpa [Binary64.isNaN] using h
    exact hindex (position?_of_ne (by simp [hdatum]))
      (by simp [Binary64.index?, Binary64.truncate?, hdatum])
  | negativeInfinity h =>
    subst h
    exact hindex (position?_of_ne (by decide)) rfl
  | negative h hq =>
    exact hindex (position?_of_rational?_ne_none (by simp [h])) (Binary64.index?_eq_none_of_le h hq)
  | behind h =>
    rw [charAt?]
    split
    · rename_i k hk
      apply List.getElem?_eq_none
      rcases getD_position? cs.length x with hx | ⟨-, hx⟩
      · rw [hx, hk] at h
        exact_mod_cast h
      · exact (Option.some_inj.mp (hx.symm.trans hk)).le
    · rfl

/-- The character at a position is the part of one character there. -/
theorem exists_charAt?_of_not_outside (h : ¬Outside cs.length x) :
    ∃ (k : ℕ) (c : Char), x.TruncatesTo k ∧ cs[k]? = some c ∧ charAt? cs x = some c ∧
      cut cs x (.ofNat 1) = [c] := by
  obtain ⟨k, hk, htruncates, hposition⟩ := exists_position_of_not_outside h
  have hc := List.getElem?_eq_getElem hk
  refine ⟨k, cs[k], htruncates, hc, by rw [charAt?, hposition]; exact hc, ?_⟩
  have hone : (position? cs.length (.ofNat 1)).getD 0 = 1 :=
    getD_position?_of_extent (Binary64.extent_ofNat (by decide))
  simp only [cut, hposition, hone, Option.getD_some]
  rw [List.drop_eq_getElem_cons hk]
  rfl

end Text

namespace Library

/-- A method called on a text gives a value, whatever is in the store, and leaves that alone. -/
def Gives (t : String) (b : Builtin) (args : List Value) (v : Value) : Prop :=
  ∀ st, callBuiltin (.text t) args b st = .ok v st

variable {t : String} {v w : Value} {args : List Value} {b : Builtin}

theorem Gives.unique (hv : Gives t b args v) (hw : Gives t b args w) : v = w := by
  have h := (hv default).symm.trans (hw default)
  cases h
  rfl

theorem gives_cut (t : String) (start count : Binary64) :
    Gives t .cut [.number start, .number count]
      (.text (String.ofList (Text.cut t.toList start count))) := fun _ => rfl

theorem gives_textLength (t : String) : Gives t .textLength [] (.number (.ofNat t.length)) := by
  intro st
  rw [← String.length_toList]
  rfl

theorem gives_charAt (t : String) (x : Binary64) :
    Gives t .charAt [.number x]
      (((Text.charAt? t.toList x).map fun c => .text (String.singleton c)).getD .null) := by
  intro st
  change EStateM.Result.ok _ st = _
  cases Text.charAt? t.toList x <;> rfl

theorem gives_charCode (t : String) (x : Binary64) :
    Gives t .charCode [.number x]
      (((Text.charAt? t.toList x).map fun c => .number (.ofNat c.toNat)).getD .null) := by
  intro st
  change EStateM.Result.ok _ st = _
  cases Text.charAt? t.toList x <;> rfl

/-- A method that says something about the character at a position gives null exactly where there is
    none. -/
theorem gives_null_iff {x : Binary64} {about : Char → Value} (habout : ∀ c, about c ≠ .null)
    (h : Gives t b [.number x] (((Text.charAt? t.toList x).map about).getD .null)) :
    Gives t b [.number x] .null ↔ Text.Outside t.length x := by
  rw [← String.length_toList]
  constructor
  · intro hnull
    by_contra hinside
    obtain ⟨k, c, -, -, hc, -⟩ := Text.exists_charAt?_of_not_outside hinside
    rw [hc] at h
    exact habout c (h.unique hnull)
  · intro houtside
    rwa [Text.charAt?_eq_none_of_outside houtside] at h

end Library

end StackMachine
