import StackMachine.Library.Call
import StackMachine.Proofs.Store.Cells

/-!
# Splitting text

A text that is split at a separator is cut at the leftmost places where the separator stands, and
the next search starts after it.  `Text.Cuts` says this of a list of parts, without the search;
there is exactly one such list (`Text.Cuts.unique`), and `Library.split_leftmost` says that it is
what a program gets.
-/

namespace StackMachine

namespace Text

variable {separator text part : List Char} {parts others : List (List Char)} {i j : Nat}

/-- The separator stands in the text at a position. -/
def StandsAt (separator text : List Char) (i : Nat) : Prop := separator <+: text.drop i

/-- The separator stands in the text at a position, and nowhere in front of it. -/
def FirstStandsAt (separator text : List Char) (i : Nat) : Prop :=
  StandsAt separator text i ∧ ∀ j < i, ¬StandsAt separator text j

/-- The parts of a text cut at a separator: they give the text when joined by the separator, it is
    inside none of them, and it does not stand anywhere before the end of a part that is followed
    by it. -/
structure Cuts (separator text : List Char) (parts : List (List Char)) : Prop where
  joined : separator.intercalate parts = text
  nonempty : parts ≠ []
  free : ∀ part ∈ parts, ¬separator <:+: part
  leftmost : ∀ part ∈ parts.dropLast, FirstStandsAt separator (part ++ separator) part.length

/-! ## Where a separator stands -/

/-- A nonempty separator inside a text stands in front of the text's end. -/
theorem exists_standsAt_of_infix (hne : separator ≠ []) (h : separator <:+: part)
    (after : List Char) : ∃ i < part.length, StandsAt separator (part ++ after) i := by
  obtain ⟨before, behind, rfl⟩ := h
  refine ⟨before.length, ?_, behind ++ after, ?_⟩
  · have := List.length_pos_iff.mpr hne
    simp only [List.length_append]
    omega
  · simp

/-- Where the separator stands in front of a part's end, nothing behind the separator after the
    part matters. -/
theorem standsAt_append_iff (hi : i ≤ part.length) (after : List Char) :
    StandsAt separator (part ++ separator ++ after) i ↔
      StandsAt separator (part ++ separator) i := by
  have hdrop : (part ++ separator ++ after).drop i = (part ++ separator).drop i ++ after := by
    rw [List.drop_append_of_le_length]
    simp only [List.length_append]
    omega
  have hlength : separator.length ≤ ((part ++ separator).drop i).length := by
    simp only [List.length_drop, List.length_append]
    omega
  unfold StandsAt
  rw [hdrop]
  constructor
  · intro h
    exact List.prefix_of_prefix_length_le h (List.prefix_append _ _) hlength
  · intro h
    exact h.trans (List.prefix_append _ _)

theorem FirstStandsAt.append (h : FirstStandsAt separator (part ++ separator) part.length)
    (after : List Char) : FirstStandsAt separator (part ++ separator ++ after) part.length := by
  refine ⟨(standsAt_append_iff (Nat.le_refl _) after).mpr h.1, ?_⟩
  intro j hj hstands
  exact h.2 j hj ((standsAt_append_iff (Nat.le_of_lt hj) after).mp hstands)

theorem FirstStandsAt.unique (hi : FirstStandsAt separator text i)
    (hj : FirstStandsAt separator text j) : i = j := by
  rcases Nat.lt_trichotomy i j with hlt | heq | hlt
  · exact absurd hi.1 (hj.2 i hlt)
  · exact heq
  · exact absurd hj.1 (hi.2 j hlt)

/-! ## The parts -/

namespace Cuts

/-- The part up to the first separator, and what the text after it is cut into. -/
theorem cons {tail : List Char} (hfree : ¬separator <:+: part)
    (hfirst : FirstStandsAt separator (part ++ separator) part.length)
    (h : Cuts separator tail parts) :
    Cuts separator (part ++ separator ++ tail) (part :: parts) where
  joined := by rw [List.intercalate_cons_of_ne_nil h.nonempty, h.joined]
  nonempty := List.cons_ne_nil _ _
  free := by
    intro other hother
    rcases List.mem_cons.mp hother with rfl | hother
    · exact hfree
    · exact h.free other hother
  leftmost := by
    intro other hother
    rw [List.dropLast_cons_of_ne_nil h.nonempty] at hother
    rcases List.mem_cons.mp hother with rfl | hother
    · exact hfirst
    · exact h.leftmost other hother

/-- A list of two or more parts, without the first one. -/
theorem tail (h : Cuts separator text (part :: parts)) (hne : parts ≠ []) :
    Cuts separator (separator.intercalate parts) parts where
  joined := rfl
  nonempty := hne
  free other hother := h.free other (List.mem_cons_of_mem _ hother)
  leftmost other hother := by
    apply h.leftmost other
    rw [List.dropLast_cons_of_ne_nil hne]
    exact List.mem_cons_of_mem _ hother

/-- The separator first stands in the text after the first of two or more parts. -/
theorem firstStandsAt (h : Cuts separator text (part :: parts)) (hne : parts ≠ []) :
    FirstStandsAt separator text part.length := by
  have hfirst : FirstStandsAt separator (part ++ separator) part.length := by
    apply h.leftmost
    rw [List.dropLast_cons_of_ne_nil hne]
    exact List.mem_cons_self
  rw [← h.joined, List.intercalate_cons_of_ne_nil hne]
  exact hfirst.append _

/-- A text without the separator inside is its own only part. -/
theorem eq_nil_of_free (h : Cuts separator text (part :: parts)) (hfree : ¬separator <:+: text) :
    parts = [] := by
  apply Classical.byContradiction
  intro hne
  obtain ⟨behind, hbehind⟩ := (h.firstStandsAt hne).1
  apply hfree
  refine ⟨text.take part.length, behind, ?_⟩
  rw [List.append_assoc, hbehind, List.take_append_drop]

/-- A text is cut in one way only. -/
theorem unique (h : Cuts separator text parts) (hothers : Cuts separator text others) :
    parts = others := by
  induction parts generalizing text others with
  | nil => exact absurd rfl h.nonempty
  | cons part parts ih =>
    obtain ⟨other, others, rfl⟩ := List.exists_cons_of_ne_nil hothers.nonempty
    by_cases hne : parts = []
    · -- The text is a single part, so it has no separator inside.
      subst hne
      have htext : part = text := by simpa using h.joined
      have hfree : ¬separator <:+: text := htext ▸ h.free part List.mem_cons_self
      obtain rfl := hothers.eq_nil_of_free hfree
      have hother : other = text := by simpa using hothers.joined
      rw [htext, hother]
    · have hne' : others ≠ [] := by
        rintro rfl
        have hother : other = text := by simpa using hothers.joined
        exact hne (h.eq_nil_of_free (hother ▸ hothers.free other List.mem_cons_self))
      have hlength := (h.firstStandsAt hne).unique (hothers.firstStandsAt hne')
      have hjoined : part ++ (separator ++ separator.intercalate parts) =
          other ++ (separator ++ separator.intercalate others) := by
        rw [← List.append_assoc, ← List.intercalate_cons_of_ne_nil hne, h.joined,
          ← List.append_assoc, ← List.intercalate_cons_of_ne_nil hne', hothers.joined]
      obtain ⟨rfl, hrest⟩ := List.append_inj hjoined hlength
      have htail := List.append_cancel_left hrest
      rw [ih (h.tail hne) (htail ▸ hothers.tail hne')]

end Cuts

/-! ## The search -/

/-- The search cuts what it has passed since the last separator and the rest of the text, as long
    as the separator stands nowhere in what it has passed. -/
theorem cuts_splitFrom (hne : separator ≠ []) (since cs : List Char)
    (hpassed : ∀ j < since.length, ¬StandsAt separator (since.reverse ++ cs) j) :
    Cuts separator (since.reverse ++ cs) (splitFrom separator since cs) := by
  fun_induction splitFrom separator since cs with
  | case1 since =>
    refine ⟨by simp, by simp, ?_, by simp⟩
    intro part hpart hinside
    rw [List.mem_singleton.mp hpart] at hinside
    obtain ⟨i, hi, hstands⟩ := exists_standsAt_of_infix hne hinside []
    exact hpassed i (by simpa using hi) hstands
  | case2 since c rest hstands ih =>
    obtain ⟨after, hafter⟩ := List.isPrefixOf_iff_prefix.mp hstands.2
    have hdrop : (c :: rest).drop separator.length = after := by rw [← hafter, List.drop_left]
    rw [← hafter, ← List.append_assoc] at hpassed ⊢
    rw [hafter, hdrop]
    rw [hdrop] at ih
    have hlength : since.reverse.length = since.length := List.length_reverse
    have hnone : ∀ j < since.reverse.length,
        ¬StandsAt separator (since.reverse ++ separator) j := by
      intro j hj h
      rw [hlength] at hj
      exact hpassed j hj ((standsAt_append_iff (by omega) after).mpr h)
    refine Cuts.cons ?_ ⟨?_, hnone⟩ (ih (by simp))
    · intro hinside
      obtain ⟨i, hi, h⟩ := exists_standsAt_of_infix hne hinside separator
      exact hnone i hi h
    · simp [StandsAt]
  | case3 since c rest hstands ih =>
    have hshift : (c :: since).reverse ++ rest = since.reverse ++ c :: rest := by simp
    rw [hshift] at ih
    apply ih
    intro j hj h
    by_cases hlast : j < since.length
    · exact hpassed j hlast h
    · -- The position just passed is the one that the search has looked at.
      have hj : j = since.reverse.length := by
        rw [List.length_cons] at hj
        rw [List.length_reverse]
        omega
      subst hj
      rw [StandsAt, List.drop_left] at h
      exact hstands ⟨hne, List.isPrefixOf_iff_prefix.mpr h⟩

theorem cuts_split (hne : separator ≠ []) (text : List Char) :
    Cuts separator text (split text separator) := by
  rw [split, if_neg hne]
  exact cuts_splitFrom hne [] text (by simp)

/-- The parts are the text again when they are joined by the separator. -/
theorem intercalate_split (text separator : List Char) :
    separator.intercalate (split text separator) = text := by
  by_cases hne : separator = []
  · subst hne
    rw [split, if_pos rfl]
    induction text with
    | nil => rfl
    | cons c text ih =>
      cases text with
      | nil => rfl
      | cons d text =>
        rw [List.map_cons, List.intercalate_cons_of_ne_nil (by simp), ih]
        rfl
  · exact (cuts_split hne text).joined

end Text

namespace Library

/-- The parts, as texts, are the items of a fresh array. -/
theorem split_eq_ok (st : Store) (text separator : String) :
    callBuiltin (.text text) [.text separator] .split st = .ok (.array st.arrays.size)
      (st.newArray ((Text.split text.toList separator.toList).map fun part =>
        Value.text (String.ofList part)).toArray).2 := rfl

/-- A split gives a fresh array of texts, which are the text again when they are joined by the
    separator.  An empty separator gives the single characters; any other one gives the parts that
    the text is cut into, and there is only one way to cut it. -/
theorem split_leftmost (st : Store) (text separator : String) :
    ∃ r st' parts, callBuiltin (.text text) [.text separator] .split st = .ok (.array r) st' ∧
      (st'.items r).toList = parts.map Value.text ∧
      separator.intercalate parts = text ∧
      (separator = "" → parts = text.toList.map String.singleton) ∧
      (separator ≠ "" → ∀ others : List String,
        Text.Cuts separator.toList text.toList (others.map String.toList) ↔ others = parts) := by
  let parts := (Text.split text.toList separator.toList).map String.ofList
  have htoList : parts.map String.toList = Text.split text.toList separator.toList := by
    simp [parts, Function.comp_def]
  refine ⟨_, _, parts, split_eq_ok st text separator, ?_, ?_, ?_, ?_⟩
  · rw [Store.items_newArray_self]
    simp [parts, Function.comp_def]
  · apply String.toList_inj.mp
    rw [String.toList_intercalate, htoList, Text.intercalate_split]
  · rintro rfl
    simp [parts, Text.split, Function.comp_def]
  · intro hne others
    have hseparator : separator.toList ≠ [] := by simpa using hne
    have hcuts := Text.cuts_split hseparator text.toList
    constructor
    · intro h
      have heq : others.map String.toList = parts.map String.toList :=
        (h.unique hcuts).trans htoList.symm
      exact (List.map_inj_right fun _ _ => String.toList_inj.mp).mp heq
    · rintro rfl
      exact htoList ▸ hcuts

/-- The separator overlaps itself in the text, and what is left over of it belongs to the last
    part. -/
theorem split_leftmost_overlapping : ∃ r st',
    callBuiltin (.text "aaaba") [.text "aa"] .split default = .ok (.array r) st' ∧
      (st'.items r).toList = [.text "", .text "aba"] := by
  obtain ⟨r, st', parts, hcall, hitems, -, -, hcuts⟩ := split_leftmost default "aaaba" "aa"
  have hparts : ["", "aba"] = parts := by
    refine (hcuts (by decide) ["", "aba"]).mp ⟨rfl, by simp, ?_, ?_⟩
    · decide
    · simp [Text.FirstStandsAt, Text.StandsAt]
  exact ⟨r, st', hcall, by rw [hitems, ← hparts]; rfl⟩

end Library

end StackMachine
