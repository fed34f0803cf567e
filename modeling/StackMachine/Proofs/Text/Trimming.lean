import Mathlib.Data.List.DropRight
import StackMachine.Text.Blank

/-!
# Trimming

What is taken off the end of a list of characters, and what is left of text with white space around
it.
-/

namespace StackMachine.Text

variable {p : Char → Bool} {cs before after dropped : List Char} {c : Char}

/-- Characters that are all taken off the end do not matter. -/
theorem rdropWhile_append_of_pos (cs : List Char) (h : ∀ c ∈ dropped, p c = true) :
    (cs ++ dropped).rdropWhile p = cs.rdropWhile p := by
  unfold List.rdropWhile
  rw [List.reverse_append, List.dropWhile_append_of_pos]
  intro c hc
  exact h c (List.mem_reverse.mp hc)

/-- Nothing is taken off the end if the last character stays. -/
theorem rdropWhile_eq_self (h : ∀ c, cs.getLast? = some c → p c = false) :
    cs.rdropWhile p = cs := by
  rw [List.rdropWhile_eq_self_iff]
  intro hne
  rw [h _ (List.getLast?_eq_some_getLast hne)]
  exact Bool.false_ne_true

theorem rdropWhile_beq_eq_self (h : cs.getLast? ≠ some c) : cs.rdropWhile (· == c) = cs := by
  apply rdropWhile_eq_self
  intro d hd
  exact beq_eq_false_iff_ne.mpr fun hdc => h (hdc ▸ hd)

/-- White space around text that starts and ends with other characters is all that is trimmed. -/
theorem trimBlank_surrounded (hbefore : ∀ c ∈ before, isBlank c = true)
    (hafter : ∀ c ∈ after, isBlank c = true) (hne : cs ≠ [])
    (hhead : ∀ c, cs.head? = some c → isBlank c = false)
    (hlast : ∀ c, cs.getLast? = some c → isBlank c = false) :
    trimBlank (before ++ cs ++ after) = cs := by
  have hstart : (before ++ cs ++ after).dropWhile isBlank = cs ++ after := by
    obtain ⟨c, rest, rfl⟩ := List.exists_cons_of_ne_nil hne
    rw [List.append_assoc, List.dropWhile_append_of_pos hbefore, List.cons_append,
      List.dropWhile_cons_of_neg (by simp [hhead c rfl])]
  calc trimBlank (before ++ cs ++ after)
      = ((before ++ cs ++ after).dropWhile isBlank).rdropWhile isBlank := rfl
    _ = cs.rdropWhile isBlank := by rw [hstart, rdropWhile_append_of_pos cs hafter]
    _ = cs := rdropWhile_eq_self hlast

end StackMachine.Text
