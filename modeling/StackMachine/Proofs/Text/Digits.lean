import Mathlib.Data.List.DropRight
import StackMachine.Text.Decimal

/-!
# Decimal digits

A list of digits is determined by its length and its value (`Digits.eq_of_value`), and one without
superfluous zeros in front by its value alone (`Whole.eq_toDigits`).
-/

namespace StackMachine.Text

variable {digits others : List Char} {c : Char} {n : Nat}

/-- All characters are decimal digits. -/
def Digits (digits : List Char) : Prop := ∀ c ∈ digits, c.isDigit = true

/-- The value of a list of digits. -/
def value (digits : List Char) : Nat := Nat.ofDigitChars 10 digits 0

/-- Digits without superfluous zeros in front: there is at least one, and the first one is zero only
    if it is the only one. -/
structure Whole (digits : List Char) : Prop where
  nonempty : digits ≠ []
  all : Digits digits
  lead : digits.head? = some '0' → digits = ['0']

/-! ## Values of digits -/

/-- A number that is split at a base has one higher and one lower part. -/
theorem mul_add_inj {a b r s base : Nat} (hr : r < base) (hs : s < base)
    (h : a * base + r = b * base + s) : a = b ∧ r = s := by
  have hdiv : ∀ x y, y < base → (x * base + y) / base = x := by
    intro x y hy
    rw [Nat.mul_comm, Nat.mul_add_div (by omega), Nat.div_eq_of_lt hy, Nat.add_zero]
  have hab : a = b := by rw [← hdiv a r hr, h, hdiv b s hs]
  subst hab
  exact ⟨rfl, Nat.add_left_cancel h⟩

theorem value_toDigits (n : Nat) : value (Nat.toDigits 10 n) = n := Nat.ofDigitChars_ten_toDigits

theorem value_append (digits others : List Char) :
    value (digits ++ others) = value digits * 10 ^ others.length + value others := by
  unfold value
  rw [Nat.ofDigitChars_append, Nat.ofDigitChars_eq_ofDigitChars_zero, Nat.mul_comm]

theorem value_cons (c : Char) (digits : List Char) :
    value (c :: digits) = (c.toNat - '0'.toNat) * 10 ^ digits.length + value digits := by
  unfold value
  rw [Nat.ofDigitChars_cons, Nat.ofDigitChars_eq_ofDigitChars_zero, Nat.mul_zero, Nat.zero_add,
    Nat.mul_comm]

theorem value_singleton (c : Char) : value [c] = c.toNat - '0'.toNat := by
  unfold value
  rw [Nat.ofDigitChars_cons, Nat.mul_zero, Nat.zero_add, Nat.ofDigitChars_nil]

theorem value_replicate_zero (n : Nat) : value (List.replicate n '0') = 0 := by
  rw [value, Nat.ofDigitChars_replicate_zero, Nat.mul_zero]

theorem lt_ten_of_isDigit (h : c.isDigit = true) : c.toNat - '0'.toNat < 10 := by
  rw [Char.isDigit_iff_toNat] at h
  have : '9'.toNat = '0'.toNat + 9 := rfl
  omega

/-- A digit is determined by its value. -/
theorem digitChar_of_isDigit (h : c.isDigit = true) : (c.toNat - '0'.toNat).digitChar = c := by
  apply Char.toNat_inj.mp
  rw [Nat.toNat_digitChar_of_lt_ten (lt_ten_of_isDigit h)]
  have hle := (Char.isDigit_iff_toNat.mp h).1
  have : '0'.toNat = 48 := rfl
  omega

/-- What holds of the ten digits holds of every digit. -/
theorem forall_isDigit {P : Char → Prop} (h : ∀ n < 10, P (Nat.digitChar n))
    (hc : c.isDigit = true) : P c := by
  rw [← digitChar_of_isDigit hc]
  exact h _ (lt_ten_of_isDigit hc)

namespace Digits

theorem of_cons (h : Digits (c :: digits)) : c.isDigit = true ∧ Digits digits :=
  ⟨h c List.mem_cons_self, fun d hd => h d (List.mem_cons_of_mem c hd)⟩

theorem append (h : Digits digits) (hothers : Digits others) : Digits (digits ++ others) := by
  intro c hc
  exact (List.mem_append.mp hc).elim (h c) (hothers c)

theorem replicate_zero (n : Nat) : Digits (List.replicate n '0') := by
  intro c hc
  rw [List.eq_of_mem_replicate hc]
  rfl

theorem toDigits (n : Nat) : Digits (Nat.toDigits 10 n) := fun _ hc =>
  Nat.isDigit_of_mem_toDigits (by decide) (by decide) hc

theorem value_lt (h : Digits digits) : value digits < 10 ^ digits.length := by
  induction digits with
  | nil => decide
  | cons c digits ih =>
    obtain ⟨hc, hdigits⟩ := h.of_cons
    have hlt := lt_ten_of_isDigit hc
    have hle := Nat.mul_le_mul_right (10 ^ digits.length) (Nat.le_of_lt_succ hlt)
    have := ih hdigits
    rw [value_cons, List.length_cons, Nat.pow_succ]
    omega

/-- Lists of digits of the same length and value are equal. -/
theorem eq_of_value (h : Digits digits) (hothers : Digits others)
    (hlength : digits.length = others.length) (hvalue : value digits = value others) :
    digits = others := by
  induction digits generalizing others with
  | nil => exact (List.length_eq_zero_iff.mp hlength.symm).symm
  | cons c digits ih =>
    obtain ⟨d, others, rfl⟩ := List.exists_cons_of_length_eq_add_one hlength.symm
    obtain ⟨hc, hdigits⟩ := h.of_cons
    obtain ⟨hd, hothers⟩ := hothers.of_cons
    have hlength' : digits.length = others.length := Nat.succ.inj hlength
    rw [value_cons, value_cons, hlength'] at hvalue
    obtain ⟨hhead, htail⟩ :=
      mul_add_inj (hlength' ▸ hdigits.value_lt) hothers.value_lt hvalue
    rw [← digitChar_of_isDigit hc, ← digitChar_of_isDigit hd, hhead,
      ih hdigits hothers hlength' htail]

end Digits

/-! ## Whole numbers -/

namespace Whole

theorem toDigits (n : Nat) : Whole (Nat.toDigits 10 n) where
  nonempty := Nat.toDigits_ne_nil
  all := .toDigits n
  lead := by
    intro hzero
    induction n using Nat.strongRecOn with
    | ind n ih =>
      by_cases hn : n < 10
      · rw [Nat.toDigits_of_lt_base hn] at hzero ⊢
        rw [List.head?_cons, Option.some_inj] at hzero
        rw [hzero]
      · -- More digits than one are in front of the last one, and the first one is there.
        rw [Nat.toDigits_of_base_le (by decide) (Nat.le_of_not_lt hn),
          List.head?_append_of_ne_nil _ Nat.toDigits_ne_nil] at hzero
        have hdiv : n / 10 = 0 := by
          rw [← value_toDigits (n / 10), ih (n / 10) (by omega) hzero]
          rfl
        omega

/-- Digits without superfluous zeros are those of their value. -/
theorem eq_toDigits (h : Whole digits) : digits = Nat.toDigits 10 (value digits) := by
  induction digits using List.reverseRecOn with
  | nil => exact absurd rfl h.nonempty
  | append_singleton init c ih =>
    have hc := h.all c (by simp)
    have hlast : Nat.toDigits 10 (c.toNat - '0'.toNat) = [c] := by
      rw [Nat.toDigits_of_lt_base (lt_ten_of_isDigit hc), digitChar_of_isDigit hc]
    by_cases hinit : init = []
    · subst hinit
      rw [List.nil_append, value_singleton, hlast]
    · have hlead : init.head? ≠ some '0' := by
        intro hzero
        have hone := h.lead (by rw [List.head?_append_of_ne_nil _ hinit, hzero])
        have := congrArg List.length hone
        simp [List.length_eq_zero_iff, hinit] at this
      have hwhole : Whole init :=
        ⟨hinit, fun d hd => h.all d (List.mem_append_left _ hd), fun hzero => absurd hzero hlead⟩
      have hpos : 0 < value init := by
        apply Nat.pos_of_ne_zero
        intro hzero
        rw [ih hwhole, hzero] at hlead
        exact hlead rfl
      have happend := Nat.toDigits_append_toDigits (b := 10) (by decide) hpos (lt_ten_of_isDigit hc)
      rw [hlast, ← ih hwhole] at happend
      rw [happend, value_toDigits]

end Whole

end StackMachine.Text
