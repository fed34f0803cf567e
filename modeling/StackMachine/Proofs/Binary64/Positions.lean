import Mathlib.Data.ENat.Lattice
import StackMachine.Proofs.Binary64.Rounding

/-!
# Numbers as positions

A number that is a position is truncated toward zero.  `TruncatesTo` says what to, `extent` what is
read as a number of places, and `rational?_ofNat` which numbers of places a number can hold.
-/

namespace StackMachine.Binary64

variable {x : Binary64} {i j : ℤ} {n : ℕ} {q : ℚ}

/-- The number is finite, and an integer is its exact value truncated toward zero. -/
def TruncatesTo (x : Binary64) (i : ℤ) : Prop := ∃ q, x.rational? = some q ∧ towardZero q = i

/-- The number truncates to a natural number below a bound, which no infinity and no NaN does. -/
def Within (x : Binary64) (bound : ℕ) : Prop := ∃ n : ℕ, x.TruncatesTo n ∧ n < bound

/-- How many places the number is read as: its exact value truncated toward zero, none if that is
    negative or the number is a NaN, and no end of them for the positive infinity. -/
def extent (x : Binary64) : ℕ∞ :=
  match x.rational? with
  | some q => ((towardZero q).toNat : ℕ)
  | none => if x.isNaN || x.signBit then 0 else ⊤

/-! ## Truncation -/

theorem towardZero_nonneg_iff : 0 ≤ towardZero q ↔ -1 < q := by
  unfold towardZero
  split
  · rename_i hq
    exact iff_of_true (Int.floor_nonneg.mpr hq) (by linarith)
  · rw [Int.le_ceil_iff]
    norm_num

theorem truncate?_eq (x : Binary64) : x.truncate? = x.rational?.map towardZero := by
  unfold truncate? rational?
  cases x.datum with
  | finite negative m e => exact congrArg some (withSign_wholePart negative m e)
  | infinite negative => rfl
  | nan => rfl

theorem truncatesTo_iff : x.TruncatesTo i ↔ x.truncate? = some i := by
  rw [truncate?_eq, Option.map_eq_some_iff]
  rfl

theorem TruncatesTo.unique (hi : x.TruncatesTo i) (hj : x.TruncatesTo j) : i = j := by
  rw [truncatesTo_iff] at hi hj
  exact Option.some_inj.mp (hi.symm.trans hj)

/-- The index of a number is what it truncates to. -/
theorem index?_eq_some_iff : x.index? = some n ↔ x.TruncatesTo n := by
  rw [truncatesTo_iff, index?]
  cases x.truncate? with
  | none => simp
  | some i =>
    by_cases hi : 0 ≤ i
    · simp only [if_pos hi, Option.some_inj]
      omega
    · simp only [if_neg hi, Option.some_inj, reduceCtorEq, false_iff]
      omega

/-- A number that is out of range has no index, or too large a one. -/
theorem index?_of_not_within (h : ¬x.Within n) :
    x.index? = none ∨ ∃ k : ℕ, x.TruncatesTo k ∧ n ≤ k := by
  cases hx : x.index? with
  | none => exact .inl rfl
  | some k =>
    have hk := index?_eq_some_iff.mp hx
    exact .inr ⟨k, hk, not_lt.mp fun hlt => h ⟨k, hk, hlt⟩⟩

theorem extent_of_rational? (h : x.rational? = some q) :
    x.extent = ((towardZero q).toNat : ℕ) := by
  rw [extent, h]

theorem not_within_of_rational?_eq_none (h : x.rational? = none) : ¬x.Within n := by
  rintro ⟨k, ⟨q, hq, -⟩, -⟩
  cases h.symm.trans hq

theorem getD_index?_of_rational? (h : x.rational? = some q) :
    x.index?.getD 0 = (towardZero q).toNat := by
  rw [index?, truncate?_eq, h, Option.map_some]
  dsimp only
  split
  · rfl
  · rw [Option.getD_none]
    omega

theorem index?_eq_none_of_le (h : x.rational? = some q) (hq : q ≤ -1) : x.index? = none := by
  have hneg : ¬0 ≤ towardZero q := fun hle => absurd (towardZero_nonneg_iff.mp hle) (not_lt.mpr hq)
  rw [index?, truncate?_eq, h, Option.map_some]
  exact if_neg hneg

/-! ## Whole numbers -/

/-- Natural numbers of up to 53 bits, and the next one, have a pattern. -/
theorem exists_magnitude_eq (h : n ≤ 2 ^ 53) : ∃ p < infinityPattern, magnitude p = n := by
  by_cases hn : n = 0
  · subst hn
    exact ⟨0, by decide, by simp [magnitude]⟩
  · -- The leading bit is shifted to where the mantissa has it; there is no place to the left of it.
    have hlog : n.log2 ≤ 53 := by
      rw [← Nat.lt_succ_iff, Nat.log2_lt hn]
      omega
    obtain ⟨shift, hshift⟩ : ∃ shift, shift = 52 - n.log2 := ⟨_, rfl⟩
    have hlow : 2 ^ 52 ≤ n * 2 ^ shift :=
      calc 2 ^ 52 ≤ 2 ^ (n.log2 + shift) := Nat.pow_le_pow_right (by decide) (by omega)
        _ = 2 ^ n.log2 * 2 ^ shift := Nat.pow_add _ _ _
        _ ≤ n * 2 ^ shift := Nat.mul_le_mul_right _ (Nat.log2_self_le hn)
    have hhigh : n * 2 ^ shift ≤ 2 ^ 53 := by
      by_cases hlarge : n.log2 = 53
      · have hzero : shift = 0 := by omega
        rw [hzero, Nat.pow_zero, Nat.mul_one]
        exact h
      · calc n * 2 ^ shift ≤ 2 ^ (n.log2 + 1) * 2 ^ shift :=
              Nat.mul_le_mul_right _ Nat.lt_log2_self.le
          _ = 2 ^ 53 := by rw [← Nat.pow_add]; congr 1; omega
    refine ⟨(1074 - shift) * 2 ^ 52 + n * 2 ^ shift, ?_, ?_⟩
    · unfold infinityPattern
      omega
    · have hexp : ((1074 - shift : Nat) : ℤ) - 1074 = -(shift : ℤ) := by omega
      rw [magnitude_scaled hhigh (Or.inr hlow), hexp, zpow_neg, zpow_natCast]
      push_cast
      exact mul_inv_cancel_right₀ (by positivity) _

theorem rational?_ofNat (h : n ≤ 2 ^ 53) : (ofNat n).rational? = some (n : ℚ) := by
  obtain ⟨p, hp, hvalue⟩ := exists_magnitude_eq h
  have hlt : p < 2 ^ 63 := hp.trans (by decide)
  have hofNat : ofNat n = ofPattern false p := by
    have hexact := @ofRatio_of_eq n 1 (ofPattern false p)
    rw [pattern_ofPattern hlt, signBit_ofPattern hlt] at hexact
    exact hexact one_pos hp (by rw [hvalue, Nat.cast_one, div_one])
  rw [hofNat, rational?_of_lt (by rwa [pattern_ofPattern hlt]), pattern_ofPattern hlt,
    signBit_ofPattern hlt, hvalue, if_neg Bool.false_ne_true, one_mul]

/-- The bound is that of the numbers: the next natural number is rounded down to it. -/
example : ofNat (2 ^ 53 + 1) = ofNat (2 ^ 53) := by decide

theorem extent_ofNat (h : n ≤ 2 ^ 53) : (ofNat n).extent = n := by
  have hwhole : towardZero n = n := by
    rw [towardZero, if_pos (Nat.cast_nonneg n), Int.floor_natCast]
  rw [extent_of_rational? (rational?_ofNat h), hwhole, Int.toNat_natCast]

end StackMachine.Binary64
