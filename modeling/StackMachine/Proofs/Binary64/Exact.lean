import Mathlib.Algebra.Order.Field.Power
import Mathlib.Data.Rat.Floor
import Mathlib.Data.Rat.Star
import Mathlib.Tactic.FieldSimp
import Mathlib.Tactic.Linarith
import StackMachine.Binary64

/-!
# Exact values

A bit pattern is a sign and a magnitude pattern, which are 63 bits read as a number.  The finite
patterns stand for rational numbers (`rational?`), and these grow with the magnitude pattern
(`strictMono_magnitude`): from each pattern to the next by one unit in the last place.
-/

namespace StackMachine.Binary64

variable {x y : Binary64} {negative : Bool} {p n k : Nat} {q : ℚ} {e : ℤ}

/-- The exact value; infinities and NaNs have none. -/
def rational? (x : Binary64) : Option ℚ :=
  match x.datum with
  | .finite negative m e => some ((if negative then -1 else 1) * (m * 2 ^ e))
  | _ => none

/-- The bit pattern without the sign, as a number. -/
def pattern (x : Binary64) : Nat := x.bits.toNat % 2 ^ 63

/-- What a magnitude pattern stands for, with a place for every mantissa and exponent: the patterns
    of the infinity and of the NaNs go on where the finite ones end. -/
def magnitude (p : Nat) : ℚ :=
  if p < 2 ^ 52 then p * 2 ^ (-1074 : ℤ)
  else ((p % 2 ^ 52 + 2 ^ 52 : Nat) : ℚ) * 2 ^ (((p / 2 ^ 52 : Nat) : ℤ) - 1075)

/-! ## Sign and magnitude -/

theorem pattern_lt (x : Binary64) : x.pattern < 2 ^ 63 := Nat.mod_lt _ (by decide)

theorem exponentField_eq (x : Binary64) : x.exponentField = x.pattern / 2 ^ 52 := by
  unfold exponentField pattern
  omega

theorem fractionField_eq (x : Binary64) : x.fractionField = x.pattern % 2 ^ 52 := by
  unfold fractionField pattern
  omega

theorem toNat_ofPattern (hp : p < 2 ^ 63) :
    (ofPattern negative p).bits.toNat = if negative then 2 ^ 63 + p else p := by
  unfold ofPattern
  rw [UInt64.toNat_ofNat']
  split <;> omega

theorem pattern_ofPattern (hp : p < 2 ^ 63) : (ofPattern negative p).pattern = p := by
  unfold pattern
  rw [toNat_ofPattern hp]
  split <;> omega

theorem signBit_ofPattern (hp : p < 2 ^ 63) : (ofPattern negative p).signBit = negative := by
  unfold signBit
  rw [toNat_ofPattern hp]
  cases negative <;> simp
  omega

/-- A number is put together from its sign and its magnitude pattern. -/
theorem ofPattern_pattern (x : Binary64) : ofPattern x.signBit x.pattern = x := by
  have hlt := x.bits.toNat_lt
  have hbits : (if x.signBit then 2 ^ 63 + x.pattern else x.pattern) = x.bits.toNat := by
    unfold signBit pattern
    split <;> simp_all
    omega
  unfold ofPattern
  rw [hbits, UInt64.ofNat_toNat]

/-! ## Powers of two -/

theorem two_zpow_of_nonneg (he : 0 ≤ e) : (2 : ℚ) ^ e = (2 ^ e.toNat : Nat) := by
  conv_lhs => rw [← Int.toNat_of_nonneg he]
  rw [zpow_natCast, Nat.cast_pow, Nat.cast_ofNat]

theorem two_zpow_of_neg (he : ¬0 ≤ e) : (2 : ℚ) ^ e = ((2 ^ (-e).toNat : Nat) : ℚ)⁻¹ := by
  have hneg : e = -((-e).toNat : ℤ) := by omega
  conv_lhs => rw [hneg]
  rw [zpow_neg, zpow_natCast, Nat.cast_pow, Nat.cast_ofNat]

/-! ## Values of magnitude patterns -/

/-- In the places where the unit is `2 ^ (n - 1074)`, up to the first of the next ones, a pattern is
    the count of units after the patterns of all smaller units. -/
theorem magnitude_scaled (hk : k ≤ 2 ^ 53) (hn : n = 0 ∨ 2 ^ 52 ≤ k) :
    magnitude (n * 2 ^ 52 + k) = k * 2 ^ ((n : ℤ) - 1074) := by
  unfold magnitude
  split
  · obtain rfl : n = 0 := by omega
    simp
  · by_cases hlast : k = 2 ^ 53
    · have hmod : (n * 2 ^ 52 + k) % 2 ^ 52 = 0 := by omega
      have hdiv : (n * 2 ^ 52 + k) / 2 ^ 52 = n + 2 := by omega
      have hexp : ((n + 2 : Nat) : ℤ) - 1075 = ((n : ℤ) - 1074) + 1 := by push_cast; ring
      rw [hmod, hdiv, hexp, zpow_add_one₀ two_ne_zero, hlast]
      push_cast
      ring
    · have hmod : (n * 2 ^ 52 + k) % 2 ^ 52 = k - 2 ^ 52 := by omega
      have hdiv : (n * 2 ^ 52 + k) / 2 ^ 52 = n + 1 := by omega
      have hexp : ((n + 1 : Nat) : ℤ) - 1075 = (n : ℤ) - 1074 := by push_cast; ring
      have hk' : k - 2 ^ 52 + 2 ^ 52 = k := by omega
      rw [hmod, hdiv, hexp, hk']

/-- Every pattern lies in the places of one unit. -/
theorem exists_scaled (p : Nat) :
    ∃ n k, p = n * 2 ^ 52 + k ∧ k < 2 ^ 53 ∧ (n = 0 ∨ 2 ^ 52 ≤ k) := by
  by_cases hp : p < 2 ^ 52
  · exact ⟨0, p, by omega, by omega, Or.inl rfl⟩
  · exact ⟨p / 2 ^ 52 - 1, p % 2 ^ 52 + 2 ^ 52, by omega, by omega, Or.inr (by omega)⟩

theorem strictMono_magnitude : StrictMono magnitude := by
  apply strictMono_nat_of_lt_succ
  intro p
  obtain ⟨n, k, rfl, hk, hn⟩ := exists_scaled p
  rw [magnitude_scaled (by omega) hn, Nat.add_assoc, magnitude_scaled (by omega) (by omega)]
  have hunit : (0 : ℚ) < 2 ^ ((n : ℤ) - 1074) := by positivity
  push_cast
  nlinarith

theorem magnitude_zero : magnitude 0 = 0 := by simp [magnitude]

theorem magnitude_nonneg (p : Nat) : 0 ≤ magnitude p := by
  rw [← magnitude_zero]
  exact strictMono_magnitude.monotone (Nat.zero_le p)

/-! ## Kinds of numbers -/

/-- A finite number is its sign and its magnitude. -/
theorem rational?_of_lt (h : x.pattern < infinityPattern) :
    x.rational? = some ((if x.signBit then -1 else 1) * magnitude x.pattern) := by
  unfold infinityPattern at h
  have hfield : ¬x.pattern / 2 ^ 52 = 2047 := by omega
  unfold rational? datum magnitude
  rw [exponentField_eq, fractionField_eq, if_neg hfield]
  by_cases hsmall : x.pattern < 2 ^ 52
  · have hzero : x.pattern / 2 ^ 52 = 0 := by omega
    have hmod : x.pattern % 2 ^ 52 = x.pattern := by omega
    rw [if_pos hzero, if_pos hsmall, hmod]
  · have hzero : ¬x.pattern / 2 ^ 52 = 0 := by omega
    rw [if_neg hzero, if_neg hsmall]

/-- The patterns from that of the infinity on stand for no rational number. -/
theorem datum_of_le (h : infinityPattern ≤ x.pattern) :
    x.datum = if x.pattern = infinityPattern then .infinite x.signBit else .nan := by
  have hlt := x.pattern_lt
  unfold infinityPattern at h ⊢
  have hfield : x.pattern / 2 ^ 52 = 2047 := by omega
  have hfraction : x.pattern % 2 ^ 52 = 0 ↔ x.pattern = 2047 * 2 ^ 52 := by omega
  unfold datum
  rw [exponentField_eq, fractionField_eq, if_pos hfield]
  simp only [hfraction]

theorem signBit_of_datum {m : Nat} {e : ℤ} (h : x.datum = .finite negative m e) :
    x.signBit = negative := by
  unfold datum at h
  split at h
  · split at h <;> cases h
  · split at h <;> cases h <;> rfl

theorem rational?_of_le (h : infinityPattern ≤ x.pattern) : x.rational? = none := by
  unfold rational?
  rw [datum_of_le h]
  by_cases heq : x.pattern = infinityPattern
  · rw [if_pos heq]
  · rw [if_neg heq]

theorem rational?_eq_some_iff :
    x.rational? = some q ↔ x.pattern < infinityPattern ∧
      q = (if x.signBit then -1 else 1) * magnitude x.pattern := by
  by_cases h : x.pattern < infinityPattern
  · rw [rational?_of_lt h, Option.some_inj]
    exact ⟨fun hq => ⟨h, hq.symm⟩, fun hq => hq.2.symm⟩
  · rw [rational?_of_le (Nat.le_of_not_lt h)]
    exact ⟨nofun, fun hq => absurd hq.1 h⟩

theorem abs_of_rational? (h : x.rational? = some q) : |q| = magnitude x.pattern := by
  obtain ⟨-, rfl⟩ := rational?_eq_some_iff.mp h
  rw [abs_mul, abs_of_nonneg (magnitude_nonneg _)]
  cases x.signBit <;> simp

/-- Infinities and NaNs have no exact value, and are told apart by their pattern. -/
theorem datum_of_rational?_eq_none (h : x.rational? = none) :
    x.datum = if x.pattern = infinityPattern then .infinite x.signBit else .nan := by
  apply datum_of_le
  apply Nat.le_of_not_lt
  intro hlt
  cases h.symm.trans (rational?_of_lt hlt)

theorem eq_infinity_of_datum (h : x.datum = .infinite negative) : x = infinity negative := by
  have hnone : x.rational? = none := by
    unfold rational?
    rw [h]
  have hdatum := datum_of_rational?_eq_none hnone
  rw [h] at hdatum
  split at hdatum
  · rename_i hpattern
    cases hdatum
    rw [infinity, ← hpattern, ofPattern_pattern]
  · cases hdatum

/-! ## Truncation -/

/-- A rational truncated toward zero. -/
def towardZero (q : ℚ) : ℤ := if 0 ≤ q then ⌊q⌋ else ⌈q⌉

theorem towardZero_neg (q : ℚ) : towardZero (-q) = -towardZero q := by
  unfold towardZero
  rcases lt_trichotomy q 0 with hneg | rfl | hpos
  · rw [if_pos (by linarith), if_neg (by linarith), Int.floor_neg]
  · simp
  · rw [if_neg (by linarith), if_pos hpos.le, Int.ceil_neg]

theorem towardZero_eq_zero_iff : towardZero q = 0 ↔ |q| < 1 := by
  unfold towardZero
  split
  · rename_i h
    rw [Int.floor_eq_zero_iff, abs_of_nonneg h]
    exact ⟨fun hq => hq.2, fun hq => ⟨h, hq⟩⟩
  · rename_i h
    rw [Int.ceil_eq_zero_iff, abs_of_neg (not_le.mp h), Set.mem_Ioc, neg_lt]
    exact and_iff_left (not_le.mp h).le

theorem wholePart_eq_floor (m : Nat) (e : ℤ) : (wholePart m e : ℤ) = ⌊(m : ℚ) * 2 ^ e⌋ := by
  unfold wholePart
  split
  · rename_i he
    rw [two_zpow_of_nonneg he, ← Nat.cast_mul, Int.floor_natCast]
  · rename_i he
    rw [two_zpow_of_neg he, ← div_eq_mul_inv, Rat.floor_natCast_div_natCast, Int.natCast_ediv]

/-- Signed whole parts are what is left when the fraction is cut off. -/
theorem withSign_wholePart (negative : Bool) (m : Nat) (e : ℤ) :
    withSign negative (wholePart m e) =
      towardZero ((if negative then -1 else 1) * (m * 2 ^ e)) := by
  have hnonneg : (0 : ℚ) ≤ m * 2 ^ e := by positivity
  have hwhole : (wholePart m e : ℤ) = towardZero (m * 2 ^ e) := by
    rw [wholePart_eq_floor, towardZero, if_pos hnonneg]
  cases negative with
  | true =>
    have hsign : (if true = true then (-1 : ℚ) else 1) * (m * 2 ^ e) = -(m * 2 ^ e) := by
      rw [if_pos rfl, neg_one_mul]
    rw [hsign, towardZero_neg, ← hwhole]
    rfl
  | false =>
    have hsign : (if false = true then (-1 : ℚ) else 1) * (m * 2 ^ e) = m * 2 ^ e := by
      rw [if_neg Bool.false_ne_true, one_mul]
    rw [hsign, ← hwhole]
    rfl

/-- The number as a signed 64-bit integer: its exact value truncated toward zero and forced into
    the range, an end of the range for an infinity, and zero for a NaN. -/
def integer (x : Binary64) : ℤ :=
  match x.rational? with
  | some q => max (-2 ^ 63) (min (towardZero q) (2 ^ 63 - 1))
  | none => if x.isNaN then 0 else if x.signBit then -2 ^ 63 else 2 ^ 63 - 1

theorem toWord_eq_integer (x : Binary64) : x.toWord = x.integer := by
  unfold toWord integer rational? isNaN
  split
  · rename_i h
    simp [h]
  · rename_i negative h
    have hsign : x.signBit = negative := by
      rw [eq_infinity_of_datum h, infinity, signBit_ofPattern (by decide)]
    simp [h, hsign]
  · rename_i negative m e h
    simp only [h]
    rw [withSign_wholePart]
    rfl

theorem natAbs_integer_le (x : Binary64) : x.integer.natAbs ≤ 2 ^ 63 := by
  unfold integer
  split
  · omega
  · split
    · omega
    · split <;> omega

/-- The numbers that count as zero are the NaNs and those between minus one and one. -/
theorem integer_eq_zero_iff :
    x.integer = 0 ↔ x.isNaN ∨ ∃ q, x.rational? = some q ∧ |q| < 1 := by
  cases hx : x.rational? with
  | some q =>
    have hnan : x.isNaN = false := by
      cases h : x.datum <;> simp [rational?, isNaN, h] at hx ⊢
    have hclamp : x.integer = 0 ↔ towardZero q = 0 := by
      simp only [integer, hx]
      omega
    rw [hclamp, towardZero_eq_zero_iff]
    simp [hnan]
  | none =>
    simp only [integer, hx]
    cases x.isNaN
    · cases x.signBit <;> simp
    · simp

end StackMachine.Binary64
