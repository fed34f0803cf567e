import StackMachine.Proofs.Binary64.Exact

/-!
# Rounding

Quotients are rounded to the nearest integer and to the nearest number, and of two that are equally
near the even one is taken (`Nearest`).  For numbers this is said of magnitude patterns
(`exists_nearestPattern`) and then, with a sign, of all finite numbers (`closest_ofRatio`).
-/

namespace StackMachine

/-- No value is nearer to `q` than that of `a`, and `a` is even if another one is as near. -/
structure Nearest {α : Type} [Add α] (value : α → ℚ) (q : ℚ) (a : α) : Prop where
  le : ∀ b, |value a - q| ≤ |value b - q|
  even : ∀ b, value b ≠ value a → |value b - q| = |value a - q| → Even a

/-- An integer is nearest to `q`, and even if another one is as near. -/
abbrev NearestInteger (q : ℚ) (i : ℤ) : Prop := Nearest Int.cast q i

/-- A distance is measured in units. -/
theorem abs_mul_sub {unit : ℚ} (hpos : 0 < unit) (a q : ℚ) :
    |a * unit - q| = |a - q / unit| * unit := by
  rw [← abs_of_pos hpos, ← abs_mul, abs_of_pos hpos, sub_mul, div_mul_cancel₀ _ hpos.ne']

namespace NearestInteger

variable {q : ℚ} {i j : ℤ}

theorem of_le_half (hle : |i - q| ≤ 1 / 2) (heven : |i - q| = 1 / 2 → Even i) :
    NearestInteger q i := by
  have hother : ∀ j : ℤ, j ≠ i → 1 - |i - q| ≤ |j - q| := by
    intro j hj
    have hone : (1 : ℚ) ≤ |(j : ℚ) - i| := by
      exact_mod_cast Int.one_le_abs (sub_ne_zero.mpr hj)
    have htriangle := abs_sub_le (j : ℚ) q i
    rw [abs_sub_comm q] at htriangle
    linarith
  constructor
  · intro j
    by_cases hj : j = i
    · rw [hj]
    · have := hother j hj
      linarith
  · intro j hj heq
    apply heven
    have := hother j (fun h => hj (by rw [h]))
    linarith

/-- An integer is nearest to what is at most a half more or less. -/
theorem of_eq_add {rest : ℚ} (hq : q = i + rest) (hle : |rest| ≤ 1 / 2)
    (heven : |rest| = 1 / 2 → Even i) : NearestInteger q i := by
  have hdistance : |i - q| = |rest| := by rw [hq, sub_add_cancel_left, abs_neg]
  exact of_le_half (hdistance.trans_le hle) fun h => heven (hdistance.symm.trans h)

theorem le_half (h : NearestInteger q i) : |i - q| ≤ 1 / 2 := by
  have hround := abs_sub_round q
  rw [abs_sub_comm] at hround
  exact (h.le (round q)).trans hround

theorem unique (hi : NearestInteger q i) (hj : NearestInteger q j) : i = j := by
  by_contra hne
  have heq : |(i : ℚ) - q| = |j - q| := le_antisymm (hi.le j) (hj.le i)
  have hne' : (i : ℚ) ≠ j := Int.cast_injective.ne hne
  -- Both are even, and so they are too far from each other.
  have heveni : Even i := hi.even j hne'.symm heq.symm
  have hevenj : Even j := hj.even i hne' heq
  have htwo : (2 : ℚ) ≤ |(i : ℚ) - j| := by
    have : 2 ≤ |i - j| := Int.le_of_dvd (abs_pos.mpr (sub_ne_zero.mpr hne))
      ((dvd_abs 2 (i - j)).mpr (heveni.sub hevenj).two_dvd)
    exact_mod_cast this
  have htriangle := abs_sub_le (i : ℚ) q j
  rw [abs_sub_comm q] at htriangle
  have := hi.le_half
  have := hj.le_half
  linarith

/-- Rounding does not go beyond an integer. -/
theorem le_of_le (h : NearestInteger q i) (hj : q ≤ j) : i ≤ j := by
  by_contra hlt
  have hlt' : (j : ℚ) < i := by exact_mod_cast not_le.mp hlt
  have hle := h.le j
  rw [abs_of_nonneg (by linarith), abs_of_nonneg (by linarith)] at hle
  linarith

theorem ge_of_ge (h : NearestInteger q i) (hj : j ≤ q) : j ≤ i := by
  by_contra hlt
  have hlt' : (i : ℚ) < j := by exact_mod_cast not_le.mp hlt
  have hle := h.le j
  rw [abs_of_nonpos (by linarith), abs_of_nonpos (by linarith)] at hle
  linarith

/-- No multiple of a unit is nearer than the one that is nearest when measured in units. -/
theorem abs_mul_le {unit : ℚ} (hpos : 0 < unit) (h : NearestInteger (q / unit) i) (j : ℤ) :
    |i * unit - q| ≤ |j * unit - q| := by
  rw [abs_mul_sub hpos, abs_mul_sub hpos]
  exact mul_le_mul_of_nonneg_right (h.le j) hpos.le

/-- What is less than a multiple that is not beyond `q` is farther than the nearest one. -/
theorem abs_mul_lt {unit v : ℚ} (hpos : 0 < unit) (h : NearestInteger (q / unit) i)
    (hj : j * unit ≤ q) (hv : v < j * unit) : |i * unit - q| < |v - q| := by
  have hle := h.abs_mul_le hpos j
  rw [abs_of_nonpos (a := j * unit - q) (by linarith)] at hle
  rw [abs_of_neg (a := v - q) (by linarith)]
  linarith

/-- A count of units stays in the places of the unit, the first of the next ones included. -/
theorem mantissa_bounds {unit : ℚ} {n k : Nat} (hpos : 0 < unit)
    (hn : n = 0 ∨ 2 ^ 52 * unit ≤ q) (hlt : q < 2 ^ 53 * unit)
    (h : NearestInteger (q / unit) (k : Nat)) : k ≤ 2 ^ 53 ∧ (n = 0 ∨ 2 ^ 52 ≤ k) := by
  constructor
  · have hle : (k : ℤ) ≤ (2 ^ 53 : Nat) := by
      apply h.le_of_le
      rw [div_le_iff₀ hpos]
      exact_mod_cast hlt.le
    exact_mod_cast hle
  · refine hn.imp_right fun hq => ?_
    have hle : ((2 ^ 52 : Nat) : ℤ) ≤ k := by
      apply h.ge_of_ge
      rw [le_div_iff₀ hpos]
      exact_mod_cast hq
    exact_mod_cast hle

end NearestInteger

namespace Binary64

variable {num den n k p : Nat} {q : ℚ} {e : ℤ} {negative : Bool}

/-! ## Quotients as integers -/

/-- What is left of a quotient over its integral part, and how it compares with a half. -/
theorem exists_rest (num : Nat) (hden : 0 < den) :
    ∃ rest : ℚ, (num : ℚ) / den = (num / den : Nat) + rest ∧ 0 ≤ rest ∧ rest < 1 ∧
      (rest < 1 / 2 ↔ 2 * (num % den) < den) ∧ (1 / 2 < rest ↔ den < 2 * (num % den)) := by
  have hden' : (0 : ℚ) < den := by exact_mod_cast hden
  refine ⟨(num % den : Nat) / den, ?_, by positivity, ?_, ?_, ?_⟩
  · have hnum : (num : ℚ) = den * (num / den : Nat) + (num % den : Nat) := by
      exact_mod_cast (Nat.div_add_mod num den).symm
    rw [div_eq_iff hden'.ne', add_mul, div_mul_cancel₀ _ hden'.ne', mul_comm _ (den : ℚ)]
    exact hnum
  · rw [div_lt_one hden']
    exact_mod_cast Nat.mod_lt num hden
  · rw [div_lt_div_iff₀ hden' two_pos, mul_comm, one_mul]
    exact_mod_cast Iff.rfl
  · rw [div_lt_div_iff₀ two_pos hden', mul_comm _ 2, one_mul]
    exact_mod_cast Iff.rfl

theorem nearestInteger_roundDiv (hden : 0 < den) :
    NearestInteger ((num : ℚ) / den) (roundDiv num den : Nat) := by
  obtain ⟨rest, hsplit, hnonneg, hone, hbelow, habove⟩ := exists_rest num hden
  have hdown : (num : ℚ) / den = ((num / den : Nat) : ℤ) + rest := by
    rw [hsplit, Int.cast_natCast]
  have hup : (num : ℚ) / den = ((num / den + 1 : Nat) : ℤ) + (rest - 1) := by
    rw [hsplit, Int.cast_natCast, Nat.cast_add_one]
    ring
  have hrest : |rest| = rest := abs_of_nonneg hnonneg
  have hback : |rest - 1| = 1 - rest := by
    rw [abs_sub_comm, abs_of_pos (by linarith)]
  have heven : ∀ n : Nat, n % 2 = 0 → Even (n : ℤ) := fun n hn =>
    (Int.even_coe_nat n).mpr (Nat.even_iff.mpr hn)
  unfold roundDiv
  dsimp only
  simp only [← hbelow, ← habove]
  split
  · exact .of_eq_add hdown (by linarith) fun _ => by linarith
  · split
    · exact .of_eq_add hup (by linarith) fun _ => by linarith
    · -- A half is as near to both neighbours.
      have hhalf : rest = 1 / 2 := by linarith
      split
      · exact .of_eq_add hdown (by linarith) fun _ => heven _ (by omega)
      · exact .of_eq_add hup (by linarith) fun _ => heven _ (by omega)

/-- Rounding in units of a power of two. -/
theorem nearestInteger_roundScaled (hden : 0 < den) (e : ℤ) :
    NearestInteger ((num : ℚ) / den / 2 ^ e) (roundScaled num den e : Nat) := by
  unfold roundScaled
  split
  · rename_i he
    rw [two_zpow_of_nonneg he, div_div, ← Nat.cast_mul]
    exact nearestInteger_roundDiv (by positivity)
  · rename_i he
    rw [two_zpow_of_neg he, div_inv_eq_mul, div_mul_eq_mul_div, ← Nat.cast_mul]
    exact nearestInteger_roundDiv hden

/-! ## Exponents of quotients -/

theorem reaches_iff (hden : 0 < den) : reaches num den e = true ↔ (2 : ℚ) ^ e ≤ num / den := by
  have hden' : (0 : ℚ) < den := by exact_mod_cast hden
  unfold reaches
  split
  · rename_i he
    rw [two_zpow_of_nonneg he, le_div_iff₀ hden', mul_comm, decide_eq_true_iff, ← Nat.cast_mul,
      Nat.cast_le]
  · rename_i he
    have hpos : (0 : ℚ) < (2 ^ (-e).toNat : Nat) := by positivity
    rw [two_zpow_of_neg he, le_div_iff₀ hden', inv_mul_le_iff₀ hpos, mul_comm, decide_eq_true_iff,
      ← Nat.cast_mul, Nat.cast_le]

theorem two_zpow_log2_le (hn : 0 < n) : (2 : ℚ) ^ (n.log2 : ℤ) ≤ n := by
  rw [zpow_natCast]
  exact_mod_cast Nat.log2_self_le (Nat.ne_of_gt hn)

theorem lt_two_zpow_log2 (n : Nat) : (n : ℚ) < 2 ^ ((n.log2 : ℤ) + 1) := by
  have hlt : (n : ℚ) < 2 ^ (n.log2 + 1) := by exact_mod_cast Nat.lt_log2_self
  exact_mod_cast hlt

/-- The binary exponent of a positive quotient. -/
theorem binaryExponent_spec (hnum : 0 < num) (hden : 0 < den) :
    (2 : ℚ) ^ binaryExponent num den ≤ num / den ∧
      (num : ℚ) / den < 2 ^ (binaryExponent num den + 1) := by
  have hden' : (0 : ℚ) < den := by exact_mod_cast hden
  have hbelow : (2 : ℚ) ^ ((num.log2 : ℤ) - den.log2 - 1) ≤ num / den := by
    have hexp : (num.log2 : ℤ) - den.log2 - 1 = num.log2 - (den.log2 + 1) := by ring
    rw [hexp, zpow_sub₀ two_ne_zero]
    exact div_le_div₀ (by positivity) (two_zpow_log2_le hnum) hden' (lt_two_zpow_log2 den).le
  have habove : (num : ℚ) / den < 2 ^ ((num.log2 : ℤ) - den.log2 + 1) := by
    have hexp : (num.log2 : ℤ) - den.log2 + 1 = num.log2 + 1 - den.log2 := by ring
    rw [hexp, zpow_sub₀ two_ne_zero]
    exact div_lt_div₀ (lt_two_zpow_log2 num) (two_zpow_log2_le hden) (by positivity) (by positivity)
  unfold binaryExponent
  dsimp only
  split
  · rename_i hreaches
    exact ⟨(reaches_iff hden).mp hreaches, habove⟩
  · rename_i hreaches
    rw [reaches_iff hden, not_le] at hreaches
    rw [sub_add_cancel]
    exact ⟨hbelow, hreaches⟩

/-! ## Nearest patterns -/

/-- A pattern is nearest to `q`, and even if another one is as near. -/
abbrev NearestPattern (q : ℚ) (p : Nat) : Prop := Nearest magnitude q p

/-- A pattern in or beyond the places of a unit stands for a multiple of it, and one in front of
    them for less than all multiples there. -/
theorem multiple_or_lt (n o : Nat) :
    (∃ j : ℤ, magnitude o = j * 2 ^ ((n : ℤ) - 1074)) ∨
      n ≠ 0 ∧ magnitude o < 2 ^ 52 * 2 ^ ((n : ℤ) - 1074) := by
  obtain ⟨m, k, rfl, hk, hm⟩ := exists_scaled o
  rw [magnitude_scaled hk.le hm]
  rcases Nat.lt_or_ge m n with hlt | hle
  · right
    refine ⟨by omega, ?_⟩
    have hk' : (k : ℚ) < 2 ^ 53 := by exact_mod_cast hk
    calc (k : ℚ) * 2 ^ ((m : ℤ) - 1074)
        < 2 ^ 53 * 2 ^ ((m : ℤ) - 1074) := by
          apply mul_lt_mul_of_pos_right hk'
          positivity
      _ = 2 ^ 52 * 2 ^ ((m : ℤ) - 1074 + 1) := by
          rw [zpow_add_one₀ two_ne_zero]
          ring
      _ ≤ 2 ^ 52 * 2 ^ ((n : ℤ) - 1074) := by
          apply mul_le_mul_of_nonneg_left _ (by positivity)
          exact zpow_le_zpow_right₀ one_le_two (by omega)
  · left
    refine ⟨k * 2 ^ (m - n), ?_⟩
    have hexp : (m : ℤ) - 1074 = (m - n : Nat) + (n - 1074) := by omega
    rw [hexp, zpow_add₀ two_ne_zero, zpow_natCast]
    push_cast
    ring

/-- The nearest pattern in the places of a unit, to a rational that is not beyond them. -/
theorem nearest_scaled (hn : n = 0 ∨ 2 ^ 52 * 2 ^ ((n : ℤ) - 1074) ≤ q)
    (hlt : q < 2 ^ 53 * 2 ^ ((n : ℤ) - 1074))
    (hk : NearestInteger (q / 2 ^ ((n : ℤ) - 1074)) (k : Nat)) :
    NearestPattern q (n * 2 ^ 52 + k) := by
  have hother := multiple_or_lt n
  obtain ⟨unit, hunit⟩ : ∃ unit : ℚ, unit = 2 ^ ((n : ℤ) - 1074) := ⟨_, rfl⟩
  have hpos : 0 < unit := by
    rw [hunit]
    positivity
  rw [← hunit] at hn hlt hk hother
  obtain ⟨hkle, hnorm⟩ := hk.mantissa_bounds hpos hn hlt
  have hvalue : magnitude (n * 2 ^ 52 + k) = (k : ℤ) * unit := by
    rw [magnitude_scaled hkle hnorm, hunit, Int.cast_natCast]
  have hbelow : ∀ v : ℚ, n ≠ 0 → v < 2 ^ 52 * unit → |(k : ℤ) * unit - q| < |v - q| := by
    intro v hne hv
    have hfirst : (2 ^ 52 : ℚ) = ((2 ^ 52 : ℤ) : ℚ) := by norm_num
    rw [hfirst] at hn hv
    exact hk.abs_mul_lt hpos (hn.resolve_left hne) hv
  constructor
  · intro o
    rw [hvalue]
    rcases hother o with ⟨j, hj⟩ | ⟨hne, hv⟩
    · rw [hj]
      exact hk.abs_mul_le hpos j
    · exact (hbelow _ hne hv).le
  · intro o hne heq
    rw [hvalue] at hne heq
    rcases hother o with ⟨j, hj⟩ | ⟨hzero, hv⟩
    · rw [hj] at hne heq
      rw [abs_mul_sub hpos, abs_mul_sub hpos] at heq
      have hj' : (j : ℚ) ≠ (k : ℤ) := fun h => hne (by rw [h])
      have heven := hk.even j hj' (mul_right_cancel₀ hpos.ne' heq)
      rw [Int.even_coe_nat] at heven
      exact Even.add ((by decide : Even (2 ^ 52)).mul_left n) heven
    · exact absurd heq (hbelow _ hzero hv).ne'

namespace NearestPattern

/-- Rounding does not go beyond a pattern. -/
theorem le_of_le (h : NearestPattern q p) {o : Nat} (ho : q ≤ magnitude o) : p ≤ o := by
  by_contra hlt
  have hlt' := strictMono_magnitude (not_le.mp hlt)
  have hle := h.le o
  rw [abs_of_nonneg (by linarith), abs_of_nonneg (by linarith)] at hle
  linarith

/-- What a pattern stands for is not rounded to another one. -/
theorem eq_of_eq (h : NearestPattern (magnitude k) p) : p = k := by
  have hle := h.le k
  rw [sub_self, abs_zero] at hle
  apply strictMono_magnitude.injective
  linarith [abs_eq_zero.mp (le_antisymm hle (abs_nonneg _))]

/-- With the other sign, only zero is as near as the nearest pattern. -/
theorem lt_add (h : NearestPattern q p) (hq : 0 ≤ q) (hp : 0 < magnitude p) :
    |magnitude p - q| < magnitude p + q := by
  have hpos : 0 < q := by
    apply lt_of_le_of_ne hq
    rintro rfl
    rw [← magnitude_zero] at h
    rw [h.eq_of_eq, magnitude_zero] at hp
    exact lt_irrefl 0 hp
  rw [abs_lt]
  constructor <;> linarith

end NearestPattern

/-- Every quotient has a nearest pattern, and the one computed is that pattern or, beyond the finite
    ones, that of the infinity. -/
theorem exists_nearestPattern (num : Nat) (hden : 0 < den) :
    ∃ p, nearestPattern num den = min p infinityPattern ∧ NearestPattern ((num : ℚ) / den) p := by
  by_cases hnum : num = 0
  · refine ⟨0, by simp [nearestPattern, hnum], ?_, fun _ _ _ => Even.zero⟩
    intro o
    simp [hnum, magnitude_zero]
  · obtain ⟨hle, hlt⟩ := binaryExponent_spec (Nat.pos_of_ne_zero hnum) hden
    obtain ⟨n, hn⟩ : ∃ n : Nat, (n : ℤ) - 1074 = max (binaryExponent num den - 52) (-1074) :=
      ⟨(max (binaryExponent num den - 52) (-1074) + 1074).toNat, by omega⟩
    have hpattern : nearestPattern num den =
        min (n * 2 ^ 52 + roundScaled num den ((n : ℤ) - 1074)) infinityPattern := by
      unfold nearestPattern
      rw [if_neg hnum, ← hn]
      simp
    refine ⟨_, hpattern, nearest_scaled ?_ ?_ (nearestInteger_roundScaled hden _)⟩
    · refine or_iff_not_imp_left.mpr fun hzero => ?_
      have hexp : binaryExponent num den = 52 + ((n : ℤ) - 1074) := by omega
      rwa [hexp, zpow_add₀ two_ne_zero, zpow_ofNat] at hle
    · calc (num : ℚ) / den < 2 ^ (binaryExponent num den + 1) := hlt
        _ ≤ 2 ^ (53 + ((n : ℤ) - 1074)) := zpow_le_zpow_right₀ one_le_two (by omega)
        _ = 2 ^ 53 * 2 ^ ((n : ℤ) - 1074) := by rw [zpow_add₀ two_ne_zero, zpow_ofNat]

/-! ## Nearest numbers -/

/-- The number is finite and no finite number is nearer to `q`, and its last bit is zero if another
    one is as near. -/
def Closest (q : ℚ) (x : Binary64) : Prop :=
  ∃ v, x.rational? = some v ∧ ∀ (y : Binary64) w, y.rational? = some w →
    |v - q| ≤ |w - q| ∧ (w ≠ v → |w - q| = |v - q| → Even x.fractionField)

theorem even_fractionField_iff (x : Binary64) : Even x.fractionField ↔ Even x.pattern := by
  rw [fractionField_eq, Nat.even_iff, Nat.even_iff]
  omega

/-- With a sign, the nearest pattern is nearest among the numbers of both signs. -/
theorem closest_of_nearest {x : Binary64} (hfinite : x.pattern < infinityPattern)
    (hq : 0 ≤ q) (h : NearestPattern q x.pattern) :
    Closest ((if x.signBit then -1 else 1) * q) x := by
  obtain ⟨sign, hsign⟩ : ∃ sign : ℚ, sign = if x.signBit then -1 else 1 := ⟨_, rfl⟩
  have habs : |sign| = 1 := by
    rw [hsign]
    cases x.signBit <;> simp
  have hmagnitude := magnitude_nonneg x.pattern
  have hv : |sign * magnitude x.pattern - sign * q| = |magnitude x.pattern - q| := by
    rw [← mul_sub, abs_mul, habs, one_mul]
  rw [← hsign]
  refine ⟨sign * magnitude x.pattern, by rw [rational?_of_lt hfinite, hsign], ?_⟩
  intro y w hw
  have hy := abs_of_rational? hw
  have hfold : |magnitude y.pattern - q| ≤ |w - sign * q| := by
    have := abs_abs_sub_abs_le w (sign * q)
    rwa [hy, abs_mul, habs, one_mul, abs_of_nonneg hq] at this
  rw [hv]
  refine ⟨(h.le y.pattern).trans hfold, ?_⟩
  intro hne heq
  rw [even_fractionField_iff]
  by_cases hsame : magnitude y.pattern = magnitude x.pattern
  · -- The other number is the negated one, and too far.
    exfalso
    have hw' : w = -(sign * magnitude x.pattern) := by
      have hcases : |w| = |sign * magnitude x.pattern| := by
        rw [hy, hsame, abs_mul, habs, one_mul, abs_of_nonneg hmagnitude]
      exact (abs_eq_abs.mp hcases).resolve_left hne
    have hsum : |w - sign * q| = magnitude x.pattern + q := by
      have hfactor : w - sign * q = -(sign * (magnitude x.pattern + q)) := by
        rw [hw']
        ring
      rw [hfactor, abs_neg, abs_mul, habs, one_mul, abs_of_nonneg (by linarith)]
    have hpositive : 0 < magnitude x.pattern := by
      apply lt_of_le_of_ne hmagnitude
      intro hzero
      apply hne
      rw [hw', ← hzero]
      simp
    exact (h.lt_add hq hpositive).ne (heq.symm.trans hsum)
  · apply h.even y.pattern hsame
    exact le_antisymm (hfold.trans heq.le) (h.le y.pattern)

/-- The quotient is rounded to nearest, if it is not beyond the finite numbers. -/
theorem closest_ofRatio (negative : Bool) (hden : 0 < den) (hk : k < infinityPattern)
    (hle : (num : ℚ) / den ≤ magnitude k) :
    Closest ((if negative then -1 else 1) * (num / den)) (ofRatio negative num den) := by
  obtain ⟨p, hp, hnearest⟩ := exists_nearestPattern num hden
  have hpk : p < infinityPattern := (hnearest.le_of_le hle).trans_lt hk
  have hlt : p < 2 ^ 63 := hpk.trans (by decide)
  have hx : ofRatio negative num den = ofPattern negative p := by
    rw [ofRatio, hp, Nat.min_eq_left hpk.le]
  have hclosest := closest_of_nearest (x := ofPattern negative p) (q := num / den)
  rw [pattern_ofPattern hlt, signBit_ofPattern hlt] at hclosest
  rw [hx]
  exact hclosest hpk (by positivity) hnearest

/-- Integers of up to 64 bits are rounded to nearest. -/
theorem closest_ofInt {i : ℤ} (h : i.natAbs ≤ 2 ^ 64) : Closest i (ofInt i) := by
  have hvalue : magnitude (1086 * 2 ^ 52 + 2 ^ 52) = 2 ^ 64 := by
    rw [magnitude_scaled (by norm_num) (Or.inr le_rfl)]
    norm_num
  have hle : (i.natAbs : ℚ) / (1 : Nat) ≤ magnitude (1086 * 2 ^ 52 + 2 ^ 52) := by
    rw [hvalue, Nat.cast_one, div_one]
    exact_mod_cast h
  have hi : (if decide (i < 0) = true then (-1 : ℚ) else 1) * (i.natAbs / (1 : Nat)) = i := by
    rw [Nat.cast_natAbs, Nat.cast_one, div_one]
    by_cases hneg : i < 0
    · rw [if_pos (decide_eq_true hneg), abs_of_neg hneg]
      push_cast
      ring
    · rw [if_neg (by simpa using hneg), abs_of_nonneg (not_lt.mp hneg), one_mul]
  have hclosest := closest_ofRatio (decide (i < 0)) one_pos (by decide) hle
  rwa [hi] at hclosest

/-- A quotient that is a number's magnitude is rounded to that number. -/
theorem ofRatio_of_eq {x : Binary64} (hden : 0 < den) (hx : x.pattern < infinityPattern)
    (h : (num : ℚ) / den = magnitude x.pattern) : ofRatio x.signBit num den = x := by
  obtain ⟨p, hp, hnearest⟩ := exists_nearestPattern num hden
  rw [h] at hnearest
  rw [ofRatio, hp, hnearest.eq_of_eq, Nat.min_eq_left hx.le, ofPattern_pattern]

end Binary64

end StackMachine
