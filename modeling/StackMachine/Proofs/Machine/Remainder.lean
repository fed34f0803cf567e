import StackMachine.Proofs.Binary64.Rounding
import StackMachine.Proofs.Machine.EntryWrite

/-!
# Remainders

The remainder of two numbers is that of the 64-bit integers they stand for.
`Exec.remainder_of_integers` says when there is none, what it is, and which number is pushed for it.
-/

namespace StackMachine

namespace Binary64

variable {x y : Binary64}

theorem remainder?_eq (x y : Binary64) :
    x.remainder? y =
      if y.integer = 0 then none else some (ofInt (x.integer.tmod y.integer)) := by
  rw [remainder?, toWord_eq_integer, toWord_eq_integer]

/-- The remainder of integers: what is left of the first one over a multiple of the second, less
    than that and with the sign of the first. -/
structure RemainderOf (a b m : ℤ) : Prop where
  multiple : ∃ k, a = k * b + m
  lt : |m| < |b|
  sign : m = 0 ∨ m.sign = a.sign

theorem remainderOf_tmod {a b : ℤ} (hb : b ≠ 0) : RemainderOf a b (a.tmod b) where
  multiple := ⟨a.tdiv b, by rw [Int.tdiv_mul_add_tmod]⟩
  lt := by
    rw [Int.abs_eq_natAbs, Int.abs_eq_natAbs, Int.natAbs_tmod]
    exact_mod_cast Nat.mod_lt _ (Int.natAbs_pos.mpr hb)
  sign := by
    by_cases hdvd : b ∣ a
    · exact Or.inl (Int.tmod_eq_zero_of_dvd hdvd)
    · right
      rw [Int.sign_tmod, if_neg hdvd]

/-- The remainder is not larger than what it is left of, so it is a 64-bit integer. -/
theorem natAbs_tmod_integer_le (x : Binary64) (b : ℤ) : (x.integer.tmod b).natAbs ≤ 2 ^ 64 := by
  rw [Int.natAbs_tmod]
  calc x.integer.natAbs % b.natAbs ≤ x.integer.natAbs := Nat.mod_le _ _
    _ ≤ 2 ^ 63 := natAbs_integer_le x
    _ ≤ 2 ^ 64 := by norm_num

end Binary64

namespace Exec

variable {p : Program} {cfg : Settings} {i : Instruction} {s : State} {l r : Binary64}
  {rest : Stack Value}

theorem instruction_mod (hop : i.op = .mod)
    (htop : s.operands.topDown = .number r :: .number l :: rest.topDown) :
    instruction p cfg i s = match l.remainder? r with
      | some z => .ok .next { s with operands := rest.push (.number z) }
      | none => .error .divisionByZero { s with operands := rest } := by
  obtain ⟨op, operand⟩ := i
  cases hop
  let above := rest.push (.number l)
  have hr : pop s = .ok (.number r) { s with operands := above } := pop_of_topDown htop
  have hl : pop { s with operands := above } = .ok (.number l) { s with operands := rest } :=
    pop_of_topDown rfl
  simp only [instruction, binaryOperator, bind, EStateM.bind, hr, hl, binary]
  cases l.remainder? r <;> rfl

/-- The remainder instruction works on the 64-bit integers that its operands stand for.  It fails
    exactly if the right one counts as zero, which NaNs and the numbers between minus one and one
    do.  Otherwise it pushes the number nearest to the remainder, and positive zero for zero. -/
theorem remainder_of_integers (hop : i.op = .mod)
    (htop : s.operands.topDown = .number r :: .number l :: rest.topDown) :
    ((∃ t, instruction p cfg i s = .error .divisionByZero t) ↔ r.integer = 0) ∧
    (r.integer = 0 ↔ r.isNaN ∨ ∃ q, r.rational? = some q ∧ |q| < 1) ∧
    (r.integer ≠ 0 → ∃ m z,
      instruction p cfg i s = .ok .next { s with operands := rest.push (.number z) } ∧
      Binary64.RemainderOf l.integer r.integer m ∧ Binary64.Closest m z ∧
      (m = 0 → z = ⟨0⟩)) := by
  rw [instruction_mod hop htop, Binary64.remainder?_eq]
  refine ⟨?_, Binary64.integer_eq_zero_iff, ?_⟩
  · by_cases hzero : r.integer = 0 <;> simp [hzero]
  · intro hne
    rw [if_neg hne]
    refine ⟨_, _, rfl, Binary64.remainderOf_tmod hne, ?_, ?_⟩
    · exact Binary64.closest_ofInt (Binary64.natAbs_tmod_integer_le l r.integer)
    · intro hzero
      rw [hzero]
      rfl

/-- The one quotient that is no 64-bit integer, and a divisor that counts as zero though it is
    none. -/
theorem remainder_of_integers_overflow :
    let least : Binary64 := ⟨0xC3E0000000000000⟩
    let start (r : Binary64) : State := { State.initial default {} with
      operands := .ofTopDown [.number r, .number least] }
    instruction default {} ⟨.mod, 0⟩ (start ⟨0xBFF0000000000000⟩) =
        .ok .next { start ⟨0xBFF0000000000000⟩ with operands := .ofTopDown [.number ⟨0⟩] } ∧
      ∃ t, instruction default {} ⟨.mod, 0⟩ (start ⟨0xBFEFFFFFFFFFFFFF⟩) =
        .error .divisionByZero t := by
  intro least start
  have hone : (⟨0xBFF0000000000000⟩ : Binary64).integer = -1 := by
    rw [← Binary64.toWord_eq_integer]
    decide
  have hsmall : (⟨0xBFEFFFFFFFFFFFFF⟩ : Binary64).integer = 0 := by
    rw [← Binary64.toWord_eq_integer]
    decide
  have htop (r : Binary64) : (start r).operands.topDown =
      .number r :: .number least :: Stack.empty.topDown := rfl
  obtain ⟨-, -, hsome⟩ := @remainder_of_integers default {} ⟨.mod, 0⟩ _ _ _ _ rfl
    (htop ⟨0xBFF0000000000000⟩)
  obtain ⟨m, z, hpush, hremainder, -, hzero⟩ := hsome (by rw [hone]; decide)
  have hm : m = 0 := by
    have hlt := hremainder.lt
    rw [hone] at hlt
    exact Int.abs_lt_one_iff.mp hlt
  rw [hzero hm] at hpush
  refine ⟨hpush, ?_⟩
  exact (remainder_of_integers rfl (htop ⟨0xBFEFFFFFFFFFFFFF⟩)).1.mpr hsmall

end Exec

end StackMachine
