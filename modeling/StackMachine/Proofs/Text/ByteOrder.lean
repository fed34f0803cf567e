import Mathlib.Tactic.SplitIfs
import StackMachine.Text.Utf8

/-!
# The order of UTF-8

Texts are ordered by their code points.  UTF-8 is made so that this is also the order of the bytes
(`Text.utf8_lt_iff`): where two characters differ, so do their bytes, and the first bytes that
differ are ordered like the characters.
-/

namespace StackMachine.Text

/-- The bytes differ at some place that both have, and at the first such place the byte on the left
    is smaller. -/
inductive Precedes : List UInt8 → List UInt8 → Prop
  | here {a b : UInt8} {as bs : List UInt8} (h : a < b) : Precedes (a :: as) (b :: bs)
  | later {a : UInt8} {as bs : List UInt8} (h : Precedes as bs) : Precedes (a :: as) (a :: bs)

@[simp]
theorem precedes_cons_iff {a b : UInt8} {as bs : List UInt8} :
    Precedes (a :: as) (b :: bs) ↔ a.toNat < b.toNat ∨ a.toNat = b.toNat ∧ Precedes as bs := by
  constructor
  · intro h
    cases h with
    | here h => exact Or.inl (UInt8.lt_iff_toNat_lt.mp h)
    | later h => exact Or.inr ⟨rfl, h⟩
  · rintro (h | ⟨heq, h⟩)
    · exact .here (UInt8.lt_iff_toNat_lt.mpr h)
    · obtain rfl := UInt8.toNat_inj.mp heq
      exact .later h

/-- Whatever follows does not change the order. -/
theorem Precedes.append_lt {as bs : List UInt8} (h : Precedes as bs) (as' bs' : List UInt8) :
    as ++ as' < bs ++ bs' := by
  induction h with
  | here h => exact List.cons_lt_cons_iff.mpr (Or.inl h)
  | later _ ih => exact List.cons_lt_cons_iff.mpr (Or.inr ⟨rfl, ih⟩)

@[simp]
theorem not_precedes_nil (bs : List UInt8) : ¬Precedes [] bs := nofun

/-- Characters are ordered like their bytes. -/
theorem precedes_utf8EncodeChar {c d : Char} (h : c < d) :
    Precedes (String.utf8EncodeChar c) (String.utf8EncodeChar d) := by
  have hlt : c.val.toNat < d.val.toNat := h
  have hd : d.val.toNat < 0x110000 := by
    rcases d.valid with hvalid | hvalid <;> omega
  -- The bytes hold the digits to base 64.
  have hdigits : ∀ n : Nat, n / 4096 = n / 64 / 64 ∧ n / 262144 = n / 64 / 64 / 64 := by
    intro n
    omega
  unfold String.utf8EncodeChar
  simp only [hdigits]
  -- One case for each two lengths of the characters' codes.
  split_ifs <;>
    simp (disch := omega) only [precedes_cons_iff, UInt8.toNat_ofNat', not_precedes_nil,
      Nat.mod_eq_of_lt] <;>
    omega

theorem flatMap_utf8EncodeChar_lt {cs ds : List Char} (h : cs < ds) :
    cs.flatMap String.utf8EncodeChar < ds.flatMap String.utf8EncodeChar := by
  induction cs generalizing ds with
  | nil =>
    cases ds with
    | nil => exact absurd h (List.lt_irrefl [])
    | cons d ds =>
      obtain ⟨b, bs, hbytes⟩ := List.exists_cons_of_ne_nil (String.utf8EncodeChar_ne_nil (c := d))
      rw [List.flatMap_nil, List.flatMap_cons, hbytes]
      exact List.nil_lt_cons b _
  | cons c cs ih =>
    cases ds with
    | nil => cases h
    | cons d ds =>
      rw [List.flatMap_cons, List.flatMap_cons]
      rcases List.cons_lt_cons_iff.mp h with hcd | ⟨rfl, hrest⟩
      · exact (precedes_utf8EncodeChar hcd).append_lt _ _
      · exact List.append_left_lt (ih hrest)

theorem utf8_eq_flatMap (s : String) : utf8 s = s.toList.flatMap String.utf8EncodeChar := by
  rw [utf8, String.toUTF8_eq_toByteArray, ← String.utf8Encode_toList, List.utf8Encode]
  simp

theorem utf8_lt_of_lt {s t : String} (h : s < t) : utf8 s < utf8 t := by
  rw [utf8_eq_flatMap, utf8_eq_flatMap]
  exact flatMap_utf8EncodeChar_lt (String.lt_iff.mp h)

/-- Texts are ordered like their bytes. -/
theorem utf8_lt_iff {s t : String} : utf8 s < utf8 t ↔ s < t := by
  refine ⟨fun h => ?_, utf8_lt_of_lt⟩
  rcases Std.lt_trichotomy s t with hlt | rfl | hgt
  · exact hlt
  · exact absurd h (List.lt_irrefl _)
  · exact absurd h (List.lt_asymm (utf8_lt_of_lt hgt))

end StackMachine.Text
