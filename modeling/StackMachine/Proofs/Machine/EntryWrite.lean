import Mathlib.Data.Nat.Find
import StackMachine.Proofs.Machine.Operation
import StackMachine.Proofs.Store.Cells

/-!
# Writes to objects

An object may be the prototype of many others, of itself or of one of its own prototypes, so that
one write can be seen from many objects.  `Exec.lookups_after_set` says from which: those on whose
chain the object is, with no entry of that key in front of it.  Nothing else that a lookup can find
changes.
-/

namespace StackMachine

namespace Store

variable {st st' : Store} {o p : ObjectRef} {key other : String} {v : Value}

/-- The object `o` is on the chain of `p`, and no object in front of its first position there has
    the key. -/
def Exposed (st : Store) (p o : ObjectRef) (key : String) : Prop :=
  ∃ n, st.linked? p n = some o ∧ (∀ m < n, st.linked? p m ≠ some o) ∧
    ∀ m < n, ∀ q, st.linked? p m = some q → st.own? q key = none

/-! ## Links after a write -/

theorem proto?_set (hkey : key ≠ protoKey) (o p : ObjectRef) (v : Value) :
    (st.set o key v).proto? p = st.proto? p := by
  rw [proto?, entries_set]
  split
  · simp [proto?, Table.proto?, hkey.symm]
  · rfl

/-- A write under any other key than that of the link leaves all chains as they are. -/
theorem linked?_set (hkey : key ≠ protoKey) (o p : ObjectRef) (v : Value) (n : Nat) :
    (st.set o key v).linked? p n = st.linked? p n := by
  induction n with
  | zero => rfl
  | succ n ih =>
    simp only [linked?, ih]
    congr 1
    funext q
    exact proto?_set hkey o q v

/-! ## Lookups after a write -/

/-- Objects along the same chain with the same entries are looked up alike. -/
theorem get?_congr (hlinks : ∀ n, st'.linked? p n = st.linked? p n)
    (hown : ∀ n q, st.linked? p n = some q → st'.own? q key = st.own? q key) :
    st'.get? p key = st.get? p key := by
  cases hget : st.get? p key with
  | none =>
    rw [get?_eq_none_iff] at hget ⊢
    intro n q hq
    rw [hlinks] at hq
    rw [hown n q hq]
    exact hget n q hq
  | some w =>
    rw [get?_eq_some_iff] at hget ⊢
    obtain ⟨n, q, hq, hw, hbefore⟩ := hget
    refine ⟨n, q, (hlinks n).trans hq, (hown n q hq).trans hw, ?_⟩
    intro m hm r hr
    rw [hlinks] at hr
    rw [hown m r hr]
    exact hbefore m hm r hr

/-- Where an entry in front of the object hides it, the nearest entry is in front of it too. -/
theorem get?_set_of_hidden {n : Nat} (hkey : key ≠ protoKey)
    (hfirst : ∀ m < n, st.linked? p m ≠ some o) {k : Nat} {r : ObjectRef} (hk : k < n)
    (hr : st.linked? p k = some r) (hown : st.own? r key ≠ none) (v : Value) :
    (st.set o key v).get? p key = st.get? p key := by
  cases hget : st.get? p key with
  | none => exact absurd (get?_eq_none_iff.mp hget k r hr) hown
  | some w =>
    rw [get?_eq_some_iff] at hget ⊢
    obtain ⟨j, q, hq, hw, hbefore⟩ := hget
    have hjk : j ≤ k := by
      apply Nat.le_of_not_lt
      intro hlt
      exact hown (hbefore k hlt r hr)
    have hother : ∀ m ≤ j, ∀ x, st.linked? p m = some x →
        (st.set o key v).own? x key = st.own? x key := by
      intro m hm x hx
      apply own?_set_of_ne
      left
      rintro rfl
      exact hfirst m (by omega) hx
    refine ⟨j, q, (linked?_set hkey o p v j).trans hq, (hother j (Nat.le_refl j) q hq).trans hw, ?_⟩
    intro m hm x hx
    rw [linked?_set hkey] at hx
    rw [hother m (Nat.le_of_lt hm) x hx]
    exact hbefore m hm x hx

theorem get?_set_of_exposed (hkey : key ≠ protoKey) (ho : o < st.objects.size)
    (h : st.Exposed p o key) (v : Value) : (st.set o key v).get? p key = some v := by
  obtain ⟨n, hn, hfirst, hbefore⟩ := h
  rw [get?_eq_some_iff]
  refine ⟨n, o, (linked?_set hkey o p v n).trans hn, own?_set_self ho key v, ?_⟩
  intro m hm q hq
  rw [linked?_set hkey] at hq
  have hne : q ≠ o := by
    rintro rfl
    exact hfirst m hm hq
  rw [own?_set_of_ne (Or.inl hne)]
  exact hbefore m hm q hq

theorem get?_set_of_not_exposed (hkey : key ≠ protoKey) (h : ¬st.Exposed p o key) (v : Value) :
    (st.set o key v).get? p key = st.get? p key := by
  by_cases hchain : ∃ n, st.linked? p n = some o
  · -- The object has a first position on the chain, and something in front of that has the key.
    classical
    have hn := Nat.find_spec hchain
    have hfirst : ∀ m < Nat.find hchain, st.linked? p m ≠ some o := fun m hm =>
      Nat.find_min hchain hm
    have hhidden : ∃ k < Nat.find hchain, ∃ r, st.linked? p k = some r ∧ st.own? r key ≠ none := by
      by_contra hnone
      apply h
      refine ⟨Nat.find hchain, hn, hfirst, ?_⟩
      intro m hm q hq
      by_contra hown
      exact hnone ⟨m, hm, q, hq, hown⟩
    obtain ⟨k, hk, r, hr, hown⟩ := hhidden
    exact get?_set_of_hidden hkey hfirst hk hr hown v
  · apply get?_congr (linked?_set hkey o p v)
    intro n q hq
    apply own?_set_of_ne
    left
    rintro rfl
    exact hchain ⟨n, hq⟩

theorem get?_set_of_ne (hkey : key ≠ protoKey) (hother : other ≠ key) (o p : ObjectRef)
    (v : Value) : (st.set o key v).get? p other = st.get? p other := by
  apply get?_congr (linked?_set hkey o p v)
  intro n q _
  exact own?_set_of_ne (Or.inr hother) v

end Store

/-! ## The instruction -/

namespace Exec

variable {p : Program} {cfg : Settings} {i : Instruction} {s : State} {o : ObjectRef}
  {key : String} {v : Value} {rest : Stack Value}

theorem pop_of_topDown {v : Value} (h : s.operands.topDown = v :: rest.topDown) :
    pop s = .ok v { s with operands := rest } := by
  simp [pop, Stack.pop?_eq_some_iff.mpr h]

/-- A write to an object with a text for a key always ends well. -/
theorem instruction_set_entry (hop : i.op = .set)
    (htop : s.operands.topDown = v :: .text key :: .object o :: rest.topDown) :
    instruction p cfg i s =
      .ok .next { s with operands := rest.push v, store := s.store.set o key v } := by
  obtain ⟨op, operand⟩ := i
  cases hop
  let above := rest.push (.object o)
  have hv : pop s = .ok v { s with operands := above.push (.text key) } := pop_of_topDown htop
  have hkey : pop { s with operands := above.push (.text key) } =
      .ok (.text key) { s with operands := above } := pop_of_topDown rfl
  have ho : pop { s with operands := above } = .ok (.object o) { s with operands := rest } :=
    pop_of_topDown rfl
  simp only [instruction, setProperty, bind, EStateM.bind, hv, hkey, ho]
  rfl

/-- A write of a value under a key of an object leaves all prototype chains and all lookups of
    other keys as they were.  A lookup of the key finds the value from every object on whose chain
    the written one is, unless an object in front of it has the key, and finds what it found before
    from all others. -/
theorem lookups_after_set (hop : i.op = .set)
    (htop : s.operands.topDown = v :: .text key :: .object o :: rest.topDown)
    (ho : o < s.store.objects.size) (hkey : key ≠ protoKey) :
    ∃ t, instruction p cfg i s = .ok .next t ∧
      (∀ q n, t.store.linked? q n = s.store.linked? q n) ∧
      (∀ q other, other ≠ key → t.store.get? q other = s.store.get? q other) ∧
      ∀ q, (s.store.Exposed q o key → t.store.get? q key = some v) ∧
        (¬s.store.Exposed q o key → t.store.get? q key = s.store.get? q key) := by
  refine ⟨_, instruction_set_entry hop htop, ?_, ?_, ?_⟩
  · intro q n
    exact Store.linked?_set hkey o q v n
  · intro q other hother
    exact Store.get?_set_of_ne hkey hother o q v
  · intro q
    exact ⟨fun h => Store.get?_set_of_exposed hkey ho h v,
      fun h => Store.get?_set_of_not_exposed hkey h v⟩

/-- The chains of the objects 0 and 3 run into the cycle of 1 and 2, and 1 has the key.  What is
    written to 2 is seen from there and through the link of 3, but hidden by 1 from 0. -/
theorem lookups_after_set_cycle :
    let st : Store := { (default : Store) with
      objects := #[Store.linkedTo 1, (Store.linkedTo 2).insert "k" (.bool true), Store.linkedTo 1,
        Store.linkedTo 2] }
    let s : State := { State.initial st {} with
      operands := .ofTopDown [.bool false, .text "k", .object 2] }
    st.Exposed 2 2 "k" ∧ st.Exposed 3 2 "k" ∧ ¬st.Exposed 0 2 "k" ∧
      ∃ t, instruction default {} ⟨.set, 0⟩ s = .ok .next t ∧
        t.store.get? 2 "k" = some (.bool false) ∧ t.store.get? 3 "k" = some (.bool false) ∧
        t.store.get? 0 "k" = s.store.get? 0 "k" := by
  intro st s
  have hlink₀ : st.linked? 0 1 = some 1 := by
    simp [st, Store.linked?, Store.proto?, Store.entries, Table.proto?, Store.linkedTo]
  have hown : st.own? 1 "k" = some (.bool true) := by
    simp [st, Store.own?, Store.entries]
  have hexposed : st.Exposed 2 2 "k" := ⟨0, rfl, by simp, by simp⟩
  have hlinked : st.Exposed 3 2 "k" := by
    refine ⟨1, ?_, ?_, ?_⟩
    · simp [st, Store.linked?, Store.proto?, Store.entries, Table.proto?, Store.linkedTo]
    · simp [Store.linked?]
    · simp [st, Store.linked?, Store.own?, Store.entries, Store.linkedTo, protoKey]
  have hhidden : ¬st.Exposed 0 2 "k" := by
    rintro ⟨n, hn, -, hbefore⟩
    have hlt : 1 < n := by
      rcases n with _ | _ | n
      · simp [Store.linked?] at hn
      · simp [hlink₀] at hn
      · omega
    have hnone := hbefore 1 hlt 1 hlink₀
    simp [hown] at hnone
  have hsize : 2 < s.store.objects.size := by simp [s, st, State.initial]
  have htop : s.operands.topDown =
      .bool false :: .text "k" :: .object 2 :: (Stack.empty : Stack Value).topDown := rfl
  have hkey : "k" ≠ protoKey := by decide
  obtain ⟨t, ht, -, -, hget⟩ := lookups_after_set (i := ⟨.set, 0⟩) rfl htop hsize hkey
  exact ⟨hexposed, hlinked, hhidden, t, ht, (hget 2).1 hexposed, (hget 3).1 hlinked,
    (hget 0).2 hhidden⟩

end Exec

end StackMachine
