import StackMachine.Proofs.Machine.EntryWrite

/-!
# Copies of objects

A copy has the entries of its original, the link to the prototype included, so their chains are the
same but for where they start.  That holds as well where the chain of the original comes back to
it: a lookup from the copy then passes the original, which has nothing that the copy lacks.
`Exec.copy_apart` says that the two are looked up alike, and that writes to the one leave the
other as it is.
-/

namespace StackMachine

namespace Store

variable {st st' : Store} {o p q : ObjectRef} {key : String} {v : Value}

/-- Objects with the same entries are looked up alike. -/
theorem get?_of_entries_eq (h : st.entries p = st.entries o) (key : String) :
    st.get? p key = st.get? o key := by
  have hown : st.own? p key = st.own? o key := congrArg (Table.get? · key) h
  have hproto : st.proto? p = st.proto? o := congrArg Table.proto? h
  cases hvalue : st.own? o key with
  | some v => rw [get?_of_own? hvalue, get?_of_own? (hown.trans hvalue)]
  | none =>
    have hnone := hown.trans hvalue
    cases hlink : st.proto? o with
    | none =>
      rw [get?_of_proto?_eq_none hvalue hlink, get?_of_proto?_eq_none hnone (hproto.trans hlink)]
    | some q => rw [get?_of_proto? hvalue hlink, get?_of_proto? hnone (hproto.trans hlink)]

/-! ## Chains beside a copy -/

/-- Only an object of the store has entries. -/
theorem lt_size_of_own? (h : st.own? o key = some v) : o < st.objects.size := by
  apply Nat.lt_of_not_le
  intro hle
  have hnone : st.entries o = .empty := by
    simp [entries, Array.getD_eq_getD_getElem?, Array.getElem?_eq_none hle]
  simp [own?, hnone] at h

theorem entries_copyObject (st : Store) (o p : ObjectRef) :
    (st.copyObject o).2.entries p = st.entries (if p = st.objects.size then o else p) := by
  rw [copyObject, entries_newObject]
  split <;> rfl

theorem own?_copyObject (st : Store) (o p : ObjectRef) (key : String) :
    (st.copyObject o).2.own? p key = st.own? (if p = st.objects.size then o else p) key :=
  congrArg (Table.get? · key) (entries_copyObject st o p)

theorem proto?_copyObject (st : Store) (o p : ObjectRef) :
    (st.copyObject o).2.proto? p = st.proto? (if p = st.objects.size then o else p) :=
  congrArg Table.proto? (entries_copyObject st o p)

/-- Beside its copy the original has no object on its chain that it had not before, other than the
    copy. -/
theorem linked?_of_linked?_copyObject {n : Nat} (h : (st.copyObject o).2.linked? o n = some p) :
    ∃ m, st.linked? o m = some (if p = st.objects.size then o else p) := by
  induction n generalizing p with
  | zero =>
    cases h
    exact ⟨0, by simp [linked?]⟩
  | succ n ih =>
    obtain ⟨q, hq, hproto⟩ := Option.bind_eq_some_iff.mp h
    rw [proto?_copyObject] at hproto
    obtain ⟨m, hm⟩ := ih hq
    split
    · exact ⟨0, rfl⟩
    · refine ⟨m + 1, ?_⟩
      rw [linked?, hm]
      exact hproto

/-- A new object takes nothing off a chain. -/
theorem linked?_copyObject {n : Nat} (h : st.linked? p n = some q) :
    (st.copyObject o).2.linked? p n = some q := by
  induction n generalizing q with
  | zero => exact h
  | succ n ih =>
    obtain ⟨r, hr, hproto⟩ := Option.bind_eq_some_iff.mp h
    have hold : r ≠ st.objects.size := Nat.ne_of_lt (lt_size_of_proto? hproto)
    rw [linked?, ih hr, Option.bind_some, proto?_copyObject, if_neg hold, hproto]

theorem exists_linked?_of_lt {m n : Nat} (h : st.linked? o n = some p) (hm : m < n) :
    ∃ q, st.linked? o m = some q := by
  induction n generalizing p with
  | zero => exact absurd hm (Nat.not_lt_zero m)
  | succ n ih =>
    obtain ⟨r, hr, -⟩ := Option.bind_eq_some_iff.mp h
    rcases Nat.lt_succ_iff_lt_or_eq.mp hm with hlt | rfl
    · exact ih hr hlt
    · exact ⟨r, hr⟩

/-- The original is looked up beside its copy as it was before. -/
theorem get?_copyObject_self (st : Store) (o : ObjectRef) (key : String) :
    (st.copyObject o).2.get? o key = st.get? o key := by
  cases hget : st.get? o key with
  | none =>
    rw [get?_eq_none_iff] at hget ⊢
    intro n q hq
    obtain ⟨m, hm⟩ := linked?_of_linked?_copyObject hq
    rw [own?_copyObject]
    exact hget m _ hm
  | some v =>
    rw [get?_eq_some_iff] at hget ⊢
    obtain ⟨n, p, hp, hv, hbefore⟩ := hget
    refine ⟨n, p, linked?_copyObject hp, ?_, fun m hm q hq => ?_⟩
    · rw [own?_copyObject, if_neg (Nat.ne_of_lt (lt_size_of_own? hv)), hv]
    · obtain ⟨r, hr⟩ := exists_linked?_of_lt hp hm
      cases (linked?_copyObject hr).symm.trans hq
      rw [own?_copyObject]
      -- The copy can stand where a link led nowhere, and lacks there what the original lacks.
      split
      · exact hbefore 0 (Nat.zero_lt_of_lt hm) o rfl
      · exact hbefore m hm q hr

end Store

/-- SET instructions are executed, one after the other, that all write to the object `o`. -/
inductive Store.Rewrites (o : ObjectRef) : Store → Store → Prop
  | refl (st : Store) : Rewrites o st st
  | set {p : Program} {cfg : Settings} {i : Instruction} {s t : State} {flow : Flow} {st : Store}
      {key : String} {v : Value} {rest : Stack Value} (h : Rewrites o st s.store)
      (hop : i.op = .set) (htop : s.operands.topDown = v :: .text key :: .object o :: rest.topDown)
      (hstep : Exec.instruction p cfg i s = .ok flow t) : Rewrites o st t.store

namespace Store

variable {st st' : Store} {o p : ObjectRef}

/-- All other objects are as they were. -/
theorem Rewrites.entries_eq (h : Rewrites o st st') (hp : p ≠ o) : st'.entries p = st.entries p := by
  induction h with
  | refl => rfl
  | set _ hop htop hstep ih =>
    cases hstep.symm.trans (Exec.instruction_set_entry hop htop)
    rw [entries_set, if_neg fun heq => hp heq.1.symm, ih]

end Store

namespace Exec

variable {st : Store} {o : ObjectRef}

/-- A copy is another object than the original, with the same own entries, and gives the same for
    every key, which is what the original gave before and gives still.  After any writes to one of
    the two the other one has the entries that it had. -/
theorem copy_apart (ho : o < st.objects.size) (args : List Value) :
    ∃ c st', Library.callBuiltin (.object o) args .copy st = .ok (.object c) st' ∧
      binary .eq (.object c) (.object o) = .ok (.bool false) ∧
      st'.entries c = st.entries o ∧ st'.entries o = st.entries o ∧
      (∀ key, st'.get? c key = st'.get? o key ∧ st'.get? o key = st.get? o key) ∧
      (∀ later, st'.Rewrites c later → later.entries o = st.entries o) ∧
      ∀ later, st'.Rewrites o later → later.entries c = st.entries o := by
  have hne : o ≠ st.objects.size := Nat.ne_of_lt ho
  have hcopy : (st.copyObject o).2.entries st.objects.size = st.entries o := by
    rw [Store.entries_copyObject, if_pos rfl]
  have hself : (st.copyObject o).2.entries o = st.entries o := by
    rw [Store.entries_copyObject, if_neg hne]
  refine ⟨st.objects.size, (st.copyObject o).2, rfl, ?_, hcopy, hself, fun key => ⟨?_, ?_⟩, ?_, ?_⟩
  · simp [binary, Value.equal, hne.symm]
  · exact Store.get?_of_entries_eq (hcopy.trans hself.symm) key
  · exact Store.get?_copyObject_self st o key
  · intro later hlater
    rw [hlater.entries_eq hne, hself]
  · intro later hlater
    rw [hlater.entries_eq hne.symm, hcopy]

/-- The objects 0 and 1 are each other's prototypes.  A copy of 0 finds the entry of 1, and does not
    look for a key without end that is nowhere; a write of the key to the copy is not one to 0, and
    the other way round. -/
theorem copy_apart_cycle :
    let st : Store := { (default : Store) with
      objects := #[Store.linkedTo 1, (Store.linkedTo 0).insert "k" (.bool true)] }
    0 < st.objects.size ∧ ∃ c st',
      Library.callBuiltin (.object 0) [] .copy st = .ok (.object c) st' ∧
      st'.get? c "k" = some (.bool true) ∧ st'.get? c "x" = none ∧
      (∃ later, st'.Rewrites c later ∧ later.own? c "k" = some (.bool false) ∧
        later.entries 0 = st.entries 0) ∧
      ∃ later, st'.Rewrites 0 later ∧ later.own? 0 "k" = some (.bool false) ∧
        later.entries c = st.entries 0 := by
  intro st
  have ho : 0 < st.objects.size := by decide
  have hlink : st.proto? 0 = some 1 := by
    simp [st, Store.proto?, Store.entries, Table.proto?, Store.linkedTo]
  have hfound : st.get? 0 "k" = some (.bool true) := by
    rw [Store.get?_of_proto? ?_ hlink, Store.get?_of_own?]
    all_goals simp [st, Store.own?, Store.entries, Store.linkedTo, protoKey]
  have habsent : st.get? 0 "x" = none := by
    rw [Store.get?_eq_none_iff]
    intro n q _
    rcases q with _ | _ | q
    all_goals simp [st, Store.own?, Store.entries, Store.linkedTo, protoKey]
  obtain ⟨c, st', hcall, -, -, -, hget, horiginal, hcopy⟩ := copy_apart ho []
  have hset : ∀ q, st'.Rewrites q (st'.set q "k" (.bool false)) := by
    intro q
    let s : State := { State.initial st' {} with
      operands := .ofTopDown [.bool false, .text "k", .object q] }
    have htop : s.operands.topDown =
        .bool false :: .text "k" :: .object q :: (Stack.empty : Stack Value).topDown := rfl
    have hstep : instruction default {} ⟨.set, 0⟩ s = .ok .next _ := instruction_set_entry rfl htop
    exact .set (.refl st') rfl htop hstep
  refine ⟨ho, c, st', hcall, ?_, ?_, ⟨_, hset c, ?_, horiginal _ (hset c)⟩,
    ⟨_, hset 0, ?_, hcopy _ (hset 0)⟩⟩
  · rw [(hget "k").1, (hget "k").2, hfound]
  · rw [(hget "x").1, (hget "x").2, habsent]
  · cases hcall
    exact Store.own?_set_self (by decide) "k" _
  · cases hcall
    exact Store.own?_set_self (by decide) "k" _

end Exec

end StackMachine
