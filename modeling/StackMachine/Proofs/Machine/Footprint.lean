import StackMachine.Proofs.Library.Effect
import StackMachine.Proofs.Machine.Effect
import StackMachine.Proofs.Store.Cells

/-!
# What an instruction writes

Arrays, objects and scopes are shared, so that it matters which of them an instruction can write
to.  It is at most one cell (`State.Writes`): the name that is declared or assigned to, or the
property that is set.  Only three functions of the library change more, namely the array that they
are called on.  Everything else that was in the store stays as it was
(`State.writesOneCell_of_instruction`).
-/

namespace StackMachine

namespace Store

variable {st : Store} {s b c : ScopeRef} {name : String}

/-- The scope that a walk outward finds is the nearest that binds the name. -/
theorem binds_of_binder? (h : st.binder? s name = some b) : st.Binds s name b := by
  fun_induction binder? st s name with
  | case1 s hown =>
    cases h
    exact ⟨.refl st _ name, hown⟩
  | case2 s hown p hp hlt ih =>
    have hnone : st.ownBinding? s name = none := by simpa using hown
    rw [binds_iff_of_own_eq_none hnone]
    exact ⟨p, hp, ih h⟩
  | case3 => cases h
  | case4 => cases h

/-- No two scopes are the nearest that binds a name. -/
theorem Binds.unique (hb : st.Binds s name b) (hc : st.Binds s name c) : b = c := by
  obtain ⟨⟨n, hn, hbefore⟩, hown⟩ := hb
  obtain ⟨⟨m, hm, hbefore'⟩, hown'⟩ := hc
  rcases Nat.lt_trichotomy n m with hlt | heq | hgt
  · simp [hbefore' n hlt b hn] at hown
  · subst heq
    exact Option.some.inj (hn.symm.trans hm)
  · simp [hbefore m hgt c hm] at hown'

/-- The value is a container that `st` does not have, and `st'` is `st` with that container. -/
inductive Adds (st : Store) : Value → Store → Prop
  | array (items : Array Value) : Adds st (.array st.arrays.size) (st.newArray items).2
  | object (entries : Table Value) : Adds st (.object st.objects.size) (st.newObject entries).2

end Store

/-! ## Natives -/

namespace Library

variable {site v : Value} {args : List Value} {st st' : Store} {b : Builtin} {W : Cell → Prop}

/-- A function of the host that ends well has changed nothing that was in the store. -/
def Host.EndsClean (host : Host) : Prop :=
  ∀ number site args st v st', host number site args st = .ok v st' → st.Kept st'

/-- The functions of the library that give a fresh container. -/
def makers : List Builtin :=
  [.newArray, .arrayOf, .newObject, .objectOf, .copy, .keys, .values, .split]

/-- The functions of the library that change the array they are called on. -/
def arrayChangers : List Builtin := [.insert, .remove, .push]

theorem adds_of_objectOf (h : objectOf args st = .ok v st') : st.Adds v st' := by
  unfold objectOf at h
  split at h
  · cases h
  · cases hpairs : writePairs (Store.linkedTo Prototype.object.ref) args with
    | error key =>
      rw [hpairs] at h
      cases h
    | ok entries =>
      rw [hpairs] at h
      cases h
      exact .object entries

theorem adds_of_makers (hb : b ∈ makers) (h : callBuiltin site args b st = .ok v st') :
    st.Adds v st' := by
  cases b
  case newArray | arrayOf =>
    cases h
    exact .array _
  case newObject =>
    cases h
    exact .object _
  case objectOf => exact adds_of_objectOf h
  case copy =>
    obtain ⟨o, u, -, -, h⟩ := check_eq_ok h
    cases read_eq_ok h
    exact .object _
  case keys | values =>
    obtain ⟨o, u, -, -, h⟩ := check_eq_ok h
    cases read_eq_ok h
    exact .array _
  case split =>
    obtain ⟨s, u, -, -, h⟩ := check_eq_ok h
    obtain ⟨separator, w, -, -, h⟩ := check_eq_ok h
    cases h
    exact .array _
  all_goals simp [makers] at hb

/-- A function of the library writes to the array it is called on, if to anything. -/
theorem keptBut_of_callBuiltin
    (hW : ∀ r n, b ∈ arrayChangers → site = .array r → W (.item r n))
    (h : callBuiltin site args b st = .ok v st') : st.KeptBut W st' := by
  cases effect_of_callBuiltin h with
  | looks => exact .of_eq rfl rfl rfl
  | reads_clock => exact .of_eq rfl rfl rfl
  | makes_array => exact Store.keptBut_newArray st _
  | makes_object => exact Store.keptBut_newObject st _
  | changes_array hb hsite =>
    apply Store.keptBut_modifyArray
    intro n _
    exact hW _ n hb hsite

theorem keptBut_of_callWith {host : Host} (hhost : host.EndsClean) {native : Native}
    (hW : ∀ b r n, native.body = .builtin b → b ∈ arrayChangers → site = .array r → W (.item r n))
    (h : callWith host native site args st = .ok v st') : st.KeptBut W st' := by
  obtain ⟨name, arity, body⟩ := native
  cases body with
  | builtin b => exact keptBut_of_callBuiltin (fun r n => hW b r n rfl) h
  | host f =>
    cases f with
    | collect =>
      cases h
      exact Store.keptBut_newArray st _
    | callSite | count =>
      cases h
      exact .of_eq rfl rfl rfl
    | fail message => cases h
    | supplied number => exact (hhost number site args st v st' h).keptBut

end Library

namespace Target

/-- Only entries of objects and items of arrays can be set. -/
theorem of_eq_ok {container key : Value} {target : Target} (h : of container key = .ok target) :
    (∃ o name, container = .object o ∧ key = .text name ∧ target = .entry o name) ∨
      ∃ r x, container = .array r ∧ key = .number x ∧ target = .item r x := by
  unfold of at h
  split at h <;> cases h
  · exact Or.inl ⟨_, _, rfl, rfl, rfl⟩
  · exact Or.inr ⟨_, _, rfl, rfl, rfl⟩

end Target

/-- An item that is set is the only one to change, and is there already. -/
theorem Items.set_eq_or {items : Array Value} {x : Binary64} {v : Value} {n : Nat}
    (h : (set items x v)[n]? ≠ items[n]?) : x.index? = some n ∧ n < items.size := by
  unfold set at h
  cases hx : x.index? with
  | none => simp [hx] at h
  | some k =>
    simp only [hx, Array.getElem?_setIfInBounds] at h
    by_cases hkn : k = n
    · subst hkn
      by_cases hlt : k < items.size
      · exact ⟨rfl, hlt⟩
      · simp [hlt] at h
    · simp [hkn] at h

namespace State

variable {p : Program} {cfg : Settings} {s t : State} {i : Instruction} {c c' : Cell} {flow : Flow}

/-! ## Cells that are written -/

/-- The instruction writes to the cell when it is executed in this state. -/
inductive Writes (p : Program) (s : State) (i : Instruction) : Cell → Prop
  /-- A declaration writes to its name in the current scope. -/
  | declare {name : String} (hop : i.op = .declare)
      (hname : p.symbols[i.operand.toNat]? = some name) : Writes p s i (.binding s.scope name)
  /-- An assignment writes to its name in the nearest scope that binds it. -/
  | assign {name : String} {r : ScopeRef} (hop : i.op = .assign)
      (hname : p.symbols[i.operand.toNat]? = some name) (hr : s.store.Binds s.scope name r) :
      Writes p s i (.binding r name)
  | entry {v : Value} {key : String} {o : ObjectRef} {rest : List Value} (hop : i.op = .set)
      (htop : s.operands.topDown = v :: .text key :: .object o :: rest) :
      Writes p s i (.entry o key)
  /-- An item is written only where there is one. -/
  | item {v : Value} {x : Binary64} {r : ArrayRef} {n : Nat} {rest : List Value}
      (hop : i.op = .set) (htop : s.operands.topDown = v :: .number x :: .array r :: rest)
      (hx : x.index? = some n) (hn : n < s.store.arraySize r) : Writes p s i (.item r n)
  /-- A function of the library may write to all of the array that it is called on. -/
  | native {native : Native} {b : Builtin} {r : ArrayRef} {n : Nat} {args : List Value}
      {rest : Stack Value} (hcalls : s.CallsNative i native (some (.array r)) args rest)
      (hbody : native.body = .builtin b) (hb : b ∈ Library.arrayChangers) :
      Writes p s i (.item r n)

/-- What an instruction that ends well has written. -/
structure WritesOneCell (p : Program) (i : Instruction) (s t : State) : Prop where
  kept : s.store.KeptBut (s.Writes p i) t.store
  /-- It writes to one cell at most, unless it calls a native on an array. -/
  single : ∀ c c', s.Writes p i c → s.Writes p i c' → c = c' ∨
    (i.op = .call ∨ i.op = .callWith) ∧ ∃ r n n', c = .item r n ∧ c' = .item r n'
  /-- What it writes there is the top operand. -/
  written : ∀ c, c.In s.store → s.Writes p i c → i.op ∈ [.declare, .assign, .set] →
    c.value? t.store = s.operands.peek?
  /-- A native that makes a container gives a fresh one, and the store has nothing else that is
      new. -/
  fresh : ∀ native b site args rest, s.CallsNative i native site args rest →
    native.body = .builtin b → b ∈ Library.makers →
      ∃ v, t.operands = rest.push v ∧ s.store.Adds v t.store
  /-- A call that is entered has a fresh scope, and the store has nothing else that is new.  One
      that is left leaves the store as it was. -/
  calls : t.frames ≠ s.frames → t.store = s.store ∨
    t.scope = s.store.scopes.size ∧ ∃ scope, t.store = s.store.pushScope scope

/-- The operands tell which native is called, on what and with which arguments. -/
theorem CallsNative.unique {native native' : Native} {site site' : Option Value}
    {args args' : List Value} {rest rest' : Stack Value}
    (h : s.CallsNative i native site args rest) (h' : s.CallsNative i native' site' args' rest') :
    native = native' ∧ site = site' ∧ args = args' ∧ rest = rest' := by
  obtain ⟨n, hn, htop⟩ := h.callee
  obtain ⟨n', hn', htop'⟩ := h'.callee
  have hlength : args.reverse.length = args'.reverse.length := by
    simp [h.args, h'.args]
  obtain ⟨hargs, hbelow⟩ := List.append_inj (htop.symm.trans htop') hlength
  obtain ⟨hcallee, hbelow⟩ := List.cons.inj hbelow
  cases hcallee
  have hsome : site.isSome = site'.isSome := h.site.trans h'.site.symm
  have hrest : site = site' ∧ rest.topDown = rest'.topDown := by
    cases site <;> cases site' <;> simp_all
  exact ⟨Option.some.inj (hn.symm.trans hn'), hrest.1, List.reverse_inj.mp hargs,
    Stack.ext_topDown hrest.2⟩

theorem CallsNative.op_not_mem {native : Native} {site : Option Value} {args : List Value}
    {rest : Stack Value} (h : s.CallsNative i native site args rest) :
    i.op ∉ [.declare, .assign, .set] := by
  rcases h.op with hop | hop <;> simp [hop]

theorem Writes.single (h : s.Writes p i c) (h' : s.Writes p i c') :
    c = c' ∨ (i.op = .call ∨ i.op = .callWith) ∧ ∃ r n n', c = .item r n ∧ c' = .item r n' := by
  cases h with
  | declare hop hname =>
    cases h' with
    | declare _ hname' =>
      cases hname.symm.trans hname'
      exact Or.inl rfl
    | assign hop' | entry hop' | item hop' => simp [hop] at hop'
    | native hcalls => exact absurd (by simp [hop]) hcalls.op_not_mem
  | assign hop hname hr =>
    cases h' with
    | assign _ hname' hr' =>
      cases hname.symm.trans hname'
      cases hr.unique hr'
      exact Or.inl rfl
    | declare hop' | entry hop' | item hop' => simp [hop] at hop'
    | native hcalls => exact absurd (by simp [hop]) hcalls.op_not_mem
  | entry hop htop =>
    cases h' with
    | entry _ htop' =>
      cases htop.symm.trans htop'
      exact Or.inl rfl
    | item _ htop' => cases htop.symm.trans htop'
    | declare hop' | assign hop' => simp [hop] at hop'
    | native hcalls => exact absurd (by simp [hop]) hcalls.op_not_mem
  | item hop htop hx =>
    cases h' with
    | item _ htop' hx' =>
      cases htop.symm.trans htop'
      cases hx.symm.trans hx'
      exact Or.inl rfl
    | entry _ htop' => cases htop.symm.trans htop'
    | declare hop' | assign hop' => simp [hop] at hop'
    | native hcalls => exact absurd (by simp [hop]) hcalls.op_not_mem
  | @native _ _ r n _ _ hcalls =>
    cases h' with
    | @native _ _ r' n' _ _ hcalls' =>
      cases (hcalls.unique hcalls').2.1
      exact Or.inr ⟨hcalls.op, r, n, n', rfl, rfl⟩
    | declare hop | assign hop | entry hop | item hop =>
      exact absurd (by simp [hop]) hcalls.op_not_mem

/-! ## Instructions -/

/-- Nothing that was in the store changes but for the cells that are written. -/
theorem keptBut_of_effect (hhost : cfg.host.EndsClean) (h : s.Effect p cfg (some i) t) :
    s.store.KeptBut (s.Writes p i) t.store := by
  cases h with
  | computes | makes_closure | closes_scope | leaves | halts => exact .of_eq rfl rfl rfl
  | declares hop hname => exact Store.keptBut_define (.declare hop hname) _
  | assigns hop hname _ hb =>
    exact Store.keptBut_define (.assign hop hname (Store.binds_of_binder? hb)) _
  | opens_scope => exact Store.keptBut_pushScope _ _
  | writes hop htop htarget =>
    rcases Target.of_eq_ok htarget with ⟨o, name, rfl, rfl, rfl⟩ | ⟨r, x, rfl, rfl, rfl⟩
    · exact Store.keptBut_set (.entry hop htop) _
    · apply Store.keptBut_modifyArray
      intro n hchanged
      obtain ⟨hx, hn⟩ := Items.set_eq_or hchanged
      exact .item hop htop hx hn
  | @calls_native _ _ _ site _ _ _ _ _ hcalls hcall =>
    refine Library.keptBut_of_callWith hhost ?_ hcall
    intro b r n hbody hb hsite
    cases site with
    | none => cases hsite
    | some v =>
      cases hsite
      exact .native hcalls hbody hb
  | enters =>
    rw [Store.defineAll_newScope]
    exact Store.keptBut_pushScope _ _

/-- A cell that is declared, assigned to or set holds the top operand. -/
theorem value?_of_effect (hc : c.In s.store) (hwrites : s.Writes p i c)
    (hop : i.op ∈ [.declare, .assign, .set]) (h : s.Effect p cfg (some i) t) :
    c.value? t.store = s.operands.peek? := by
  cases h with
  | declares hdeclare hname hv =>
    rw [hv]
    cases hwrites with
    | declare _ hname' =>
      cases hname.symm.trans hname'
      exact Store.ownBinding?_define_self hc _ _
    | assign hop' | entry hop' | item hop' => simp [hdeclare] at hop'
    | native hcalls => exact absurd hop hcalls.op_not_mem
  | assigns hassign hname hv hb =>
    rw [hv]
    cases hwrites with
    | assign _ hname' hr =>
      cases hname.symm.trans hname'
      cases hr.unique (Store.binds_of_binder? hb)
      exact Store.ownBinding?_define_self hc _ _
    | declare hop' | entry hop' | item hop' => simp [hassign] at hop'
    | native hcalls => exact absurd hop hcalls.op_not_mem
  | writes hset htop htarget =>
    have hv : s.operands.peek? = some _ := congrArg List.head? htop
    rw [hv]
    cases hwrites with
    | entry _ htop' =>
      cases htop.symm.trans htop'
      cases htarget
      exact Store.own?_set_self hc _ _
    | @item _ _ r n _ _ htop' hx hn =>
      cases htop.symm.trans htop'
      cases htarget
      have hr : r < s.store.arrays.size := hc
      simp only [Cell.value?, Target.store, Store.arraySet, Store.items_modifyArray, hr, Items.set,
        hx]
      simp [Array.getElem?_setIfInBounds]
      exact hn
    | declare hop' | assign hop' => simp [hset] at hop'
    | native hcalls => exact absurd hop hcalls.op_not_mem
  | computes hcomputes =>
    simp only [List.mem_cons, List.not_mem_nil, or_false] at hop
    rcases hop with hop | hop | hop <;> simp [hop, Opcode.computes] at hcomputes
  | makes_closure hop' | opens_scope hop' | closes_scope hop' => simp [hop'] at hop
  | calls_native hcalls => exact absurd hop hcalls.op_not_mem
  | enters hop' => rcases hop' with hop' | hop' <;> simp [hop'] at hop
  | leaves hop' | halts hop' => rcases hop' i rfl with hop' | hop' <;> simp [hop'] at hop

/-- A call of a native stays in the active call. -/
theorem CallsNative.frames_eq {native : Native} {site : Option Value} {args : List Value}
    {rest : Stack Value} (hcalls : s.CallsNative i native site args rest)
    (h : Exec.instruction p cfg i s = .ok flow t) : t.frames = s.frames := by
  obtain ⟨n, -, htop⟩ := hcalls.callee
  have hnative : s.operands.topDown[i.operand.toNat]? = some (.native n) := by
    simp [htop, ← hcalls.args]
  obtain ⟨callee, hcallee, hcases⟩ := Exec.call_instruction_eq_ok hcalls.op h
  cases hnative.symm.trans hcallee
  rcases hcases with ⟨c, _, hc, -⟩ | ⟨-, -, hsame⟩
  · cases hc
  · exact hsame.frames

/-- A native that makes a container adds that to the store, and nothing else. -/
theorem adds_of_instruction {native : Native} {b : Builtin} {site : Option Value}
    {args : List Value} {rest : Stack Value} (hcalls : s.CallsNative i native site args rest)
    (hbody : native.body = .builtin b) (hb : b ∈ Library.makers)
    (h : Exec.instruction p cfg i s = .ok flow t) :
    ∃ v, t.operands = rest.push v ∧ s.store.Adds v t.store := by
  have hframes := hcalls.frames_eq h
  obtain ⟨name, arity, body⟩ := native
  cases hbody
  cases Exec.effect_of_instruction h with
  | @calls_native _ _ _ _ _ v _ _ _ hcalls' hcall =>
    obtain ⟨rfl, rfl, rfl, rfl⟩ := hcalls.unique hcalls'
    exact ⟨v, rfl, Library.adds_of_makers hb hcall⟩
  | enters =>
    have hsize := congrArg Stack.size hframes
    simp at hsize
  | computes hop' =>
    rcases hcalls.op with hop | hop <;> simp [hop, Opcode.computes, Opcode.transfers] at hop'
  | declares hop' | assigns hop' | writes hop' => exact absurd (by simp [hop']) hcalls.op_not_mem
  | makes_closure hop' | opens_scope hop' | closes_scope hop' =>
    rcases hcalls.op with hop | hop <;> simp [hop'] at hop
  | leaves hop' | halts hop' =>
    rcases hcalls.op with hop | hop <;> simp [hop] at hop'

theorem pushScope_of_effect (h : s.Effect p cfg (some i) t) (hframes : t.frames ≠ s.frames) :
    t.store = s.store ∨
      t.scope = s.store.scopes.size ∧ ∃ scope, t.store = s.store.pushScope scope := by
  cases h with
  | leaves => exact Or.inl rfl
  | enters => exact Or.inr ⟨rfl, _, Store.defineAll_newScope _ _ _⟩
  | _ => exact absurd rfl hframes

/-- An instruction that ends well writes to one cell that was in the store before, if to any, or
    to the array that it calls a native on.  All other arrays, objects and scopes are as they were,
    and what natives and calls make is fresh.  `hhost` is for calls of the host's functions: one that
    ends well has changed nothing that was in the store, its arguments included, while it may have
    made something new.  Of the library's own functions nothing is assumed. -/
theorem writesOneCell_of_instruction (hhost : cfg.host.EndsClean)
    (h : Exec.instruction p cfg i s = .ok flow t) : s.WritesOneCell p i t := by
  have heffect := Exec.effect_of_instruction h
  refine ⟨keptBut_of_effect hhost heffect, ?_, ?_, ?_, pushScope_of_effect heffect⟩
  · intro c c' hc hc'
    exact hc.single hc'
  · intro c hc hwrites hop
    exact value?_of_effect hc hwrites hop heffect
  · intro native b site args rest hcalls hbody hb
    exact adds_of_instruction hcalls hbody hb h

/-- An array is pushed onto itself: that changes the array, and nothing in the object beside it. -/
theorem writesOneCell_of_push :
    let store : Store := { (default : Store) with
      arrays := #[#[]], objects := #[Store.linkedTo 0], natives := #[Builtin.push.native] }
    let s : State := { initial store {} with
      operands := .ofTopDown [.array 0, .native 0, .array 0] }
    ∃ t, Exec.instruction default {} ⟨.callWith, 1⟩ s = .ok .next t ∧
      s.Writes default ⟨.callWith, 1⟩ (.item 0 0) ∧ t.store.items 0 = #[.array 0] ∧
        t.store.own? 0 protoKey = some (.object 0) ∧
          s.WritesOneCell default ⟨.callWith, 1⟩ t := by
  intro store s
  have hhost : ({} : Settings).host.EndsClean := by
    intro number site args st v st' h
    cases h
  have hcalls : s.CallsNative ⟨.callWith, 1⟩ Builtin.push.native (some (.array 0)) [.array 0]
      .empty := ⟨Or.inr rfl, ⟨0, rfl, rfl⟩, rfl, rfl⟩
  exact ⟨_, rfl, .native hcalls rfl (by simp [Library.arrayChangers]), rfl, rfl,
    writesOneCell_of_instruction hhost rfl⟩

end State

end StackMachine
