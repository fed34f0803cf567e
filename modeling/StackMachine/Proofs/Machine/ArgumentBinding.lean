import StackMachine.Proofs.Machine.Faults
import StackMachine.Proofs.Store.Cells

/-!
# Arguments of a call

A closure is entered with its parameters bound to the arguments, position by position as long as
there are both.  Parameters may share a name, or be named like the call site or the closure itself.
`Exec.enter_binds` says when a closure is not entered, and which bindings it starts with.
-/

namespace StackMachine

variable {p : Program} {params : List UInt16} {args : List Value} {bound : List (String × Value)}
  {param : UInt16} {arg v : Value} {name : String} {j n : Nat}

/-- The parameter at this position gets an argument. -/
def Receives (params : List UInt16) (args : List Value) (j : Nat) (param : UInt16) : Prop :=
  j < min params.length args.length ∧ params[j]? = some param

/-- The parameter at this position gets an argument and has this name. -/
def ReceivesAs (p : Program) (params : List UInt16) (args : List Value) (j : Nat)
    (name : String) : Prop :=
  ∃ param, Receives params args j param ∧ p.symbols[param.toNat]? = some name

/-- Of the parameters that get an argument the first one without a symbol has this index in the
    table of symbols. -/
def FirstNameless (p : Program) (params : List UInt16) (args : List Value) (n : Nat) : Prop :=
  ∃ j param, Receives params args j param ∧ param.toNat = n ∧ p.symbols[n]? = none ∧
    ∀ k < j, ∀ other, Receives params args k other → p.symbols[other.toNat]? ≠ none

/-- The argument for the last parameter of this name that gets one. -/
def LastArgument (p : Program) (params : List UInt16) (args : List Value) (name : String)
    (v : Value) : Prop :=
  ∃ j, ReceivesAs p params args j name ∧ args[j]? = some v ∧
    ∀ k, j < k → ¬ReceivesAs p params args k name

/-! ## Positions -/

/-- Where there are no parameters or no arguments, nothing is bound. -/
theorem not_receives_of_short
    (hshort : ∀ param rest arg others, params = param :: rest → args = arg :: others → False) :
    ¬Receives params args j param := by
  rintro ⟨hj, -⟩
  match params, args with
  | [], _ | _ :: _, [] => simp at hj
  | param :: rest, arg :: others => exact hshort param rest arg others rfl rfl

theorem receives_zero_iff {other : UInt16} :
    Receives (param :: params) (arg :: args) 0 other ↔ param = other := by
  simp [Receives]

theorem receives_succ_iff {other : UInt16} :
    Receives (param :: params) (arg :: args) (j + 1) other ↔ Receives params args j other := by
  simp [Receives]

theorem firstNameless_cons_iff : FirstNameless p (param :: params) (arg :: args) n ↔
    (p.symbols[param.toNat]? = none ∧ param.toNat = n) ∨
      p.symbols[param.toNat]? ≠ none ∧ FirstNameless p params args n := by
  constructor
  · rintro ⟨j, other, hj, rfl, hnone, hbefore⟩
    cases j with
    | zero =>
      cases receives_zero_iff.mp hj
      exact Or.inl ⟨hnone, rfl⟩
    | succ j =>
      refine Or.inr ⟨hbefore 0 (Nat.succ_pos j) param (receives_zero_iff.mpr rfl), j, other,
        receives_succ_iff.mp hj, rfl, hnone, fun k hk q hq => ?_⟩
      exact hbefore (k + 1) (Nat.succ_lt_succ hk) q (receives_succ_iff.mpr hq)
  · rintro (⟨hnone, rfl⟩ | ⟨hsome, j, other, hj, rfl, hnone, hbefore⟩)
    · exact ⟨0, param, receives_zero_iff.mpr rfl, rfl, hnone, fun k hk => absurd hk (by simp)⟩
    · refine ⟨j + 1, other, receives_succ_iff.mpr hj, rfl, hnone, fun k hk q hq => ?_⟩
      cases k with
      | zero =>
        cases receives_zero_iff.mp hq
        exact hsome
      | succ k => exact hbefore k (Nat.lt_of_succ_lt_succ hk) q (receives_succ_iff.mp hq)

/-! ## What is bound -/

theorem bindings_eq_error_iff :
    bindings p params args = .error (.invalidSymbol n) ↔ FirstNameless p params args n := by
  fun_induction bindings p params args with
  | case1 param params arg args hsymbol =>
    rw [firstNameless_cons_iff]
    simp [hsymbol]
  | case2 param params arg args name hsymbol rest hrest ih =>
    rw [firstNameless_cons_iff, ← ih, hrest]
    simp [hsymbol]
  | case3 param params arg args name hsymbol f hf ih =>
    rw [firstNameless_cons_iff, ← ih, hf]
    simp [hsymbol]
  | case4 params args hshort =>
    refine iff_of_false (by simp) ?_
    rintro ⟨j, param, hj, -⟩
    exact not_receives_of_short hshort hj

/-- What is bound stands at the position of its parameter. -/
theorem getElem?_bindings (h : bindings p params args = .ok bound) :
    bound[j]? = some (name, v) ↔ ReceivesAs p params args j name ∧ args[j]? = some v := by
  fun_induction bindings p params args generalizing bound j with
  | case1 => cases h
  | case2 param params arg args symbol hsymbol rest hrest ih =>
    cases h
    cases j with
    | zero => simp [ReceivesAs, receives_zero_iff, hsymbol]
    | succ j =>
      have htail : ReceivesAs p (param :: params) (arg :: args) (j + 1) name ↔
          ReceivesAs p params args j name := by
        simp only [ReceivesAs, receives_succ_iff]
      rw [htail]
      exact ih hrest
  | case3 => cases h
  | case4 params args hshort =>
    cases h
    have hnone : ¬ReceivesAs p params args j name := by
      rintro ⟨param, hparam, -⟩
      exact not_receives_of_short hshort hparam
    simp [hnone]

theorem getElem?_bindings_ne_iff (h : bindings p params args = .ok bound) :
    (∀ v, bound[j]? ≠ some (name, v)) ↔ ¬ReceivesAs p params args j name := by
  simp only [ne_eq, getElem?_bindings h, not_and]
  refine ⟨fun hnone hj => ?_, fun hnot v hj => absurd hj hnot⟩
  have ⟨_, ⟨hlt, _⟩, _⟩ := hj
  exact hnone _ hj (List.getElem?_eq_getElem (Nat.lt_of_lt_of_le hlt (Nat.min_le_right _ _)))

theorem lastWrite_bindings_iff (h : bindings p params args = .ok bound) :
    LastWrite bound name v ↔ LastArgument p params args name v := by
  simp only [LastWrite, LastArgument, getElem?_bindings h, getElem?_bindings_ne_iff h, and_assoc]

theorem not_mem_bindings_iff (h : bindings p params args = .ok bound) :
    (∀ v, (name, v) ∉ bound) ↔ ∀ j, ¬ReceivesAs p params args j name := by
  simp only [← getElem?_bindings_ne_iff h, List.mem_iff_getElem?, not_exists]
  exact forall_comm

/-! ## The scope of a call -/

/-- The scope of a call binds the closure and the call site, if there is one, and each other name
    that a parameter with an argument has to the argument for the last such parameter. -/
structure Scope.BindsCall (p : Program) (params : List UInt16) (c : ClosureRef)
    (site : Option Value) (args : List Value) (scope : Scope) : Prop where
  self : scope.bindings.get? "self" = some (.closure c)
  this : ∀ v, site = some v → scope.bindings.get? "this" = some v
  argument : ∀ name, name ≠ "self" → (name = "this" → site = none) →
    ∀ v, scope.bindings.get? name = some v ↔ LastArgument p params args name v
  unbound : ∀ name, name ≠ "self" → (name = "this" → site = none) →
    (scope.bindings.get? name = none ↔ ∀ j, ¬ReceivesAs p params args j name)

theorem get?_callBindings_of_ne {t : Table Value} {c : ClosureRef} {site : Option Value}
    (hself : name ≠ "self") (hthis : name = "this" → site = none) :
    (t.insertAll (callBindings c site)).get? name = t.get? name := by
  cases site with
  | none => simp [callBindings, hself]
  | some w =>
    have hne : name ≠ "this" := fun heq => by cases hthis heq
    simp [callBindings, hself, hne]

theorem bindsCall_insertAll (h : bindings p params args = .ok bound) (c : ClosureRef)
    (site : Option Value) (parent : Option ScopeRef) :
    Scope.BindsCall p params c site args
      ⟨parent, Table.empty.insertAll (bound ++ callBindings c site)⟩ where
  self := by
    rw [Table.insertAll_append]
    cases site <;> simp [callBindings]
  this := by
    rintro v rfl
    simp [Table.insertAll_append, callBindings]
  argument name hself hthis v := by
    rw [Table.insertAll_append, get?_callBindings_of_ne hself hthis, Table.get?_insertAll_empty,
      lastWrite_bindings_iff h]
  unbound name hself hthis := by
    rw [Table.insertAll_append, get?_callBindings_of_ne hself hthis,
      Table.get?_insertAll_eq_none_iff, not_mem_bindings_iff h]
    simp

namespace Exec

variable {cfg : Settings} {c : ClosureRef} {closure : Closure} {function : FunctionDef} {s : State}

/-- Where there is room and a function, entering a closure depends on the bindings alone. -/
theorem enter_of_function (hc : s.store.closures[c]? = some closure)
    (hroom : s.frames.size < cfg.maxCallDepth)
    (hfunction : p.functions[closure.function]? = some function) (site : Option Value)
    (args : List Value) :
    enter p cfg c site args s = match bindings p function.params.toList args with
      | .error f => .error f s
      | .ok bound => .ok .transfer { s with
          ip := 0
          active := some closure.function
          scope := s.store.scopes.size
          operands := .empty
          frames := s.frames.push ⟨s.active, s.ip + 1, s.scope⟩
          suspended := s.suspended.push s.operands
          store := s.store.pushScope
            ⟨some closure.scope, Table.empty.insertAll (bound ++ callBindings c site)⟩ } := by
  unfold enter
  rw [if_neg (Nat.not_le_of_lt hroom), hc]
  dsimp only
  rw [hfunction]
  dsimp only
  cases bindings p function.params.toList args with
  | error f => rfl
  | ok bound =>
    dsimp only
    rw [← Store.defineAll_newScope]
    rfl

/-- Where there is room and a function, only a parameter without a symbol keeps a closure from being
    entered. -/
theorem invalidSymbol_of_enter {f : Fault} {t : State}
    (hc : s.store.closures[c]? = some closure) (hroom : s.frames.size < cfg.maxCallDepth)
    (hfunction : p.functions[closure.function]? = some function) {site : Option Value}
    (h : enter p cfg c site args s = .error f t) : ∃ n, f = .invalidSymbol n := by
  rw [enter_of_function hc hroom hfunction] at h
  cases hbound : bindings p function.params.toList args with
  | error e =>
    rw [hbound] at h
    cases h
    obtain ⟨param, -, -, rfl⟩ := bindings_eq_error hbound
    exact ⟨param.toNat, rfl⟩
  | ok bound =>
    rw [hbound] at h
    cases h

theorem enter_of_no_function (hc : s.store.closures[c]? = some closure)
    (hroom : s.frames.size < cfg.maxCallDepth) (hfunction : p.functions[closure.function]? = none)
    (site : Option Value) (args : List Value) :
    enter p cfg c site args s = .error (.invalidFunction closure.function) s := by
  unfold enter
  rw [if_neg (Nat.not_le_of_lt hroom), hc]
  dsimp only
  rw [hfunction]

/-- A closure is not entered exactly if there is no room for one more call, or else if the program
    lacks its function, or else if a parameter that gets an argument has no symbol; the fault names
    the first such parameter.  Otherwise its function starts in a fresh scope inside the one the
    closure was made in, and that binds the closure, the call site and the arguments. -/
theorem enter_binds (hc : s.store.closures[c]? = some closure) (site : Option Value)
    (args : List Value) :
    (enter p cfg c site args s = .error (.callDepthExceeded cfg.maxCallDepth) s ↔
      cfg.maxCallDepth ≤ s.frames.size) ∧
    (s.frames.size < cfg.maxCallDepth →
      (enter p cfg c site args s = .error (.invalidFunction closure.function) s ↔
        p.functions.size ≤ closure.function) ∧
      ∀ function, p.functions[closure.function]? = some function →
        (∀ n, enter p cfg c site args s = .error (.invalidSymbol n) s ↔
          FirstNameless p function.params.toList args n) ∧
        ((∀ n, ¬FirstNameless p function.params.toList args n) → ∃ scope : Scope,
          enter p cfg c site args s = .ok .transfer { s with
            ip := 0
            active := some closure.function
            scope := s.store.scopes.size
            operands := .empty
            frames := s.frames.push ⟨s.active, s.ip + 1, s.scope⟩
            suspended := s.suspended.push s.operands
            store := s.store.pushScope scope } ∧
          scope.parent = some closure.scope ∧
          scope.BindsCall p function.params.toList c site args)) := by
  refine ⟨?_, fun hroom => ⟨?_, fun function hfunction => ⟨fun n => ?_, fun hnamed => ?_⟩⟩⟩
  · refine ⟨fun h => Nat.le_of_not_lt fun hroom => ?_, fun hfull => if_pos hfull⟩
    cases hfunction : p.functions[closure.function]? with
    | none =>
      rw [enter_of_no_function hc hroom hfunction] at h
      cases h
    | some function => cases (invalidSymbol_of_enter hc hroom hfunction h).choose_spec
  · rw [← Array.getElem?_eq_none_iff]
    refine ⟨fun h => ?_, fun hnone => enter_of_no_function hc hroom hnone site args⟩
    cases hfunction : p.functions[closure.function]? with
    | none => rfl
    | some function => cases (invalidSymbol_of_enter hc hroom hfunction h).choose_spec
  · rw [enter_of_function hc hroom hfunction, ← bindings_eq_error_iff]
    cases bindings p function.params.toList args with
    | error f => simp
    | ok bound => simp
  · rw [enter_of_function hc hroom hfunction]
    cases hbound : bindings p function.params.toList args with
    | error f =>
      -- The fault of a parameter is the only one there is here.
      obtain ⟨param, -, -, rfl⟩ := bindings_eq_error hbound
      exact absurd (bindings_eq_error_iff.mp hbound) (hnamed param.toNat)
    | ok bound => exact ⟨_, rfl, rfl, bindsCall_insertAll hbound c site _⟩

/-- Two parameters are named `a`, under different indexes, one is named like the call site, and the
    last one has no symbol.  With three arguments the last one is not looked at, and `a` is the
    third argument; with four of them it is a fault. -/
theorem enter_binds_repeated :
    let p : Program := { (default : Program) with
      symbols := #["a", "this", "a"], functions := #[⟨#[0, 1, 2, 9], #[]⟩] }
    let s : State := State.initial
      { (default : Store) with scopes := #[⟨none, .empty⟩], closures := #[⟨0, 0⟩, ⟨7, 0⟩] } {}
    let args : List Value := [.bool true, .null, .bool false]
    (∃ t scope, enter p {} 0 none args s = .ok .transfer t ∧ t.store = s.store.pushScope scope ∧
      scope.parent = some 0 ∧ scope.bindings.get? "a" = some (.bool false) ∧
      scope.bindings.get? "this" = some .null ∧ scope.bindings.get? "self" = some (.closure 0)) ∧
    (∃ t scope, enter p {} 0 (some (.bool true)) args s = .ok .transfer t ∧
      t.store = s.store.pushScope scope ∧ scope.bindings.get? "this" = some (.bool true)) ∧
    enter p {} 0 none (args ++ [.null]) s = .error (.invalidSymbol 9) s ∧
    enter p {} 1 none args s = .error (.invalidFunction 7) s ∧
    enter p { maxCallDepth := 0 } 0 none args s = .error (.callDepthExceeded 0) s := by
  intro p s args
  have hc : s.store.closures[0]? = some ⟨0, 0⟩ := rfl
  have hroom : s.frames.size < ({} : Settings).maxCallDepth := by decide
  have hfunction : p.functions[0]? = some ⟨#[0, 1, 2, 9], #[]⟩ := rfl
  have hnamed : ∀ n, ¬FirstNameless p [0, 1, 2, 9] args n := by
    rintro n ⟨j, param, ⟨hj, hparam⟩, rfl, hnone, -⟩
    have hlt : j < 3 := hj
    obtain rfl | rfl | rfl : j = 0 ∨ j = 1 ∨ j = 2 := by omega
    all_goals
      cases hparam
      cases hnone
  have hlast : LastArgument p [0, 1, 2, 9] args "a" (.bool false) := by
    refine ⟨2, ⟨2, ⟨by decide, rfl⟩, rfl⟩, rfl, ?_⟩
    rintro k hk ⟨param, ⟨hlt, -⟩, -⟩
    exact absurd hlt (Nat.not_lt_of_le hk)
  have hthis : LastArgument p [0, 1, 2, 9] args "this" .null := by
    refine ⟨1, ⟨1, ⟨by decide, rfl⟩, rfl⟩, rfl, ?_⟩
    rintro k hk ⟨param, ⟨hlt, hparam⟩, hname⟩
    have hk₃ : k < 3 := hlt
    obtain rfl : k = 2 := by omega
    cases hparam
    simp [p] at hname
  have henters := fun site => (((enter_binds hc site args).2 hroom).2 _ hfunction).2 hnamed
  refine ⟨?_, ?_, ?_, ?_, ?_⟩
  · obtain ⟨scope, ht, hparent, hbinds⟩ := henters none
    exact ⟨_, scope, ht, rfl, hparent, (hbinds.argument "a" (by decide) (by simp) _).mpr hlast,
      (hbinds.argument "this" (by decide) (by simp) _).mpr hthis, hbinds.self⟩
  · obtain ⟨scope, ht, -, hbinds⟩ := henters (some (.bool true))
    exact ⟨_, scope, ht, rfl, hbinds.this _ rfl⟩
  · refine ((((enter_binds hc none _).2 hroom).2 _ hfunction).1 9).mpr
      ⟨3, 9, ⟨by decide, rfl⟩, rfl, rfl, ?_⟩
    rintro k hk other ⟨-, hother⟩
    obtain rfl | rfl | rfl : k = 0 ∨ k = 1 ∨ k = 2 := by omega
    all_goals
      cases hother
      simp [p]
  · have hmissing : p.functions.size ≤ 7 := by decide
    have hc₁ : s.store.closures[1]? = some ⟨7, 0⟩ := rfl
    exact ((enter_binds hc₁ none args).2 hroom).1.mpr hmissing
  · exact (enter_binds hc none args).1.mpr (Nat.zero_le _)

end Exec

end StackMachine
