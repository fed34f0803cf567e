import StackMachine.Library.Call
import StackMachine.Proofs.Sequence

/-!
# Natives that fail

A function of the library checks its receiver and its arguments before it touches the store, so
one that fails leaves the store as it was (`Library.failsBy_callBuiltin`).  Of a host's own
functions this has to be assumed (`Library.Host.FailsClean`).
-/

namespace StackMachine

/-- Every array, object and scope of `st` is in `st'` with the same contents. -/
structure Store.Kept (st st' : Store) : Prop where
  arrays : ∀ (r : ArrayRef) items, st.arrays[r]? = some items → st'.arrays[r]? = some items
  objects : ∀ (o : ObjectRef) entries, st.objects[o]? = some entries →
    st'.objects[o]? = some entries
  scopes : ∀ (r : ScopeRef) scope, st.scopes[r]? = some scope → st'.scopes[r]? = some scope

namespace Store.Kept

theorem refl (st : Store) : st.Kept st := ⟨fun _ _ h => h, fun _ _ h => h, fun _ _ h => h⟩

theorem trans {st st' st'' : Store} (h : st.Kept st') (h' : st'.Kept st'') : st.Kept st'' where
  arrays r items hr := h'.arrays r items (h.arrays r items hr)
  objects o entries ho := h'.objects o entries (h.objects o entries ho)
  scopes r scope hr := h'.scopes r scope (h.scopes r scope hr)

instance : IsPreorder Store Kept where
  refl := refl
  trans _ _ _ := trans

end Store.Kept

namespace Library

/-- A function of the host that fails has changed nothing that was in the store. -/
def Host.FailsClean (host : Host) : Prop :=
  ∀ number site args, FailsBy Store.Kept (host number site args)

variable {α β : Type}

/-! ## Checks -/

theorem keeps_read (f : Store → α) : Keeps Eq (Action.read f) := by
  intro st
  refine ⟨fun a st' h => ?_, fun e st' h => ?_⟩ <;> cases h
  rfl

theorem keeps_fail (e : NativeError) : Keeps Eq (Action.fail e : Action α) := by
  intro st
  refine ⟨fun a st' h => ?_, fun e st' h => ?_⟩ <;> cases h
  rfl

theorem keeps_expect (native label : String) (expected : Kind) (view : Value → Option α)
    (v : Option Value) : Keeps Eq (expect native label expected view v) := by
  unfold expect
  split
  · exact keeps_pure _
  · exact keeps_fail _

/-! ## Changes -/

theorem neverFails_read (f : Store → α) : NeverFails (Action.read f) := by
  intro st e st' h
  cases h

theorem neverFails_change (f : Store → Store) : NeverFails (Action.change f) := by
  intro st e st' h
  cases h

theorem neverFails_update (f : Store → α × Store) : NeverFails (Action.update f) := by
  intro st e st' h
  cases h

theorem neverFails_freshArray (items : Array Value) : NeverFails (Action.freshArray items) :=
  neverFails_update _

theorem neverFails_freshObject (entries : Table Value) :
    NeverFails (Action.freshObject entries) :=
  neverFails_update _

/-! ## Calls -/

theorem failsBy_objectOf (args : List Value) : FailsBy Eq (objectOf args) := by
  unfold objectOf
  split
  · exact (keeps_fail _).failsBy
  · split
    · exact (neverFails_update _).failsBy
    · exact (keeps_fail _).failsBy

/-- A function of the library fails before it changes the store. -/
theorem failsBy_callBuiltin (site : Value) (args : List Value) (b : Builtin) :
    FailsBy Eq (callBuiltin site args b) := by
  cases b
  case clock =>
    intro st e st' h
    cases h
  case newArray | arrayOf => exact (neverFails_freshArray _).failsBy
  case newObject => exact (neverFails_freshObject _).failsBy
  case toText => exact (keeps_read _).failsBy
  case toBool | typeOf => exact (neverFails_pure _).failsBy
  case objectOf => exact failsBy_objectOf args
  case copy | keys | values =>
    refine FailsBy.bind (keeps_expect _ _ _ _ _) fun o => ?_
    exact FailsBy.bind (keeps_read _) fun _ => (neverFails_update _).failsBy
  case insert =>
    refine FailsBy.bind (keeps_expect _ _ _ _ _) fun r => ?_
    refine FailsBy.bind (keeps_expect _ _ _ _ _) fun position => ?_
    exact ((neverFails_change _).bind fun _ => neverFails_pure _).failsBy
  case remove =>
    refine FailsBy.bind (keeps_expect _ _ _ _ _) fun r => ?_
    refine FailsBy.bind (keeps_expect _ _ _ _ _) fun position => ?_
    exact ((neverFails_update _).bind fun _ => neverFails_pure _).failsBy
  case push =>
    refine FailsBy.bind (keeps_expect _ _ _ _ _) fun r => ?_
    exact ((neverFails_change _).bind fun _ => neverFails_read _).failsBy
  case arrayLength =>
    exact FailsBy.bind (keeps_expect _ _ _ _ _) fun r => (neverFails_read _).failsBy
  case charAt | charCode =>
    refine FailsBy.bind (keeps_expect _ _ _ _ _) fun s => ?_
    exact FailsBy.bind (keeps_expect _ _ _ _ _) fun _ => (neverFails_pure _).failsBy
  case cut =>
    refine FailsBy.bind (keeps_expect _ _ _ _ _) fun s => ?_
    refine FailsBy.bind (keeps_expect _ _ _ _ _) fun start => ?_
    exact FailsBy.bind (keeps_expect _ _ _ _ _) fun _ => (neverFails_pure _).failsBy
  case split =>
    refine FailsBy.bind (keeps_expect _ _ _ _ _) fun s => ?_
    exact FailsBy.bind (keeps_expect _ _ _ _ _) fun _ => (neverFails_update _).failsBy
  case textLength | parse | floor | round =>
    exact FailsBy.bind (keeps_expect _ _ _ _ _) fun _ => (neverFails_pure _).failsBy

theorem failsBy_callHost {host : Host} (hhost : host.FailsClean) (site : Value)
    (args : List Value) (f : HostFunction) :
    FailsBy Store.Kept (callHost host site args f) := by
  cases f with
  | collect => exact (neverFails_freshArray _).failsBy
  | callSite => exact (neverFails_pure _).failsBy
  | count => exact (neverFails_pure _).failsBy
  | fail message => exact (keeps_of_eq (keeps_fail _)).failsBy
  | supplied number => exact hhost number site args

/-- A native that fails has changed nothing that was in the store, if the host sees to its own
    functions. -/
theorem failsBy_callWith {host : Host} (hhost : host.FailsClean) (native : Native)
    (site : Value) (args : List Value) : FailsBy Store.Kept (callWith host native site args) := by
  unfold callWith
  split
  · refine (failsBy_callBuiltin site args _).mono fun {st st'} h => ?_
    rw [h]
    exact .refl st'
  · exact failsBy_callHost hhost site args _

end Library

end StackMachine
