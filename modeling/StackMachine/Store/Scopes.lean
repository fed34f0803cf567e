import StackMachine.Store

/-!
# Scopes

Names are looked up from a scope outward.  A scope is always newer than the one around it, so the
way outward goes down in the store and ends.
-/

namespace StackMachine.Store

/-- The scope around a scope. -/
def enclosing? (st : Store) (s : ScopeRef) : Option ScopeRef :=
  match st.scopes[s]? with
  | some scope => scope.parent
  | none => none

/-- The value that a scope itself binds a name to. -/
def ownBinding? (st : Store) (s : ScopeRef) (name : String) : Option Value :=
  match st.scopes[s]? with
  | some scope => scope.bindings.get? name
  | none => none

/-- The nearest scope, from a scope outward, that binds a name. -/
def binder? (st : Store) (s : ScopeRef) (name : String) : Option ScopeRef :=
  if (st.ownBinding? s name).isSome then some s
  else match st.enclosing? s with
    | some p => if p < s then binder? st p name else none
    | none => none
termination_by s

/-- The value of a name in a scope: that of the nearest binding. -/
def lookup? (st : Store) (s : ScopeRef) (name : String) : Option Value :=
  match st.ownBinding? s name with
  | some v => some v
  | none => match st.enclosing? s with
    | some p => if p < s then lookup? st p name else none
    | none => none
termination_by s

/-- Binds a name in a scope itself, in place of any binding it has there. -/
def define (st : Store) (s : ScopeRef) (name : String) (v : Value) : Store :=
  { st with scopes := st.scopes.modify s fun scope =>
      { scope with bindings := scope.bindings.insert name v } }

/-- Rebinds the nearest binding of a name, if there is one, and tells whether there was. -/
def assign (st : Store) (s : ScopeRef) (name : String) (v : Value) : Bool × Store :=
  match st.binder? s name with
  | some t => (true, st.define t name v)
  | none => (false, st)

/-- The number of scopes from a scope to the outermost one, both included. -/
def depth (st : Store) (s : ScopeRef) : Nat :=
  match st.enclosing? s with
  | some p => if p < s then depth st p + 1 else 1
  | none => 1
termination_by s

/-- A scope in a debugging text: its own names in order, and its depth. -/
def scopeDebugText (st : Store) (s : ScopeRef) : String :=
  let names := match st.scopes[s]? with
    | some scope => scope.bindings.keys
    | none => []
  "Environment \x7b names: [" ++ String.intercalate ", " (names.map Text.quoted) ++
    "], depth: " ++ Text.decimal (st.depth s) ++ " \x7d"

end StackMachine.Store
