import StackMachine.Proofs.Library.Failure
import StackMachine.Proofs.Library.Pairs
import StackMachine.Proofs.Store.Holding

/-!
# Natives that end well

What the functions of the library do to the store: most only look at it, some add an array or an
object, and three change the array that they are called on (`Library.effect_of_callBuiltin`).  None
touches scopes or closures, and none makes a closure up: one that it gives, or leaves in the store,
was an argument, the call site or in the store already.
-/

namespace StackMachine.Library

variable {α : Type} {site v w : Value} {args : List Value} {st st' : Store} {b : Builtin}

/-- What a function of the library that ends well does to the store `st` of its call, and what it
    gives. -/
inductive Effect (site : Value) (args : List Value) (st : Store) : Builtin → Value → Store → Prop
  /-- It gives something that it finds. -/
  | looks {b : Builtin} {v : Value} (hv : st.Known (site :: args) v) : Effect site args st b v st
  | reads_clock {x : Binary64} : Effect site args st .clock (.number x) st.readClock.2
  | makes_array {b : Builtin} {items : Array Value}
      (hitems : ∀ w ∈ items, st.Known (site :: args) w) :
      Effect site args st b (.array st.arrays.size) (st.newArray items).2
  | makes_object {b : Builtin} {entries : Table Value}
      (hentries : ∀ key w, entries.get? key = some w → st.Known (site :: args) w) :
      Effect site args st b (.object st.objects.size) (st.newObject entries).2
  | changes_array {b : Builtin} {r : ArrayRef} {f : Array Value → Array Value} {v : Value}
      (hb : b ∈ [.insert, .remove, .push]) (hsite : site = .array r)
      (hf : ∀ w ∈ f (st.items r), w ∈ st.items r ∨ st.Known (site :: args) w)
      (hv : st.Known (site :: args) v) : Effect site args st b v (st.modifyArray r f)

namespace Effect

theorem scopes_eq (h : Effect site args st b v st') : st'.scopes = st.scopes := by
  cases h <;> rfl

theorem closures_eq (h : Effect site args st b v st') : st'.closures = st.closures := by
  cases h <;> rfl

theorem known (h : Effect site args st b v st') : st.Known (site :: args) v := by
  cases h with
  | looks hv => exact hv
  | changes_array _ _ _ hv => exact hv
  | _ => exact Store.known_of_ne_closure nofun

theorem known_of_holds (h : Effect site args st b v st') (hw : st'.Holds w) :
    st.Known (site :: args) w := by
  cases h with
  | looks => exact Store.known_of_holds hw
  | reads_clock => exact Store.known_of_holds (hw.congr rfl rfl rfl)
  | makes_array hitems =>
    rcases Store.holds_of_newArray hw with hw | hw
    · exact Store.known_of_holds hw
    · exact hitems w hw
  | makes_object hentries =>
    rcases Store.holds_of_newObject hw with hw | ⟨key, hw⟩
    · exact Store.known_of_holds hw
    · exact hentries key w hw
  | changes_array _ _ hf =>
    rcases Store.holds_of_modifyArray hw with hw | hw
    · exact Store.known_of_holds hw
    · rcases hf w hw with hw | hw
      · exact Store.known_of_holds (.item hw)
      · exact hw

end Effect

/-! ## Checks and reads -/

/-- What comes before a function works is a check of its receiver and its arguments. -/
theorem check_eq_ok {native label : String} {expected : Kind} {view : Value → Option α}
    {given : Option Value} {f : α → Action Value}
    (h : (expect native label expected view given >>= f) st = .ok v st') :
    ∃ a u, given = some u ∧ view u = some a ∧ f a st = .ok v st' := by
  obtain ⟨a, st₁, hcheck, h⟩ := bind_eq_ok h
  have hst := (keeps_expect native label expected view given st).1 a st₁ hcheck
  subst hst
  rw [expect] at hcheck
  cases hview : given.bind view with
  | none =>
    rw [hview] at hcheck
    cases hcheck
  | some a' =>
    rw [hview] at hcheck
    cases hcheck
    obtain ⟨u, hu, hview⟩ := Option.bind_eq_some_iff.mp hview
    exact ⟨a, u, hu, hview, h⟩

theorem read_eq_ok {f : Store → α} {g : α → Action Value}
    (h : (Action.read f >>= g) st = .ok v st') : g (f st) st = .ok v st' := h

theorem known_argument (site : Value) (args : List Value) (st : Store) (i : Nat) :
    st.Known (site :: args) (argument args i) := by
  refine Store.known_getD _ fun v hv => ?_
  exact Store.known_of_mem (List.mem_cons_of_mem _ (List.mem_of_getElem? hv))

theorem array?_eq_some {r : ArrayRef} (h : v.array? = some r) : v = .array r := by
  cases v <;> cases h
  rfl

/-! ## Functions of the library -/

theorem known_writePairs {entries entries' : Table Value} {given args : List Value}
    (h : writePairs entries args = .ok entries') (hargs : ∀ w ∈ args, st.Known given w)
    (hentries : ∀ key w, entries.get? key = some w → st.Known given w) (key : String)
    (hw : entries'.get? key = some w) : st.Known given w := by
  rw [writePairs_eq_ok h, Table.get?_insertAll] at hw
  rcases hw with hlast | ⟨-, hw⟩
  · exact hargs w (mem_of_mem_pairs hlast.mem)
  · exact hentries key w hw

/-- The link to a prototype is no closure. -/
theorem known_of_linkedTo {o : ObjectRef} {key : String} {given : List Value}
    (h : (Store.linkedTo o).get? key = some w) : st.Known given w := by
  rw [Store.linkedTo, Table.get?_insert, Table.get?_empty] at h
  intro c hc
  subst hc
  split at h <;> cases h

theorem effect_of_objectOf (h : objectOf args st = .ok v st') : Effect site args st b v st' := by
  unfold objectOf at h
  split at h
  · cases h
  · cases hpairs : writePairs (Store.linkedTo Prototype.object.ref) args with
    | error key =>
      rw [hpairs] at h
      cases h
    | ok entries =>
      rw [hpairs] at h
      cases h
      refine .makes_object fun key w hw => ?_
      have hargs : ∀ u ∈ args, st.Known (site :: args) u := fun u hu =>
        Store.known_of_mem (List.mem_cons_of_mem _ hu)
      exact known_writePairs hpairs hargs (fun _ _ => known_of_linkedTo) key hw

theorem effect_of_copy (h : copy site st = .ok v st') : Effect site args st b v st' := by
  obtain ⟨o, u, -, -, h⟩ := check_eq_ok h
  cases read_eq_ok h
  exact .makes_object fun key w hw => Store.known_of_holds (Store.holds_of_entries hw)

theorem effect_of_keys (h : keys site st = .ok v st') : Effect site args st b v st' := by
  obtain ⟨o, u, -, -, h⟩ := check_eq_ok h
  cases read_eq_ok h
  refine .makes_array fun w hw => Store.known_of_ne_closure fun c hc => ?_
  subst hc
  simp at hw

theorem effect_of_values (h : values site st = .ok v st') : Effect site args st b v st' := by
  obtain ⟨o, u, -, -, h⟩ := check_eq_ok h
  cases read_eq_ok h
  refine .makes_array fun w hw => ?_
  simp only [Store.values, Table.properties, List.mem_toArray, List.mem_map, List.mem_filter] at hw
  obtain ⟨⟨key, w⟩, ⟨hmem, -⟩, rfl⟩ := hw
  exact Store.known_of_holds (Store.holds_of_entries ((Table.mem_entries_iff _ _ _).mp hmem))

theorem effect_of_split (h : split site args st = .ok v st') : Effect site args st b v st' := by
  obtain ⟨s, u, -, -, h⟩ := check_eq_ok h
  obtain ⟨separator, w, -, -, h⟩ := check_eq_ok h
  cases h
  refine .makes_array fun w hw => Store.known_of_ne_closure fun c hc => ?_
  subst hc
  simp at hw

theorem effect_of_insert (h : insert site args st = .ok v st') :
    Effect site args st .insert v st' := by
  obtain ⟨r, u, hu, hr, h⟩ := check_eq_ok h
  obtain ⟨position, -, -, -, h⟩ := check_eq_ok h
  cases h
  cases hu
  refine .changes_array (by simp) (array?_eq_some hr) (fun w hw => ?_) ?_
  · rcases Items.mem_of_mem_insert hw with hw | rfl
    · exact Or.inl hw
    · exact Or.inr (known_argument site args st 1)
  · exact Store.known_of_ne_closure nofun

theorem effect_of_remove (h : remove site args st = .ok v st') :
    Effect site args st .remove v st' := by
  obtain ⟨r, u, hu, hr, h⟩ := check_eq_ok h
  obtain ⟨position, -, -, -, h⟩ := check_eq_ok h
  cases h
  cases hu
  refine .changes_array (by simp) (array?_eq_some hr) (fun w hw => ?_) ?_
  · exact Or.inl (Items.mem_of_mem_remove hw)
  · exact Store.known_getD _ fun v hv => Store.known_of_holds (Store.holds_of_arrayGet? hv)

theorem effect_of_push (h : push site args st = .ok v st') : Effect site args st .push v st' := by
  obtain ⟨r, u, hu, hr, h⟩ := check_eq_ok h
  cases h
  cases hu
  refine .changes_array (by simp) (array?_eq_some hr) (fun w hw => ?_) ?_
  · rcases Array.mem_push.mp hw with hw | rfl
    · exact Or.inl hw
    · exact Or.inr (known_argument site args st 0)
  · exact Store.known_of_ne_closure nofun

/-- What a function of the library does where it ends well. -/
theorem effect_of_callBuiltin (h : callBuiltin site args b st = .ok v st') :
    Effect site args st b v st' := by
  cases b
  case copy => exact effect_of_copy h
  case keys => exact effect_of_keys h
  case values => exact effect_of_values h
  case split => exact effect_of_split h
  case objectOf => exact effect_of_objectOf h
  case insert => exact effect_of_insert h
  case remove => exact effect_of_remove h
  case push => exact effect_of_push h
  case clock =>
    cases h
    exact .reads_clock
  case newArray =>
    cases h
    exact .makes_array fun w hw => absurd hw (Array.not_mem_empty w)
  case arrayOf =>
    cases h
    exact .makes_array fun w hw => Store.known_of_mem (List.mem_cons_of_mem _ (by simpa using hw))
  case newObject =>
    cases h
    exact .makes_object fun key w hw => known_of_linkedTo hw
  case toText | toBool | typeOf =>
    cases h
    exact .looks (Store.known_of_ne_closure nofun)
  case arrayLength | textLength | floor | round =>
    obtain ⟨a, u, -, -, h⟩ := check_eq_ok h
    cases h
    exact .looks (Store.known_of_ne_closure nofun)
  case cut =>
    obtain ⟨s, u, -, -, h⟩ := check_eq_ok h
    obtain ⟨start, w, -, -, h⟩ := check_eq_ok h
    obtain ⟨count, w, -, -, h⟩ := check_eq_ok h
    cases h
    exact .looks (Store.known_of_ne_closure nofun)
  case parse =>
    obtain ⟨s, u, -, -, h⟩ := check_eq_ok h
    cases h
    refine .looks (Store.known_of_ne_closure fun c => ?_)
    split <;> simp
  case charAt | charCode =>
    obtain ⟨s, u, -, -, h⟩ := check_eq_ok h
    obtain ⟨position, w, -, -, h⟩ := check_eq_ok h
    cases h
    refine .looks (Store.known_of_ne_closure fun c => ?_)
    split <;> simp

end StackMachine.Library
