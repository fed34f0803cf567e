import Mathlib.Data.Finset.Card
import StackMachine.Proofs.Store.Writes
import StackMachine.Store.Display

/-!
# The text of values, recursively

`Store.write` works through a stack of open containers.  `Store.TextRules` says instead by recursion
what is written for each kind of value, given the containers that the value stands in, and
`Store.textInside` is the one function with these rules.  `Store.text_eq_textInside` says that the
two agree on every store, whatever containers are shared or contain themselves.  The invariant of
the stack is that an open container's path consists of the container and those that are open around
it.
-/

namespace StackMachine

/-- Texts with commas between them, and with one in front unless they come first. -/
def listed : (first : Bool) → List String → String
  | _, [] => ""
  | first, text :: texts => (if first then "" else ",") ++ text ++ listed false texts

theorem listed_true (texts : List String) : listed true texts = ",".intercalate texts := by
  have hcons : ∀ text texts, ",".intercalate (text :: texts) = text ++ listed false texts := by
    intro text texts
    induction texts generalizing text with
    | nil => simp [listed]
    | cons next texts ih =>
      rw [String.intercalate_cons_cons, ih, listed]
      simp [String.append_assoc]
  cases texts with
  | nil => simp [listed]
  | cons text texts => simp [listed, hcons]

/-- The text starts, and not with a point: so do all texts of elements, which is why the elements
    of a container never look like the three points of a marker. -/
def Begins (s : String) : Prop := ∃ c, s.toList.head? = some c ∧ c ≠ '.'

theorem Begins.append {s : String} (h : Begins s) (t : String) : Begins (s ++ t) := by
  obtain ⟨c, hc, hdot⟩ := h
  refine ⟨c, ?_, hdot⟩
  rw [String.toList_append, List.head?_append, hc]
  rfl

theorem begins_decimal (n : Nat) : Begins (Text.decimal n) := by
  obtain ⟨c, digits, hdigits⟩ := List.exists_cons_of_ne_nil (Nat.toDigits_ne_nil (n := n) (b := 10))
  refine ⟨c, by rw [Text.decimal, String.toList_ofList, hdigits]; rfl, ?_⟩
  rintro rfl
  have hdigit : '.' ∈ Nat.toDigits 10 n := by rw [hdigits]; exact List.mem_cons_self
  have := Nat.isDigit_of_mem_toDigits (by decide) (by decide) hdigit
  revert this
  decide

theorem begins_fixedText (x : Binary64) : Begins x.fixedText := by
  unfold Binary64.fixedText
  split
  · exact ⟨'N', rfl, by decide⟩
  · split
    · exact ⟨'-', rfl, by decide⟩
    · exact ⟨'+', rfl, by decide⟩
  · rename_i negative m e _
    cases negative with
    | true =>
      have hsign : Begins "-" := ⟨'-', rfl, by decide⟩
      exact hsign.append _
    | false =>
      have hmagnitude : ∀ units, Begins (Binary64.fixedMagnitude units) := by
        intro units
        unfold Binary64.fixedMagnitude
        dsimp only
        split
        · exact begins_decimal _
        · exact ((begins_decimal _).append _).append _
      simpa using hmagnitude _

theorem begins_scalarText (v : Value) : Begins (v.scalarText true) := by
  have hfunction : Begins "<Function>" := ⟨'<', rfl, by decide⟩
  cases v with
  | null => exact ⟨'n', rfl, by decide⟩
  | bool b => cases b <;> exact ⟨_, rfl, by decide⟩
  | number x => exact begins_fixedText x
  | text s =>
    have hquote : Begins "\"" := ⟨'"', rfl, by decide⟩
    exact (hquote.append _).append _
  | array r => exact hfunction
  | object r => exact hfunction
  | closure r => exact hfunction
  | native r => exact hfunction

theorem begins_opening (c : Container) : Begins c.opening := by
  cases c with
  | array r =>
    have hbracket : Begins "[" := ⟨'[', rfl, by decide⟩
    exact hbracket
  | object r =>
    have hbrace : Begins "\x7b" := ⟨'\x7b', rfl, by decide⟩
    exact hbrace

theorem listed_ne_points {texts : List String} (h : ∀ text ∈ texts, Begins text) :
    listed true texts ≠ "..." := by
  cases texts with
  | nil => simp [listed]
  | cons text texts =>
    obtain ⟨c, hc, hdot⟩ := (h text List.mem_cons_self).append (listed false texts)
    intro heq
    rw [listed, if_pos rfl, String.empty_append] at heq
    rw [heq] at hc
    exact hdot (Option.some.inj hc).symm

namespace Store

/-- The elements of a container; one that the store does not have has none. -/
def elements (st : Store) (c : Container) : List Element := (st.elements? c).getD []

theorem mem_containers_of_mem_elements {st : Store} {c : Container} {e : Element}
    (h : e ∈ st.elements c) : c ∈ st.containers := by
  cases helements : st.elements? c with
  | none => simp [elements, helements] at h
  | some es => exact mem_containers helements

theorem elements_array (st : Store) (r : ArrayRef) :
    st.elements (.array r) = (st.items r).toList.map fun item => ⟨none, item⟩ := by
  rw [elements, elements?, items, Array.getD_eq_getD_getElem?]
  cases st.arrays[r]? <;> rfl

theorem elements_object (st : Store) (r : ObjectRef) :
    st.elements (.object r) =
      (st.entries r).properties.map fun (key, item) => ⟨some key, item⟩ := by
  rw [elements, elements?, entries, Array.getD_eq_getD_getElem?]
  cases st.objects[r]? with
  | none =>
    have hnone : (Table.empty : Table Value).properties = [] := by
      apply List.eq_nil_iff_forall_not_mem.mpr
      rintro ⟨key, item⟩ hmem
      simp [Table.mem_properties_iff] at hmem
    simp [hnone]
  | some entries => rfl

/-- The text of a value that stands inside the given containers: a container inside itself shows
    as its marker, and any other container with all of its elements. -/
def textInside (st : Store) (inside : Finset Container) (nested : Bool) (v : Value) : String :=
  match v.container? with
  | none => v.scalarText nested
  | some c =>
    if _hnew : c ∈ inside then c.marker
    else c.opening ++ ",".intercalate ((st.elements c).attach.map fun ⟨e, _he⟩ =>
      e.label ++ textInside st (insert c inside) true e.value) ++ c.closing
termination_by (st.containers.toFinset \ inside).card
decreasing_by
  -- Going into a container takes it from those that are left to go into.
  have hleft : c ∈ st.containers.toFinset \ inside :=
    Finset.mem_sdiff.mpr ⟨List.mem_toFinset.mpr (mem_containers_of_mem_elements _he), _hnew⟩
  rw [Finset.sdiff_insert]
  exact Finset.card_erase_lt_of_mem hleft

variable {st : Store} {inside : Finset Container} {v : Value} {c : Container}

theorem textInside_scalar (h : v.container? = none) (nested : Bool) :
    st.textInside inside nested v = v.scalarText nested := by
  rw [textInside, h]

theorem textInside_marker (h : v.container? = some c) (hc : c ∈ inside) (nested : Bool) :
    st.textInside inside nested v = c.marker := by
  rw [textInside, h]
  exact dif_pos hc

theorem textInside_full (h : v.container? = some c) (hc : c ∉ inside) (nested : Bool) :
    st.textInside inside nested v = c.opening ++ listed true ((st.elements c).map fun e =>
      e.label ++ st.textInside (insert c inside) true e.value) ++ c.closing := by
  have hmap : ((st.elements c).attach.map fun x =>
      x.1.label ++ st.textInside (insert c inside) true x.1.value) =
      (st.elements c).map fun e => e.label ++ st.textInside (insert c inside) true e.value := by
    conv => rhs; rw [← List.attach_map_subtype_val (st.elements c), List.map_map]
    rfl
  rw [textInside, h, listed_true, ← hmap]
  exact dif_neg hc

/-! ## The rules -/

/-- A list of the entries that the text of an object shows: all but the prototype link, in the order
    of their keys. -/
structure Shows (st : Store) (r : ObjectRef) (entries : List (String × Value)) : Prop where
  ascending : entries.Pairwise fun a b => a.1 < b.1
  mem_iff : ∀ key item, (key, item) ∈ entries ↔ key ≠ "__proto__" ∧ st.own? r key = some item

theorem shows_properties (st : Store) (r : ObjectRef) :
    st.Shows r (st.entries r).properties where
  ascending := (st.entries r).pairwise_properties
  mem_iff := Table.mem_properties_iff _

theorem Shows.unique {r : ObjectRef} {entries others : List (String × Value)}
    (h : st.Shows r entries) (h' : st.Shows r others) : entries = others := by
  refine Table.eq_of_ascending h.ascending h'.ascending fun key item => ?_
  rw [h.mem_iff, h'.mem_iff]

/-- The rules for the text of values, from the containers that a value stands in and whether it is
    nested. -/
structure TextRules (st : Store) (S : Finset Container → (nested : Bool) → Value → String) :
    Prop where
  null : ∀ inside nested, S inside nested .null = "null"
  bool : ∀ inside nested b, S inside nested (.bool b) = if b then "true" else "false"
  number : ∀ inside nested x, S inside nested (.number x) = x.fixedText
  text : ∀ inside s, S inside false (.text s) = s
  text_nested : ∀ inside s, S inside true (.text s) = "\"" ++ s ++ "\""
  closure : ∀ inside nested r, S inside nested (.closure r) = "<Function>"
  native : ∀ inside nested r, S inside nested (.native r) = "<Function>"
  array : ∀ inside nested r, S inside nested (.array r) =
    if .array r ∈ inside then "[...]"
    else "[" ++ ",".intercalate ((st.items r).toList.map fun item =>
      S (insert (.array r) inside) true item) ++ "]"
  object : ∀ inside nested r, ∃ entries, st.Shows r entries ∧ S inside nested (.object r) =
    if .object r ∈ inside then "\x7b...\x7d"
    else "\x7b" ++ ",".intercalate (entries.map fun (key, item) =>
      "\"" ++ key ++ "\":" ++ S (insert (.object r) inside) true item) ++ "\x7d"

/-- One step of the recursion: the text of a value from that of the elements of containers. -/
def textStep (st : Store) (S : Finset Container → Bool → Value → String)
    (inside : Finset Container) (nested : Bool) (v : Value) : String :=
  match v.container? with
  | none => v.scalarText nested
  | some c =>
    if c ∈ inside then c.marker
    else c.opening ++ ",".intercalate ((st.elements c).map fun e =>
      e.label ++ S (insert c inside) true e.value) ++ c.closing

variable {S : Finset Container → Bool → Value → String}

theorem textStep_array (r : ArrayRef) (nested : Bool) :
    st.textStep S inside nested (.array r) =
      if .array r ∈ inside then "[...]"
      else "[" ++ ",".intercalate ((st.items r).toList.map fun item =>
        S (insert (.array r) inside) true item) ++ "]" := by
  have hlabel : ∀ item, (⟨none, item⟩ : Element).label ++ S (insert (.array r) inside) true item =
      S (insert (.array r) inside) true item := fun _ => String.empty_append
  simp only [textStep, Value.container?, elements_array, List.map_map, Function.comp_def, hlabel]
  rfl

theorem textStep_object (r : ObjectRef) (nested : Bool) :
    st.textStep S inside nested (.object r) =
      if .object r ∈ inside then "\x7b...\x7d"
      else "\x7b" ++ ",".intercalate ((st.entries r).properties.map fun (key, item) =>
        "\"" ++ key ++ "\":" ++ S (insert (.object r) inside) true item) ++ "\x7d" := by
  simp only [textStep, Value.container?, elements_object, List.map_map]
  rfl

/-- A step looks no further than at the elements of a container that the value is not inside of. -/
theorem textStep_congr {S' : Finset Container → Bool → Value → String} {nested : Bool}
    (h : ∀ c, v.container? = some c → c ∉ inside → ∀ e ∈ st.elements c,
      S (insert c inside) true e.value = S' (insert c inside) true e.value) :
    st.textStep S inside nested v = st.textStep S' inside nested v := by
  unfold textStep
  cases hc : v.container? with
  | none => rfl
  | some c =>
    by_cases hmem : c ∈ inside
    · simp only [if_pos hmem]
    · have helements : ∀ e ∈ st.elements c, e.label ++ S (insert c inside) true e.value =
          e.label ++ S' (insert c inside) true e.value := by
        intro e he
        rw [h c hc hmem e he]
      simp only [if_neg hmem, List.map_congr_left helements]

/-- The rules say what one step of the recursion gives. -/
theorem textRules_iff :
    st.TextRules S ↔ ∀ inside nested v, S inside nested v = st.textStep S inside nested v := by
  constructor
  · intro h inside nested v
    cases v with
    | null => exact h.null inside nested
    | bool b => exact h.bool inside nested b
    | number x => exact h.number inside nested x
    | text s =>
      cases nested with
      | false => exact h.text inside s
      | true => exact h.text_nested inside s
    | closure r => exact h.closure inside nested r
    | native r => exact h.native inside nested r
    | array r => rw [h.array, textStep_array]
    | object r =>
      obtain ⟨entries, hshows, htext⟩ := h.object inside nested r
      rw [htext, hshows.unique (shows_properties st r), textStep_object]
  · intro h
    exact {
      null := fun _ _ => h _ _ _
      bool := fun _ _ _ => h _ _ _
      number := fun _ _ _ => h _ _ _
      text := fun _ _ => h _ _ _
      text_nested := fun _ _ => h _ _ _
      closure := fun _ _ _ => h _ _ _
      native := fun _ _ _ => h _ _ _
      array := fun inside nested r => (h _ _ _).trans (textStep_array r nested)
      object := fun inside nested r =>
        ⟨_, shows_properties st r, (h _ _ _).trans (textStep_object r nested)⟩ }

theorem textInside_eq_textStep (st : Store) (inside : Finset Container) (nested : Bool)
    (v : Value) : st.textInside inside nested v = st.textStep st.textInside inside nested v := by
  unfold textStep
  cases hv : v.container? with
  | none => exact textInside_scalar hv nested
  | some c =>
    by_cases hmem : c ∈ inside
    · rw [textInside_marker hv hmem]
      exact (if_pos hmem).symm
    · rw [textInside_full hv hmem, listed_true]
      exact (if_neg hmem).symm

/-- The rules leave no choice. -/
theorem TextRules.eq_textInside (h : st.TextRules S) : S = st.textInside := by
  funext inside nested v
  induction inside, nested, v using textInside.induct st with
  | case1 inside nested v hscalar =>
    rw [textRules_iff.mp h, textInside_eq_textStep]
    apply textStep_congr
    intro d hd
    cases hscalar.symm.trans hd
  | case2 inside nested v c hc hmem =>
    rw [textRules_iff.mp h, textInside_eq_textStep]
    apply textStep_congr
    intro d hd hnew
    cases hc.symm.trans hd
    exact absurd hmem hnew
  | case3 inside nested v c hc hnew ih =>
    rw [textRules_iff.mp h, textInside_eq_textStep]
    apply textStep_congr
    intro d hd _ e he
    cases hc.symm.trans hd
    exact ih e he

/-! ## The stack of open containers -/

/-- The containers that the next element of a stack stands in. -/
def openContainers (pending : List OpenContainer) : Finset Container :=
  (pending.map OpenContainer.container).toFinset

/-- The path of each open container leads through the containers around it to itself. -/
def Nested : List OpenContainer → Prop
  | [] => True
  | o :: outer => (∀ d : Container, d.code ∈ o.path ↔ d ∈ openContainers (o :: outer)) ∧
      Nested outer

/-- What is left to be written of a stack of open containers. -/
def remaining (st : Store) : List OpenContainer → String
  | [] => ""
  | o :: outer => listed o.first (o.rest.map fun e =>
      e.label ++ st.textInside (openContainers (o :: outer)) true e.value) ++
      o.container.closing ++ st.remaining outer

/-- One element is written, and the rest of its container and of the stack remains. -/
theorem append_remaining_cons (st : Store) (out : String) (c : Container) (e : Element)
    (rest : List Element) (first : Bool) (path : Path) (outer : List OpenContainer) :
    out ++ st.remaining (⟨c, e :: rest, first, path⟩ :: outer) =
      (if first then out else out ++ ",") ++ e.label ++
        st.textInside (openContainers (⟨c, rest, false, path⟩ :: outer)) true e.value ++
        st.remaining (⟨c, rest, false, path⟩ :: outer) := by
  cases first <;> simp [remaining, listed, openContainers, String.append_assoc]

theorem Nested.enter {pending : List OpenContainer} {path : Path} (h : Nested pending)
    (hpath : ∀ d : Container, d.code ∈ path ↔ d ∈ openContainers pending) (c : Container)
    (elements : List Element) : Nested (⟨c, elements, true, path.insert c.code⟩ :: pending) := by
  refine ⟨fun d => ?_, h⟩
  rw [Std.TreeSet.mem_insert, Std.LawfulEqOrd.compare_eq_iff_eq, hpath d]
  simp only [openContainers, List.map_cons, List.toFinset_cons, Finset.mem_insert]
  constructor
  · rintro (hcode | hd)
    · exact Or.inl (Container.code_inj hcode).symm
    · exact Or.inr hd
  · rintro (rfl | hd)
    · exact Or.inl rfl
    · exact Or.inr hd

/-- The loop writes what remains of its stack. -/
theorem write_eq_append_remaining (st : Store) (out : String) (pending : List OpenContainer)
    (h : Nested pending) : st.write out pending = out ++ st.remaining pending := by
  fun_induction write st out pending with
  | case1 out => simp [remaining]
  | case2 out c first path outer ih =>
    rw [ih h.2]
    simp [remaining, listed, String.append_assoc]
  | case3 out c e rest first path outer out' hscalar ih =>
    rw [ih h, append_remaining_cons, textInside_scalar hscalar]
    rfl
  | case4 out c e rest first path outer out' d hd hin ih =>
    have hmem : d ∈ openContainers (⟨c, rest, false, path⟩ :: outer) := (h.1 d).mp hin
    rw [ih h, append_remaining_cons, textInside_marker hd hmem]
    rfl
  | case5 out c e rest first path outer out' d hd hnew hnone ih =>
    have hmem : d ∉ openContainers (⟨c, rest, false, path⟩ :: outer) := mt (h.1 d).mpr hnew
    have hempty : st.elements d = [] := by rw [elements, hnone]; rfl
    rw [ih h, append_remaining_cons, textInside_full hd hmem, hempty]
    simp [listed, out', String.append_assoc]
  | case6 out c e rest first path outer out' d hd hnew elements helements ih =>
    have hmem : d ∉ openContainers (⟨c, rest, false, path⟩ :: outer) := mt (h.1 d).mpr hnew
    have hsome : st.elements d = elements := by rw [Store.elements, helements]; rfl
    have hnested : Nested (⟨c, rest, false, path⟩ :: outer) := h
    rw [ih (hnested.enter h.1 d elements), append_remaining_cons, textInside_full hd hmem, hsome]
    simp [remaining, openContainers, out', String.append_assoc]

theorem text_eq (st : Store) (v : Value) : st.text v = st.textInside ∅ false v := by
  unfold text
  split
  · rename_i hscalar
    rw [textInside_scalar hscalar]
  · rename_i c hc
    rw [textInside_full hc (Finset.notMem_empty c)]
    split
    · rename_i hnone
      have hempty : st.elements c = [] := by rw [elements, hnone]; rfl
      simp [hempty, listed]
    · rename_i elements helements
      have hsome : st.elements c = elements := by rw [Store.elements, helements]; rfl
      have hnested : Nested [⟨c, elements, true, Std.TreeSet.empty.insert c.code⟩] := by
        have hnil : Nested [] := trivial
        apply hnil.enter
        intro d
        simp [openContainers]
      rw [write_eq_append_remaining st _ _ hnested, hsome]
      simp [remaining, openContainers, String.append_assoc]

/-! ## Markers -/

theorem begins_textInside (st : Store) (inside : Finset Container) (v : Value) :
    Begins (st.textInside inside true v) := by
  cases hc : v.container? with
  | none =>
    rw [textInside_scalar hc]
    exact begins_scalarText v
  | some c =>
    by_cases hmem : c ∈ inside
    · rw [textInside_marker hc hmem]
      exact ((begins_opening c).append _).append _
    · rw [textInside_full hc hmem]
      exact ((begins_opening c).append _).append _

theorem begins_element (st : Store) (inside : Finset Container) (e : Element) :
    Begins (e.label ++ st.textInside inside true e.value) := by
  unfold Element.label
  split
  · have hquote : Begins "\"" := ⟨'"', rfl, by decide⟩
    exact ((hquote.append _).append _).append _
  · rw [String.empty_append]
    exact begins_textInside st inside e.value

/-- A container's text is its marker only inside the container. -/
theorem textInside_eq_marker_iff (hv : v.container? = some c) (nested : Bool) :
    st.textInside inside nested v = c.marker ↔ c ∈ inside := by
  constructor
  · intro h
    by_contra hmem
    rw [textInside_full hv hmem, Container.marker] at h
    have hpoints : ∀ text ∈ (st.elements c).map fun e =>
        e.label ++ st.textInside (insert c inside) true e.value, Begins text := by
      intro text htext
      obtain ⟨e, -, rfl⟩ := List.mem_map.mp htext
      exact begins_element st _ e
    apply listed_ne_points hpoints
    simpa using h
  · intro hmem
    exact textInside_marker hv hmem nested

/-- The text of a value is the one that the rules define by recursion, in the one way that there
    is.  An object shows its entries in the order of their keys without the prototype link.  The
    text of a container is the marker nowhere else than inside the container, so one that occurs
    several times side by side is written out every time. -/
theorem text_eq_textInside (st : Store) :
    st.TextRules st.textInside ∧ (∀ S, st.TextRules S → S = st.textInside) ∧
    (∀ v, st.text v = st.textInside ∅ false v) ∧
    ∀ inside nested r,
      (st.textInside inside nested (.array r) = "[...]" ↔ .array r ∈ inside) ∧
      (st.textInside inside nested (.object r) = "\x7b...\x7d" ↔ .object r ∈ inside) :=
  ⟨textRules_iff.mpr (textInside_eq_textStep st), fun _ h => h.eq_textInside, text_eq st,
    fun _ nested r => ⟨textInside_eq_marker_iff (c := .array r) rfl nested,
      textInside_eq_marker_iff (c := .object r) rfl nested⟩⟩

/-- The array 0 holds the array 1 twice, which is written out both times, itself, and an object that
    has a prototype and holds itself. -/
theorem text_eq_textInside_shared :
    let entries : Table Value := Table.empty.insertAll [("text", .text "hi"), ("self", .object 0),
      ("__proto__", .object 1), ("number", .number ⟨0x3FF8000000000000⟩), ("call", .closure 0)]
    let st : Store := { (default : Store) with
      arrays := #[#[.array 1, .array 1, .array 0, .object 0], #[.null, .bool true]]
      objects := #[entries, Table.empty] }
    st.text (.array 0) = "[[null,true],[null,true],[...],\x7b\"call\":<Function>," ++
        "\"number\":1.5,\"self\":\x7b...\x7d,\"text\":\"hi\"\x7d]" ∧
      st.text (.text "hi") = "hi" := by
  intro entries st
  obtain ⟨hrules, -, htext, hmarker⟩ := text_eq_textInside st
  have hobject : st.Shows 0 [("call", .closure 0), ("number", .number ⟨0x3FF8000000000000⟩),
      ("self", .object 0), ("text", .text "hi")] := by
    refine ⟨by decide, fun key item => ?_⟩
    have hown : st.own? 0 key = entries.get? key := rfl
    simp only [hown, entries, Table.insertAll_cons, Table.insertAll_nil, Table.get?_insert,
      Table.get?_empty, List.mem_cons, Prod.mk.injEq, List.not_mem_nil]
    grind
  have hnumber : (⟨0x3FF8000000000000⟩ : Binary64).fixedText = "1.5" := by decide +kernel
  refine ⟨?_, by rw [htext, hrules.text]⟩
  have hitself : st.textInside {.array 0} true (.array 0) = "[...]" :=
    (hmarker _ true 0).1.mpr (Finset.mem_singleton_self _)
  have hshared : st.textInside {.array 0} true (.array 1) = "[null,true]" := by
    have hitems : (st.items 1).toList = [.null, .bool true] := rfl
    rw [hrules.array, if_neg (by decide), hitems]
    simp only [List.map_cons, List.map_nil, hrules.null, hrules.bool]
    rfl
  have hshown : st.textInside {.array 0} true (.object 0) =
      "\x7b\"call\":<Function>,\"number\":1.5,\"self\":\x7b...\x7d,\"text\":\"hi\"\x7d" := by
    obtain ⟨shown, hshown, hstep⟩ := hrules.object {.array 0} true 0
    have hself : st.textInside {.object 0, .array 0} true (.object 0) = "\x7b...\x7d" :=
      (hmarker _ true 0).2.mpr (Finset.mem_insert_self _ _)
    rw [hstep, if_neg (by decide), hshown.unique hobject]
    simp only [List.map_cons, List.map_nil, hrules.closure, hrules.number, hrules.text_nested,
      hself, hnumber]
    rfl
  have hitems : (st.items 0).toList = [.array 1, .array 1, .array 0, .object 0] := rfl
  rw [htext, hrules.array, if_neg (Finset.notMem_empty _), hitems]
  simp only [List.map_cons, List.map_nil, insert_empty_eq, hitself, hshared, hshown]
  rfl

end Store

end StackMachine
