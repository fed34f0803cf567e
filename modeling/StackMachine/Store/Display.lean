import Std.Data.TreeSet
import StackMachine.Binary64.Fixed
import StackMachine.Store.Arrays
import StackMachine.Store.Objects

/-!
# The text of values

Scalars have a text of their own; arrays and objects are written with their elements inside.  A
container that is met again while it is still being written shows as `[...]` or `{...}`, so that
cyclic containers have a text too, while a container that is met again later is written out once
more.  The writer keeps the containers it is inside of on a stack of its own and therefore copes
with any depth of nesting.
-/

namespace StackMachine

/-- A value that has elements. -/
inductive Container
  | array (ref : ArrayRef)
  | object (ref : ObjectRef)
  deriving DecidableEq, Repr

namespace Container

/-- The bracket in front of a container's elements. -/
def opening : Container → String
  | .array _ => "["
  | .object _ => "\x7b"

/-- The bracket after a container's elements. -/
def closing : Container → String
  | .array _ => "]"
  | .object _ => "\x7d"

/-- What stands for a container inside itself. -/
def marker (c : Container) : String := c.opening ++ "..." ++ c.closing

/-- A number of its own for every container. -/
def code : Container → Nat
  | .array r => 2 * r
  | .object r => 2 * r + 1

theorem code_inj {c d : Container} (h : c.code = d.code) : c = d := by
  cases c <;> cases d <;> simp only [code] at h
  · rw [show _ = _ from Nat.eq_of_mul_eq_mul_left Nat.two_pos h]
  · omega
  · omega
  · rw [show _ = _ from Nat.eq_of_mul_eq_mul_left Nat.two_pos (Nat.succ.inj h)]

end Container

/-- An element of a container: in an object it has a key. -/
structure Element where
  key : Option String
  value : Value
  deriving DecidableEq, Repr

/-- What stands in front of an element's value. -/
def Element.label (e : Element) : String :=
  match e.key with
  | some key => "\"" ++ key ++ "\":"
  | none => ""

namespace Value

/-- The container that a value is, if it is one. -/
def container? : Value → Option Container
  | .array r => some (.array r)
  | .object r => some (.object r)
  | _ => none

/-- The text of a value that is no container.  Text is quoted only inside a container. -/
def scalarText (nested : Bool) : Value → String
  | .null => "null"
  | .bool b => if b then "true" else "false"
  | .number x => x.fixedText
  | .text s => if nested then "\"" ++ s ++ "\"" else s
  | _ => "<Function>"

end Value

namespace Store

/-- The elements of a container: an array's items, or an object's entries in the order of their
    keys without the prototype link.  Nothing if the store has no such container. -/
def elements? (st : Store) : Container → Option (List Element)
  | .array r => match st.arrays[r]? with
    | some items => some (items.toList.map fun v => ⟨none, v⟩)
    | none => none
  | .object r => match st.objects[r]? with
    | some entries => some (entries.properties.map fun (key, v) => ⟨some key, v⟩)
    | none => none

/-- The containers of a store. -/
def containers (st : Store) : List Container :=
  (List.range st.arrays.size).map .array ++ (List.range st.objects.size).map .object

/-- A number that no container of the store has more elements than. -/
def width (st : Store) : Nat :=
  st.containers.foldr (fun c n => ((st.elements? c).getD []).length + n) 0

theorem mem_containers {st : Store} {c : Container} {elements : List Element}
    (h : st.elements? c = some elements) : c ∈ st.containers := by
  cases c with
  | array r =>
    simp only [elements?] at h
    split at h
    · rename_i items hitems
      obtain ⟨hlt, -⟩ := Array.getElem?_eq_some_iff.mp hitems
      simp [containers, hlt]
    · cases h
  | object r =>
    simp only [elements?] at h
    split at h
    · rename_i entries hentries
      obtain ⟨hlt, -⟩ := Array.getElem?_eq_some_iff.mp hentries
      simp [containers, hlt]
    · cases h

theorem le_foldr_add_of_mem {α : Type} {f : α → Nat} {a : α} {as : List α} (h : a ∈ as) :
    f a ≤ as.foldr (fun b n => f b + n) 0 := by
  induction as with
  | nil => cases h
  | cons b as ih =>
    simp only [List.foldr_cons]
    rcases List.mem_cons.mp h with rfl | h
    · omega
    · have := ih h
      omega

theorem length_le_width {st : Store} {c : Container} {elements : List Element}
    (h : st.elements? c = some elements) : elements.length ≤ st.width := by
  have hle := le_foldr_add_of_mem (f := fun c => ((st.elements? c).getD []).length)
    (mem_containers h)
  simp only [h, Option.getD_some] at hle
  exact hle

end Store

/-- The codes of the containers that are being written at some place, from the outermost to the
    innermost. -/
abbrev Path := Std.TreeSet Nat

namespace Store

/-- The containers of a store that are not on a path. -/
def offPath (st : Store) (path : Path) : List Container :=
  st.containers.filter fun c => c.code ∉ path

/-- Entering a container of the store leaves fewer off the path. -/
theorem length_offPath_insert {st : Store} {path : Path} {c : Container}
    (hmem : c ∈ st.containers) (hnew : c.code ∉ path) :
    (st.offPath (path.insert c.code)).length < (st.offPath path).length := by
  have hoff : c ∈ st.offPath path := by simp [offPath, hmem, hnew]
  have hsub : st.offPath (path.insert c.code) = (st.offPath path).filter (· ≠ c) := by
    simp only [offPath, List.filter_filter]
    apply List.filter_congr
    intro d _
    by_cases hd : d = c
    · simp [hd]
    · have hcode : ¬ c.code = d.code := fun h => hd (Container.code_inj h).symm
      simp [hd, hcode]
  rw [hsub]
  apply Nat.lt_of_le_of_ne (List.length_filter_le _ _)
  intro heq
  have hall := List.length_filter_eq_length_iff.mp heq c hoff
  simp at hall

end Store

/-- A container that is being written: the elements still to come, whether none has been written
    yet, and the path to its elements, which ends with the container itself. -/
structure OpenContainer where
  container : Container
  rest : List Element
  first : Bool
  path : Path

namespace Store

/-- A bound on the steps that an element takes with `k` containers off its path, where no
    container has more than `w` elements. -/
def stepBound (w : Nat) : (k : Nat) → Nat
  | 0 => 1
  | k + 1 => w * stepBound w k + 2

theorem stepBound_pos (w k : Nat) : 0 < stepBound w k := by
  cases k <;> simp [stepBound]

theorem stepBound_mono {w j k : Nat} (h : j ≤ k) : stepBound w j ≤ stepBound w k := by
  have hstep : ∀ n, stepBound w n ≤ stepBound w (n + 1) := by
    intro n
    induction n with
    | zero => simp [stepBound]
    | succ n ih =>
      have := Nat.mul_le_mul_left w ih
      simp only [stepBound] at this ⊢
      omega
  induction h with
  | refl => exact Nat.le_refl _
  | step _ ih => exact Nat.le_trans ih (hstep _)

/-- A bound on the steps that are left with the given containers open. -/
def stepsLeft (st : Store) : List OpenContainer → Nat
  | [] => 0
  | o :: outer =>
    o.rest.length * stepBound st.width (st.offPath o.path).length + 1 + stepsLeft st outer

/-- Text followed by what remains of the open containers, the innermost of which comes first. -/
def write (st : Store) (out : String) : List OpenContainer → String
  | [] => out
  | ⟨c, [], _, _⟩ :: outer => write st (out ++ c.closing) outer
  | ⟨c, e :: rest, first, path⟩ :: outer =>
    let out := (if first then out else out ++ ",") ++ e.label
    match e.value.container? with
    | none => write st (out ++ e.value.scalarText true) (⟨c, rest, false, path⟩ :: outer)
    | some d =>
      if _hnew : d.code ∈ path then write st (out ++ d.marker) (⟨c, rest, false, path⟩ :: outer)
      else match _helements : st.elements? d with
        | none => write st (out ++ d.opening ++ d.closing) (⟨c, rest, false, path⟩ :: outer)
        | some elements =>
          write st (out ++ d.opening)
            (⟨d, elements, true, path.insert d.code⟩ :: ⟨c, rest, false, path⟩ :: outer)
termination_by pending => st.stepsLeft pending
decreasing_by
  · simp [stepsLeft]
  · have := stepBound_pos st.width (st.offPath path).length
    simp only [stepsLeft, List.length_cons, Nat.add_mul]
    omega
  · have := stepBound_pos st.width (st.offPath path).length
    simp only [stepsLeft, List.length_cons, Nat.add_mul]
    omega
  · have := stepBound_pos st.width (st.offPath path).length
    simp only [stepsLeft, List.length_cons, Nat.add_mul]
    omega
  · have hfewer := length_offPath_insert (mem_containers _helements) _hnew
    have hwide := Nat.mul_le_mul_right
      (stepBound st.width (st.offPath (path.insert d.code)).length) (length_le_width _helements)
    have hbound := stepBound_mono (w := st.width) (Nat.succ_le_of_lt hfewer)
    simp only [stepBound] at hbound
    simp only [stepsLeft, List.length_cons, Nat.add_mul]
    omega

/-- The text of a value. -/
def text (st : Store) (v : Value) : String :=
  match v.container? with
  | none => v.scalarText false
  | some c => match st.elements? c with
    | none => c.opening ++ c.closing
    | some elements => st.write c.opening [⟨c, elements, true, Std.TreeSet.empty.insert c.code⟩]

end Store

end StackMachine
