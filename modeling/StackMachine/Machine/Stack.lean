/-!
# Stacks

A stack is a list with its top first, together with its size.  Several items are popped all or
none, and come out in the order in which they were pushed.  Two stacks with the same items are
equal (`Stack.ext_topDown`), so everything can be said about `topDown`.
-/

namespace StackMachine

/-- A stack. -/
structure Stack (α : Type) where
  /-- The items from the top down. -/
  topDown : List α
  /-- The number of items. -/
  size : Nat
  size_eq : size = topDown.length
  deriving DecidableEq, Repr

namespace Stack

variable {α : Type}

/-- The stack with the given items from the top down. -/
def ofTopDown (items : List α) : Stack α := ⟨items, items.length, rfl⟩

/-- The stack without items. -/
def empty : Stack α := ⟨[], 0, rfl⟩

instance : Inhabited (Stack α) := ⟨empty⟩

/-- The stack with one more item on top. -/
def push (s : Stack α) (a : α) : Stack α :=
  ⟨a :: s.topDown, s.size + 1, by simp [s.size_eq]⟩

/-- The top item and the stack below it. -/
def pop? : Stack α → Option (α × Stack α)
  | ⟨a :: rest, size, h⟩ => some (a, ⟨rest, size - 1, by simp [h]⟩)
  | ⟨[], _, _⟩ => none

/-- The top item. -/
def peek? (s : Stack α) : Option α := s.topDown.head?

/-- The items from the bottom up. -/
def items (s : Stack α) : List α := s.topDown.reverse

/-- The top `n` items in front of those given, from the bottom up, and the stack below them. -/
def takeTop : (n : Nat) → (found : List α) → Stack α → Option (List α × Stack α)
  | 0, found, s => some (found, s)
  | n + 1, found, s => match s.pop? with
    | some (a, rest) => takeTop n (a :: found) rest
    | none => none

/-- The top `n` items from the bottom up and the stack below them, if there are as many. -/
def popN? (s : Stack α) (n : Nat) : Option (List α × Stack α) := takeTop n [] s

/-! ## The items after each operation -/

/-- Stacks with the same items are equal. -/
theorem ext_topDown {s t : Stack α} (h : s.topDown = t.topDown) : s = t := by
  obtain ⟨items, size, hsize⟩ := s
  obtain ⟨items', size', hsize'⟩ := t
  cases h
  cases hsize
  cases hsize'
  rfl

@[simp]
theorem topDown_ofTopDown (items : List α) : (ofTopDown items).topDown = items := rfl

@[simp]
theorem ofTopDown_topDown (s : Stack α) : ofTopDown s.topDown = s := ext_topDown rfl

@[simp]
theorem topDown_empty : (empty : Stack α).topDown = [] := rfl

@[simp]
theorem topDown_push (s : Stack α) (a : α) : (s.push a).topDown = a :: s.topDown := rfl

@[simp]
theorem items_empty : (empty : Stack α).items = [] := rfl

@[simp]
theorem items_push (s : Stack α) (a : α) : (s.push a).items = s.items ++ [a] := by
  simp [items]

@[simp]
theorem size_push (s : Stack α) (a : α) : (s.push a).size = s.size + 1 := rfl

theorem size_eq_length_items (s : Stack α) : s.size = s.items.length := by
  simp [items, s.size_eq]

theorem eq_empty_iff_size {s : Stack α} : s = empty ↔ s.size = 0 := by
  constructor
  · rintro rfl
    rfl
  · intro h
    rw [s.size_eq] at h
    exact ext_topDown (List.length_eq_zero_iff.mp h)

/-- A pop takes the top item off. -/
theorem pop?_eq_some_iff {s rest : Stack α} {a : α} :
    s.pop? = some (a, rest) ↔ s.topDown = a :: rest.topDown := by
  obtain ⟨items, size, hsize⟩ := s
  cases items with
  | nil => simp [pop?]
  | cons b items =>
    simp only [pop?, Option.some.injEq, Prod.mk.injEq, List.cons.injEq]
    constructor
    · rintro ⟨rfl, rfl⟩
      exact ⟨rfl, rfl⟩
    · rintro ⟨rfl, hrest⟩
      exact ⟨rfl, ext_topDown hrest⟩

/-- Nothing is popped off the empty stack alone. -/
theorem pop?_eq_none_iff {s : Stack α} : s.pop? = none ↔ s.topDown = [] := by
  obtain ⟨items, size, hsize⟩ := s
  cases items <;> simp [pop?]

theorem takeTop_eq (n : Nat) (found : List α) (s : Stack α) :
    takeTop n found s =
      if n ≤ s.topDown.length then
        some ((s.topDown.take n).reverse ++ found, ofTopDown (s.topDown.drop n))
      else none := by
  induction n generalizing found s with
  | zero => simp [takeTop]
  | succ n ih =>
    unfold takeTop
    split
    · rename_i a rest hpop
      have htop := pop?_eq_some_iff.mp hpop
      simp [ih, htop]
    · rename_i hpop
      have htop := pop?_eq_none_iff.mp hpop
      simp [htop]

/-- Popping several items succeeds exactly if there are as many. -/
theorem popN?_eq (s : Stack α) (n : Nat) :
    s.popN? n =
      if n ≤ s.size then some ((s.topDown.take n).reverse, ofTopDown (s.topDown.drop n))
      else none := by
  simp [popN?, takeTop_eq, s.size_eq]

end Stack

end StackMachine
