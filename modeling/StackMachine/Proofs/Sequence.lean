import Mathlib.Order.Defs.Unbundled

/-!
# Sequences of operations

Statements about an operation that changes a state and may fail, which pass through `bind` and so
need a proof only for the parts of a sequence: `Keeps R x` says that `x`, however it ends, leaves
a state that `R` relates to the one it started from, `FailsBy R x` says it of failures alone,
`NeverFails x` says that there are none, `Yields P x` says that what `x` gives has the property
`P`, and `Raises P x` says that its failures have it.
-/

namespace StackMachine

variable {ε σ α β : Type}

/-- A sequence that ends well has two parts that end well. -/
theorem bind_eq_ok {x : EStateM ε σ α} {f : α → EStateM ε σ β} {s t : σ} {b : β}
    (h : (x >>= f) s = .ok b t) : ∃ a u, x s = .ok a u ∧ f a u = .ok b t := by
  change EStateM.bind x f s = .ok b t at h
  unfold EStateM.bind at h
  split at h
  · rename_i a u hx
    exact ⟨a, u, hx, h⟩
  · cases h

/-- A sequence fails in its first part, or in its second part after the first ended well. -/
theorem bind_eq_error {x : EStateM ε σ α} {f : α → EStateM ε σ β} {s t : σ} {e : ε}
    (h : (x >>= f) s = .error e t) :
    x s = .error e t ∨ ∃ a u, x s = .ok a u ∧ f a u = .error e t := by
  change EStateM.bind x f s = .error e t at h
  unfold EStateM.bind at h
  split at h
  · rename_i a u hx
    exact Or.inr ⟨a, u, hx, h⟩
  · rename_i e' u hx
    cases h
    exact Or.inl hx

theorem except_bind_eq_ok {x : Except ε α} {f : α → Except ε β} {b : β}
    (h : (x >>= f) = .ok b) : ∃ a, x = .ok a ∧ f a = .ok b := by
  cases x with
  | error e => cases h
  | ok a => exact ⟨a, rfl, h⟩

/-- However the operation ends, the state it leaves is related to the one it started from. -/
def Keeps (R : σ → σ → Prop) (x : EStateM ε σ α) : Prop :=
  ∀ s, (∀ a t, x s = .ok a t → R s t) ∧ ∀ e t, x s = .error e t → R s t

/-- Where the operation fails, the state it leaves is related to the one it started from. -/
def FailsBy (R : σ → σ → Prop) (x : EStateM ε σ α) : Prop :=
  ∀ s e t, x s = .error e t → R s t

/-- The operation always ends well. -/
def NeverFails (x : EStateM ε σ α) : Prop := ∀ s e t, x s ≠ .error e t

/-- Where the operation ends well, what it gives has a property. -/
def Yields (P : α → Prop) (x : EStateM ε σ α) : Prop := ∀ s a t, x s = .ok a t → P a

/-- Where the operation fails, its failure has a property. -/
def Raises (P : ε → Prop) (x : EStateM ε σ α) : Prop := ∀ s e t, x s = .error e t → P e

theorem Keeps.failsBy {R : σ → σ → Prop} {x : EStateM ε σ α} (h : Keeps R x) : FailsBy R x :=
  fun s => (h s).2

theorem FailsBy.mono {R S : σ → σ → Prop} {x : EStateM ε σ α} (hx : FailsBy R x)
    (hRS : ∀ {s t}, R s t → S s t) : FailsBy S x :=
  fun s e t h => hRS (hx s e t h)

theorem Keeps.bind {R : σ → σ → Prop} [IsPreorder σ R] {x : EStateM ε σ α}
    {f : α → EStateM ε σ β} (hx : Keeps R x) (hf : ∀ a, Keeps R (f a)) : Keeps R (x >>= f) := by
  intro s
  refine ⟨fun b t h => ?_, fun e t h => ?_⟩
  · obtain ⟨a, u, hxs, hfu⟩ := bind_eq_ok h
    exact IsTrans.trans _ _ _ ((hx s).1 a u hxs) ((hf a u).1 b t hfu)
  · obtain hxs | ⟨a, u, hxs, hfu⟩ := bind_eq_error h
    · exact (hx s).2 e t hxs
    · exact IsTrans.trans _ _ _ ((hx s).1 a u hxs) ((hf a u).2 e t hfu)

/-- What comes before the part that may fail has to keep to the relation even where it ends
    well. -/
theorem FailsBy.bind {R : σ → σ → Prop} [IsPreorder σ R] {x : EStateM ε σ α}
    {f : α → EStateM ε σ β} (hx : Keeps R x) (hf : ∀ a, FailsBy R (f a)) :
    FailsBy R (x >>= f) := by
  intro s e t h
  obtain hxs | ⟨a, u, hxs, hfu⟩ := bind_eq_error h
  · exact (hx s).2 e t hxs
  · exact IsTrans.trans _ _ _ ((hx s).1 a u hxs) (hf a u e t hfu)

theorem Yields.bind {P : β → Prop} {x : EStateM ε σ α} {f : α → EStateM ε σ β}
    (hf : ∀ a, Yields P (f a)) : Yields P (x >>= f) := by
  intro s b t h
  obtain ⟨a, u, -, hfu⟩ := bind_eq_ok h
  exact hf a u b t hfu

theorem Yields.pure {P : α → Prop} {a : α} (ha : P a) : Yields P (pure a : EStateM ε σ α) := by
  intro s b t h
  cases h
  exact ha

theorem Raises.bind {P : ε → Prop} {x : EStateM ε σ α} {f : α → EStateM ε σ β}
    (hx : Raises P x) (hf : ∀ a, Raises P (f a)) : Raises P (x >>= f) := by
  intro s e t h
  obtain hxs | ⟨a, u, -, hfu⟩ := bind_eq_error h
  · exact hx s e t hxs
  · exact hf a u e t hfu

/-- An operation that only looks at the state keeps to every relation. -/
theorem keeps_of_eq {R : σ → σ → Prop} [IsPreorder σ R] {x : EStateM ε σ α} (h : Keeps Eq x) :
    Keeps R x := by
  intro s
  refine ⟨fun a t hok => ?_, fun e t herror => ?_⟩
  · rw [← (h s).1 a t hok]
    exact Std.Refl.refl s
  · rw [← (h s).2 e t herror]
    exact Std.Refl.refl s

theorem keeps_pure {R : σ → σ → Prop} [IsPreorder σ R] (a : α) :
    Keeps R (pure a : EStateM ε σ α) := by
  apply keeps_of_eq
  intro s
  refine ⟨fun b t h => ?_, fun e t h => ?_⟩ <;> cases h
  rfl

theorem NeverFails.failsBy {R : σ → σ → Prop} {x : EStateM ε σ α} (hx : NeverFails x) :
    FailsBy R x :=
  fun s e t h => absurd h (hx s e t)

theorem NeverFails.raises {P : ε → Prop} {x : EStateM ε σ α} (hx : NeverFails x) : Raises P x :=
  fun s e t h => absurd h (hx s e t)

theorem NeverFails.bind {x : EStateM ε σ α} {f : α → EStateM ε σ β} (hx : NeverFails x)
    (hf : ∀ a, NeverFails (f a)) : NeverFails (x >>= f) := by
  intro s e t h
  obtain hxs | ⟨a, u, -, hfu⟩ := bind_eq_error h
  · exact hx s e t hxs
  · exact hf a u e t hfu

theorem FailsBy.bind_neverFails {R : σ → σ → Prop} {x : EStateM ε σ α}
    {f : α → EStateM ε σ β} (hx : FailsBy R x) (hf : ∀ a, NeverFails (f a)) :
    FailsBy R (x >>= f) := by
  intro s e t h
  obtain hxs | ⟨a, u, -, hfu⟩ := bind_eq_error h
  · exact hx s e t hxs
  · exact absurd hfu (hf a u e t)

theorem neverFails_pure (a : α) : NeverFails (pure a : EStateM ε σ α) := by
  intro s e t h
  cases h

end StackMachine
