import StackMachine.Text.Quoted

/-!
# Lines

A text that is made of lines is made of them in one way only (`lines_of_unlines`), as long as there
is no line break inside a line.  Here is also which texts have none: among them all quoted texts,
whatever they quote (`oneLine_quoted`).
-/

namespace StackMachine

/-- A list that goes on with something else where a property ends for the first time tells where
    that is. -/
theorem append_inj_of_head {α : Type} {p : α → Bool} {xs ys xs' ys' : List α}
    (hxs : ∀ x ∈ xs, p x = true) (hys : ∀ y ∈ ys, p y = true)
    (hxs' : ∀ x, xs'.head? = some x → p x = false) (hys' : ∀ y, ys'.head? = some y → p y = false)
    (h : xs ++ xs' = ys ++ ys') : xs = ys ∧ xs' = ys' := by
  have htake : ∀ {zs zs' : List α}, (∀ z ∈ zs, p z = true) →
      (∀ z, zs'.head? = some z → p z = false) → (zs ++ zs').takeWhile p = zs := by
    intro zs zs' hzs hzs'
    rw [List.takeWhile_append_of_pos hzs]
    cases zs' with
    | nil => simp
    | cons z zs' => simp [hzs' z rfl]
  have heq : xs = ys := by rw [← htake hxs hxs', h, htake hys hys']
  subst heq
  exact ⟨rfl, List.append_cancel_left h⟩

namespace Text

variable {s t : String} {rows others : List String}

/-- A text without a line break. -/
def OneLine (s : String) : Prop := '\n' ∉ s.toList

instance : DecidablePred OneLine := fun s => inferInstanceAs (Decidable ('\n' ∉ s.toList))

/-- Lines one after the other, each with a line break at its end. -/
def unlines (rows : List String) : String := String.join (rows.map (· ++ "\n"))

/-- Texts that go on with something else where a property of their characters ends. -/
theorem append_inj_of_head {p : Char → Bool} {s' t' : String} (hs : ∀ c ∈ s.toList, p c = true)
    (ht : ∀ c ∈ t.toList, p c = true) (hs' : ∀ c, s'.toList.head? = some c → p c = false)
    (ht' : ∀ c, t'.toList.head? = some c → p c = false) (h : s ++ s' = t ++ t') :
    s = t ∧ s' = t' := by
  rw [← String.toList_inj, String.toList_append, String.toList_append] at h
  obtain ⟨hfront, hrest⟩ := StackMachine.append_inj_of_head hs ht hs' ht' h
  exact ⟨String.toList_inj.mp hfront, String.toList_inj.mp hrest⟩

/-! ## Texts without a line break -/

@[simp]
theorem oneLine_append : OneLine (s ++ t) ↔ OneLine s ∧ OneLine t := by
  simp [OneLine, not_or]

theorem oneLine_intercalate {separator : String} {texts : List String} (hs : OneLine separator)
    (h : ∀ s ∈ texts, OneLine s) : OneLine (separator.intercalate texts) := by
  induction texts with
  | nil => simp [OneLine]
  | cons s texts ih =>
    have hhead := h s List.mem_cons_self
    have htail := ih fun t ht => h t (List.mem_cons_of_mem _ ht)
    cases texts with
    | nil => simpa using hhead
    | cons t texts =>
      rw [String.intercalate_cons_of_ne_nil (by simp)]
      simp [hs, hhead, htail]

theorem oneLine_ofList_toDigits (base n : Nat) (hbase : 1 < base) :
    OneLine (String.ofList (Nat.toDigits base n)) := by
  unfold OneLine
  rw [String.toList_ofList]
  induction n using Nat.strongRecOn with
  | ind n ih =>
    by_cases hn : n < base
    · simp [Nat.toDigits_of_lt_base hn]
    · have hdiv : n / base < n := Nat.div_lt_self (by omega) hbase
      simp [Nat.toDigits_of_base_le hbase (Nat.le_of_not_lt hn), ih _ hdiv]

@[simp]
theorem oneLine_decimal (n : Nat) : OneLine (decimal n) := oneLine_ofList_toDigits 10 n (by decide)

@[simp]
theorem oneLine_hexadecimal (n : Nat) : OneLine (hexadecimal n) :=
  oneLine_ofList_toDigits 16 n (by decide)

theorem oneLine_padLeft (width : Nat) {fill : Char} (hfill : fill ≠ '\n') (h : OneLine s) :
    OneLine (padLeft width fill s) := by
  rw [padLeft, oneLine_append]
  refine ⟨?_, h⟩
  simp [OneLine, hfill.symm]

theorem oneLine_codePointEscape (c : Char) : OneLine (codePointEscape c) := by
  rw [codePointEscape, oneLine_append, oneLine_append]
  exact ⟨⟨by decide, oneLine_hexadecimal _⟩, by decide⟩

theorem oneLine_quotedChar (c : Char) : OneLine (quotedChar c) := by
  fun_cases quotedChar c with
  | case7 _ _ _ hnewline => simp [OneLine, Ne.symm hnewline]
  | case8 => exact oneLine_codePointEscape c
  | _ => decide

/-- Whatever a text is, it has no line break when it is quoted. -/
theorem oneLine_quoted (s : String) : OneLine (quoted s) := by
  have hfold : ∀ (cs : List Char) (text : String), OneLine text →
      OneLine (cs.foldl (fun text c => text ++ quotedChar c) text) := by
    intro cs
    induction cs with
    | nil => exact fun _ h => h
    | cons c cs ih => exact fun _ h => ih _ (oneLine_append.mpr ⟨h, oneLine_quotedChar c⟩)
  rw [quoted, oneLine_append]
  exact ⟨hfold _ _ (by decide), by decide⟩

/-! ## Texts made of lines -/

theorem unlines_cons (row : String) (below : List String) :
    unlines (row :: below) = row ++ "\n" ++ unlines below := by
  simp [unlines]

theorem unlines_append (above below : List String) :
    unlines (above ++ below) = unlines above ++ unlines below := by
  simp [unlines]

/-- Lines without line breaks are determined by the text that they make. -/
theorem lines_of_unlines (hrows : ∀ row ∈ rows, OneLine row) (hothers : ∀ row ∈ others, OneLine row)
    (h : unlines rows = unlines others) : rows = others := by
  have hinside : ∀ {line : String}, OneLine line → ∀ c ∈ line.toList, (c != '\n') = true :=
    fun hline c hc => bne_iff_ne.mpr fun heq => hline (heq ▸ hc)
  have hend : ∀ (below : String) (c : Char),
      ("\n" ++ below).toList.head? = some c → (c != '\n') = false := by simp
  induction rows generalizing others with
  | nil =>
    cases others with
    | nil => rfl
    | cons other others => simp [unlines] at h
  | cons row rows ih =>
    cases others with
    | nil => simp [unlines] at h
    | cons other others =>
      obtain ⟨hrow, hrows⟩ := List.forall_mem_cons.mp hrows
      obtain ⟨hother, hbelow⟩ := List.forall_mem_cons.mp hothers
      rw [unlines_cons, unlines_cons, String.append_assoc, String.append_assoc] at h
      obtain ⟨rfl, hrest⟩ :=
        append_inj_of_head (hinside hrow) (hinside hother) (hend _) (hend _) h
      rw [ih hrows hbelow ((String.append_right_inj _).mp hrest)]

end Text

end StackMachine
