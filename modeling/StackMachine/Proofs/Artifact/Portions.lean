import StackMachine.Proofs.Artifact.Prefix

/-!
# Artifacts read in portions

A source hands out its bytes in portions of any size, may be interrupted between them, and may
break.  What is read from it is what is read from the same bytes at hand, but for the way it ends
(`Artifact.load_eq_result`).  In a source that breaks, bytes that are missing are an error of the
source; so is the end of a whole program, since the functions go on until the source has ended.
-/

namespace StackMachine

namespace Source

/-- The source is a reader of the bytes from a position on.  Each read is interrupted or hands out
    some bytes, at least one; without bytes it tells that they have ended.  With a fault, every read
    at its offset or behind it breaks, and no read hands out bytes from behind the offset. -/
inductive ServesFrom (fault : Option (Nat × String)) : Nat → List UInt8 → Source → Prop
  | ended {position : Nat}
      (h : ∀ offset reason, fault = some (offset, reason) → position < offset) :
      ServesFrom fault position [] .ended
  | broken {position offset : Nat} {reason : String} (bytes : List UInt8)
      (h : fault = some (offset, reason)) (hle : offset ≤ position) :
      ServesFrom fault position bytes (.broken reason)
  | interrupted {position : Nat} {bytes : List UInt8} {next : Source}
      (hnext : ServesFrom fault position bytes next) :
      ServesFrom fault position bytes (.interrupted next)
  | data {position : Nat} {chunk bytes : List UInt8} {next : Source} (hchunk : chunk ≠ [])
      (h : ∀ offset reason, fault = some (offset, reason) → position + chunk.length ≤ offset)
      (hnext : ServesFrom fault (position + chunk.length) bytes next) :
      ServesFrom fault position (chunk ++ bytes) (.data chunk next)

/-- The source is a reader of the bytes, with a fault at some offset or without one. -/
def Serves (s : Source) (fault : Option (Nat × String)) (bytes : List UInt8) : Prop :=
  ServesFrom fault 0 bytes s

variable {fault : Option (Nat × String)} {position : Nat} {bytes : List UInt8} {s : Source}

theorem ServesFrom.whole (hs : ServesFrom fault position bytes s)
    (h : ∀ offset reason, fault = some (offset, reason) → position + bytes.length < offset) :
    s.bytes = bytes ∧ s.stop = .ended := by
  induction hs with
  | ended => exact ⟨rfl, rfl⟩
  | broken bytes hfault hle =>
    have := h _ _ hfault
    omega
  | interrupted _ ih => exact ih h
  | data _ _ _ ih =>
    simp only [List.length_append, ← Nat.add_assoc] at h
    obtain ⟨hbytes, hstop⟩ := ih h
    exact ⟨by rw [Source.bytes, hbytes], hstop⟩

theorem ServesFrom.cut (hs : ServesFrom fault position bytes s) {offset : Nat} {reason : String}
    (hfault : fault = some (offset, reason)) (hle : position ≤ offset)
    (hlt : offset ≤ position + bytes.length) :
    s.bytes = bytes.take (offset - position) ∧ s.stop = .broken reason := by
  induction hs with
  | ended h =>
    have := h offset reason hfault
    rw [List.length_nil] at hlt
    omega
  | broken bytes h hbehind =>
    rw [hfault] at h
    cases h
    rw [Nat.sub_eq_zero_of_le hbehind, List.take_zero]
    exact ⟨rfl, rfl⟩
  | interrupted _ ih => exact ih hle hlt
  | @data position chunk bytes next _ h _ ih =>
    have hinside := h offset reason hfault
    rw [List.length_append, ← Nat.add_assoc] at hlt
    obtain ⟨hbytes, hstop⟩ := ih hinside hlt
    have hchunk : chunk.take (offset - position) = chunk := List.take_of_length_le (by omega)
    refine ⟨?_, hstop⟩
    rw [Source.bytes, hbytes, List.take_append, hchunk, Nat.sub_sub]

/-- The first bytes are handed out if a source that serves the others follows. -/
theorem ServesFrom.portion {n : Nat} {front : List UInt8} {next : Source} (hn : 0 < n)
    (hfront : front ≠ [])
    (h : ∀ offset reason, fault = some (offset, reason) → position + front.length ≤ offset)
    (hnext : ServesFrom fault (position + (front.take n).length) (front.drop n ++ bytes) next) :
    ServesFrom fault position (front ++ bytes) (.data (front.take n) next) := by
  have hsplit : front ++ bytes = front.take n ++ (front.drop n ++ bytes) := by
    rw [← List.append_assoc, List.take_append_drop]
  have hpos := List.length_pos_iff.mpr hfront
  rw [hsplit]
  refine .data ?_ ?_ hnext
  · intro hnil
    have := congrArg List.length hnil
    rw [List.length_take, List.length_nil] at this
    omega
  · intro offset reason hfault
    have hle := h offset reason hfault
    rw [List.length_take]
    omega

theorem servesFrom_inPortions (portion : Nat) (interrupts : Bool) {tail : Source}
    {front : List UInt8}
    (h : ∀ offset reason, fault = some (offset, reason) → position + front.length ≤ offset)
    (htail : ServesFrom fault (position + front.length) bytes tail) :
    ServesFrom fault position (front ++ bytes) (inPortions portion interrupts tail front) := by
  have hpos : 0 < max 1 portion := by omega
  have hlength : ∀ (position : Nat) (front : List UInt8),
      position + (front.take (max 1 portion)).length + (front.drop (max 1 portion)).length =
        position + front.length := by
    intro position front
    rw [Nat.add_assoc, ← List.length_append, List.take_append_drop]
  fun_induction inPortions portion interrupts tail front generalizing position with
  | case1 front hnil =>
    rw [List.isEmpty_iff.mp hnil] at htail ⊢
    exact .interrupted htail
  | case2 front hnil =>
    rw [List.isEmpty_iff.mp hnil] at htail ⊢
    exact htail
  | case3 front hnil rest here _ =>
    rename_i ih
    rw [← hlength] at htail
    have hrest := ih (by rw [hlength]; exact h) htail
    exact .interrupted (.portion hpos (mt List.isEmpty_iff.mpr hnil) h hrest)
  | case4 front hnil rest here _ =>
    rename_i ih
    rw [← hlength] at htail
    have hrest := ih (by rw [hlength]; exact h) htail
    exact .portion hpos (mt List.isEmpty_iff.mpr hnil) h hrest

theorem serves_faulty (portion : Nat) (interrupts : Bool) (fault : Option (Nat × String))
    (bytes : List UInt8) : (faulty portion interrupts fault bytes).Serves fault bytes := by
  unfold faulty
  split
  · have hended : ServesFrom none (0 + bytes.length) [] .ended := .ended fun _ _ h => by cases h
    have hserves := servesFrom_inPortions portion interrupts (fun _ _ h => by cases h) hended
    rwa [List.append_nil] at hserves
  · rename_i offset reason
    split
    · rename_i hle
      have hlength : 0 + (bytes.take offset).length = offset := by
        rw [Nat.zero_add, List.length_take, Nat.min_eq_left hle]
      have hbroken : ServesFrom (some (offset, reason)) (0 + (bytes.take offset).length)
          (bytes.drop offset) (.broken reason) := .broken _ rfl (Nat.le_of_eq hlength.symm)
      have hserves := servesFrom_inPortions portion interrupts ?_ hbroken
      · rwa [List.take_append_drop] at hserves
      · intro offset' reason' h
        cases h
        exact Nat.le_of_eq hlength
    · rename_i hlt
      have hended : ServesFrom (some (offset, reason)) (0 + bytes.length) [] .ended := by
        refine .ended fun offset' reason' h => ?_
        cases h
        omega
      have hserves := servesFrom_inPortions portion interrupts ?_ hended
      · rwa [List.append_nil] at hserves
      · intro offset' reason' h
        cases h
        omega

end Source

/-- The error in a source that ends in the given way, for an error in one that has ended. -/
def Artifact.LoadError.under (stop : Source.Stop) : LoadError → LoadError
  | .unexpectedEnd part => stop.error part
  | e => e

/-- What is read from a source that ends in the given way, for what is read where the bytes have
    ended.  In a source that breaks nothing is whole. -/
def Source.Stop.result {β : Type} (stop : Source.Stop) :
    Except Artifact.LoadError β → Except Artifact.LoadError β
  | .ok b => match stop with
    | .ended => .ok b
    | .broken reason => .error (.unreadable reason)
  | .error e => .error (e.under stop)

namespace Artifact

open Source

variable {α β : Type} {part : Part}

/-! ## Missing bytes -/

/-- The reader misses bytes only where the source has ended. -/
def Candid (read : Source → Except LoadError β) : Prop :=
  ∀ s part, read s = .error (.unexpectedEnd part) → s.stop = .ended

namespace Candid

theorem give (a : α) : Candid fun s => (.ok (a, s) : Except LoadError (α × Source)) := by
  intro s part h
  cases h

theorem fail {e : LoadError} (he : ∀ part, e ≠ .unexpectedEnd part) :
    Candid fun _ => (.error e : Except LoadError β) := by
  intro s part h
  cases h
  exact absurd rfl (he part)

theorem andThen {read : Reader α} {next : α → Source → Except LoadError β}
    (hstable : Stable part read) (hread : Candid read) (hnext : ∀ a, Candid (next a)) :
    Candid (andThen read next) := by
  intro s part h
  cases hs : read s with
  | error e =>
    rw [andThen_error hs] at h
    cases h
    exact hread s part hs
  | ok taken =>
    obtain ⟨a, rest⟩ := taken
    rw [andThen_ok hs] at h
    rw [← hstable.stop_eq hs]
    exact hnext a rest part h

theorem ite {c : Prop} [Decidable c] {x y : Source → Except LoadError β} (hx : Candid x)
    (hy : Candid y) : Candid fun s => if c then x s else y s := by
  by_cases hc : c
  · simpa only [if_pos hc] using hx
  · simpa only [if_neg hc] using hy

end Candid

theorem candid_need (part : Part) (n : Nat) : Candid (need part n) := by
  intro s part' h
  unfold need at h
  split at h <;> cases h
  rename_i htake
  exact (size_lt_of_take_error htake).2.symm

theorem candid_needNumber (part : Part) (n : Nat) : Candid (needNumber part n) := by
  rw [needNumber_eq_andThen]
  exact .andThen (stable_need part n) (candid_need part n) fun bytes => .give _

theorem candid_needText (part : Part) (n : Nat) : Candid (needText part n) := by
  rw [needText_eq_andThen]
  refine .andThen (stable_need part n) (candid_need part n) fun bytes => ?_
  cases Text.ofUtf8? bytes with
  | some text => exact .give text
  | none => exact .fail fun part h => by cases h

theorem candid_symbolEntry : Candid (marks symbolEntry) := by
  rw [marks_symbolEntry]
  refine .andThen (stable_needNumber _ _) (candid_needNumber _ _) fun length => .ite (.give _) ?_
  exact .andThen (stable_needText _ _) (candid_needText _ _) fun symbol => .give _

theorem candid_literalEntry : Candid (marks literalEntry) := by
  rw [marks_literalEntry]
  refine .andThen (stable_needNumber _ _) (candid_needNumber _ _) fun byte =>
    .ite (.give _) (.ite (.give _) (.ite ?_ (.ite ?_ (.fail fun part h => by cases h))))
  · exact .andThen (stable_needNumber _ _) (candid_needNumber _ _) fun bits => .give _
  · refine .andThen (stable_needNumber _ _) (candid_needNumber _ _) fun length => ?_
    exact .andThen (stable_needText _ _) (candid_needText _ _) fun text => .give _

theorem candid_instructionEntry (part : Part) : Candid (marks (instructionEntry part)) := by
  rw [marks_instructionEntry]
  refine .andThen (stable_needNumber _ _) (candid_needNumber _ _) fun byte => .ite (.give _) ?_
  cases Opcode.ofByte? (UInt8.ofNat byte) with
  | none => exact .fail fun part h => by cases h
  | some op =>
    exact .andThen (stable_needNumber _ _) (candid_needNumber _ _) fun operand => .give _

theorem candid_readAll {entry : Source → Except LoadError (Entry α)}
    {hentry : ∀ s e, entry s = .ok e → e.Shorter s} (hstable : Stable part (marks entry))
    (h : Candid (marks entry)) (found : Array α) :
    Candid fun s => readAll entry hentry s found := by
  intro s part' hs
  dsimp only at hs
  fun_induction readAll entry hentry s found with
  | case1 s found e herror =>
    cases hs
    exact h s part' (marks_eq_error_iff.mpr herror)
  | case2 => cases hs
  | case3 s found rest hres ih =>
    rw [← hstable.stop_eq (marks_eq_ok_iff (m := .reserved).mpr hres)]
    exact ih hs
  | case4 s found a rest hitem ih =>
    rw [← hstable.stop_eq (marks_eq_ok_iff (m := .item a).mpr hitem)]
    exact ih hs

theorem candid_readCode (part : Part) : Candid (readCode part) :=
  candid_readAll (stable_instructionEntry part) (candid_instructionEntry part) #[]

theorem candid_readFunction : Candid readFunction :=
  .andThen (stable_need _ _) (candid_need _ _) fun _ =>
    .andThen (stable_need _ _) (candid_need _ _) fun _ =>
      .andThen (stable_readCode _) (candid_readCode _) fun _ => .give _

/-! ## The same bytes from another source -/

variable {s t : Source}

/-- What is read is read from every source with the same bytes. -/
theorem Stable.ok_of_bytes {read : Reader α} (hread : Stable part read)
    (hbytes : t.bytes = s.bytes) {a : α} {rest : Source} (h : read s = .ok (a, rest)) :
    ∃ rest', read t = .ok (a, rest') ∧ rest'.bytes = rest.bytes ∧ rest'.stop = t.stop := by
  have hst : t.bytes = s.bytes ++ [] := by rw [List.append_nil, hbytes]
  obtain ⟨rest', hrest', hbytes', hstop⟩ := hread.ok h hst
  rw [List.append_nil] at hbytes'
  exact ⟨rest', hrest', hbytes', hstop⟩

/-- Where a reader fails in a source that ends, it fails in the same place of a source with the same
    bytes that ends in another way. -/
theorem Stable.error_under {read : Reader α} (hread : Stable part read) (hcandid : Candid read)
    (hbytes : t.bytes = s.bytes) (hs : s.stop = .ended) {e : LoadError} (h : read s = .error e) :
    read t = .error (e.under t.stop) := by
  have hst : t.bytes = s.bytes ++ [] := by rw [List.append_nil, hbytes]
  have hts : s.bytes = t.bytes ++ [] := by rw [List.append_nil, hbytes]
  obtain hend | hall := hread.error h
  · rw [hs] at hend
    cases hend
    cases ht : read t with
    | ok taken =>
      obtain ⟨a, rest⟩ := taken
      obtain ⟨rest', hrest', -⟩ := hread.ok_of_bytes hbytes.symm ht
      rw [h] at hrest'
      cases hrest'
    | error e' =>
      obtain hend' | hall' := hread.error ht
      · rw [hend']
        rfl
      · have hsame := hall' s [] hts
        rw [h] at hsame
        cases hsame
        rw [hcandid t part ht]
        rfl
  · have ht := hall t [] hst
    rw [ht]
    cases e with
    | unexpectedEnd part' =>
      rw [hcandid t part' ht]
      rfl
    | _ => rfl

/-- What is read from a source is what is read from one with the same bytes that ends, but for the
    way it ends itself. -/
def Transparent (read : Source → Except LoadError β) : Prop :=
  ∀ s t, t.bytes = s.bytes → s.stop = .ended → read t = t.stop.result (read s)

theorem Transparent.andThen {read : Reader α} {next : α → Source → Except LoadError β}
    (hread : Stable part read) (hcandid : Candid read) (hnext : ∀ a, Transparent (next a)) :
    Transparent (andThen read next) := by
  intro s t hbytes hs
  cases h : read s with
  | error e =>
    rw [andThen_error h, andThen_error (hread.error_under hcandid hbytes hs h)]
    rfl
  | ok taken =>
    obtain ⟨a, rest⟩ := taken
    obtain ⟨rest', hrest', hbytes', hstop⟩ := hread.ok_of_bytes hbytes h
    rw [andThen_ok h, andThen_ok hrest', ← hstop]
    exact hnext a rest rest' hbytes' ((hread.stop_eq h).trans hs)

theorem Transparent.fail {e : LoadError} (he : ∀ part, e ≠ .unexpectedEnd part) :
    Transparent fun _ => (.error e : Except LoadError β) := by
  intro s t _ _
  cases e with
  | unexpectedEnd part => exact absurd rfl (he part)
  | _ => rfl

theorem bytes_of_finished {rest : Source} (h : functionEntry s = .ok (.finished rest)) :
    s.bytes = [] := by
  by_contra hmore
  rw [functionEntry_eq fun hend => hmore hend.1] at h
  cases hread : readFunction s <;> rw [hread] at h <;> cases h

/-- The functions are whole only where the source has ended. -/
theorem transparent_readFunctions (found : Array FunctionDef) (f : Array FunctionDef → β) :
    Transparent fun s => readAll functionEntry functionEntry_shorter s found >>= fun taken =>
      .ok (f taken.1) := by
  intro s t hbytes hs
  dsimp only
  fun_induction readAll functionEntry functionEntry_shorter s found generalizing t with
  | case1 s found e herror =>
    have hmore : s.bytes ≠ [] := by
      intro hnil
      rw [functionEntry_of_ended hnil hs] at herror
      cases herror
    have hread := stable_readFunction.error_under candid_readFunction hbytes hs
      (readFunction_of_error herror)
    rw [← hbytes] at hmore
    rw [readAll_error (functionEntry_of_error hmore hread)]
    rfl
  | case2 s found rest hfinished =>
    have hnil : t.bytes = [] := hbytes.trans (bytes_of_finished hfinished)
    cases hstop : t.stop with
    | ended =>
      rw [readAll_finished (functionEntry_of_ended hnil hstop)]
      rfl
    | broken reason =>
      have hbroken : functionEntry t = .error (.unreadable reason) := by
        rw [functionEntry_eq (by simp [hstop]), readFunction_of_nil hnil, hstop]
        rfl
      rw [readAll_error hbroken]
      rfl
  | case3 s found rest hreserved ih =>
    obtain ⟨tag, htag, -⟩ := functionEntry_follows _ _ hreserved
    cases htag
  | case4 s found function rest hitem ih =>
    have hread := readFunction_of_item hitem
    obtain ⟨rest', hread', hbytes', hstop⟩ := stable_readFunction.ok_of_bytes hbytes hread
    rw [readAll_item (functionEntry_of_ok hread'), ← hstop]
    exact ih rest' hbytes' ((stable_readFunction.stop_eq hread).trans hs)

theorem transparent_load : Transparent load := by
  rw [load_eq_andThen]
  refine .andThen (stable_needNumber _ _) (candid_needNumber _ _) fun found => ?_
  by_cases hmagic : found = magic
  · simp only [if_pos hmagic]
    refine .andThen stable_readSymbols (candid_readAll stable_symbolEntry candid_symbolEntry _)
      fun symbols => ?_
    refine .andThen stable_readLiterals (candid_readAll stable_literalEntry candid_literalEntry _)
      fun literals => ?_
    refine .andThen (stable_readCode _) (candid_readCode _) fun code => ?_
    exact transparent_readFunctions #[] (Program.mk symbols literals code)
  · simp only [if_neg hmagic]
    exact .fail fun part h => by cases h

/-- A source is read like its bytes at hand. -/
theorem load_eq_result (s : Source) : load s = s.stop.result (decode s.bytes) :=
  transparent_load (ofBytes s.bytes) s (bytes_ofBytes _).symm rfl

/-- A reader of some bytes, whatever its portions and interruptions, is read like the bytes
    themselves if no fault lies within them.  With a fault, what the bytes before it decide stands:
    an error there other than missing bytes is the error of the reader, and of all the bytes.  In
    every other case, even if the bytes before the fault hold a program, the reader's own reason is
    the error. -/
theorem load_of_serves {fault : Option (Nat × String)} {bytes : List UInt8}
    (h : s.Serves fault bytes) :
    ((∀ offset reason, fault = some (offset, reason) → bytes.length < offset) →
      load s = decode bytes) ∧
    ∀ offset reason, fault = some (offset, reason) → offset ≤ bytes.length →
      (∀ e, decode (bytes.take offset) = .error e → (∀ part, e ≠ .unexpectedEnd part) →
        load s = .error e ∧ decode bytes = .error e) ∧
      ((∀ e, decode (bytes.take offset) = .error e → ∃ part, e = .unexpectedEnd part) →
        load s = .error (.unreadable reason)) := by
  refine ⟨fun hfault => ?_, fun offset reason hfault hle => ?_⟩
  · obtain ⟨hbytes, hstop⟩ := ServesFrom.whole h (by simpa only [Nat.zero_add] using hfault)
    rw [load_eq_result, hbytes, hstop]
    cases hdecode : decode bytes with
    | ok p => rfl
    | error e => cases e <;> rfl
  · obtain ⟨hbytes, hstop⟩ := ServesFrom.cut h hfault (Nat.zero_le _) (by omega)
    rw [Nat.sub_zero] at hbytes
    rw [load_eq_result, hbytes, hstop]
    refine ⟨fun e he hother => ?_, fun hmissing => ?_⟩
    · rw [he]
      refine ⟨?_, ?_⟩
      · cases e with
        | unexpectedEnd part => exact absurd rfl (hother part)
        | _ => rfl
      · have hmore := decode_append_of_error he hother (bytes.drop offset)
        rwa [List.take_append_drop] at hmore
    · cases hdecode : decode (bytes.take offset) with
      | ok p => rfl
      | error e =>
        obtain ⟨part, rfl⟩ := hmissing e hdecode
        rfl

/-- A fault behind a whole artifact is seen, one behind a wrong start is not. -/
theorem load_of_serves_faulty :
    let whole := [0x01, 0x17, 0xFF, 0xFF, 0xFF]
    let wrong := [0x02, 0x17, 0xFF]
    let p : Program := ⟨#[], #[], #[], #[]⟩
    (faulty 2 true none whole).Serves none whole ∧
      (faulty 2 true (some (5, "torn")) whole).Serves (some (5, "torn")) whole ∧
      (faulty 1 false (some (2, "torn")) wrong).Serves (some (2, "torn")) wrong ∧
      load (faulty 2 true none whole) = .ok p ∧
      load (faulty 2 true (some (5, "torn")) whole) = .error (.unreadable "torn") ∧
      load (faulty 1 false (some (2, "torn")) wrong) = .error (.badMagic 0x1702) := by
  intro whole wrong p
  have hwhole := serves_faulty 2 true none whole
  have htorn := serves_faulty 2 true (some (5, "torn")) whole
  have hwrong := serves_faulty 1 false (some (2, "torn")) wrong
  have hdecode : decode whole = .ok p :=
    decode_eq_ok_iff_holds.mpr ⟨by decide, ⟨[], [], [], []⟩, ⟨_, rfl, rfl, .nil, rfl, rfl⟩, rfl⟩
  have hmissing : ∀ e, decode (whole.take 5) = .error e → ∃ part, e = .unexpectedEnd part := by
    intro e he
    rw [show whole.take 5 = whole from rfl, hdecode] at he
    cases he
  refine ⟨hwhole, htorn, hwrong, ?_, ?_, ?_⟩
  · rw [(load_of_serves hwhole).1 (fun _ _ h => by cases h), hdecode]
  · exact ((load_of_serves htorn).2 5 "torn" rfl (by decide)).2 hmissing
  · exact (((load_of_serves hwrong).2 2 "torn" rfl (by decide)).1 _ rfl (fun _ h => by cases h)).1

end Artifact

end StackMachine
