import StackMachine.Proofs.Machine.Failure

/-!
# Output with a limit

Nothing but a print looks at the sink, and a print writes its line as a whole.  So a run with a
sink that takes a limited number of bytes is the run with one that takes everything, up to the print
that goes beyond the limit if there is one, and what was written by then is the beginning of what
the other run writes (`State.run_limited`).
-/

namespace StackMachine

/-! ## Sinks -/

namespace Sink

variable {bytes : ByteArray} {room : Nat}

/-- A sink that takes everything. -/
def unlimited (written : ByteArray) : Sink := { written }

/-- A sink that takes `room` more bytes and then none, for a reason; it can always be flushed. -/
def limited (written : ByteArray) (room : Nat) (reason : String) : Sink :=
  { written, room := some room, refusal := reason }

theorem write_unlimited (written bytes : ByteArray) :
    (unlimited written).write bytes = (true, unlimited (written ++ bytes)) := rfl

theorem write_limited_of_le (written : ByteArray) (reason : String) (h : bytes.size ≤ room) :
    (limited written room reason).write bytes =
      (true, limited (written ++ bytes) (room - bytes.size) reason) := by
  simp [write, limited, h]

theorem write_limited_of_lt (written : ByteArray) (reason : String) (h : room < bytes.size) :
    (limited written room reason).write bytes =
      (false, limited (written ++ bytes.extract 0 room) 0 reason) := by
  simp [write, limited, h]

theorem write_empty (sink : Sink) : sink.write .empty = (true, sink) := by
  obtain ⟨written, room, refusal, flushFailure⟩ := sink
  cases room <;> simp [write]

/-- Bytes can be offered in two parts, the second only if the first was taken. -/
theorem write_append (sink : Sink) (first second : ByteArray) :
    sink.write (first ++ second) =
      match sink.write first with
      | (true, sink) => sink.write second
      | (false, sink) => (false, sink) := by
  obtain ⟨written, room, refusal, flushFailure⟩ := sink
  cases room with
  | none => simp [write, ByteArray.append_assoc]
  | some room =>
    by_cases hfirst : first.size ≤ room
    · by_cases hsecond : second.size ≤ room - first.size
      · have hboth : first.size + second.size ≤ room := by omega
        simp [write, hfirst, hsecond, hboth, ByteArray.append_assoc, Nat.sub_sub]
      · -- The limit falls into the second part, of which the beginning is written.
        have hboth : ¬ first.size + second.size ≤ room := by omega
        have hall : first.extract 0 room = first := by
          apply ByteArray.ext
          rw [ByteArray.data_extract, Array.extract_eq_self_of_le hfirst]
        simp [write, hfirst, hsecond, hboth, ByteArray.append_assoc, ByteArray.extract_append, hall]
    · -- The limit falls into the first part.
      have hboth : ¬ first.size + second.size ≤ room := by omega
      have hnone : room - first.size = 0 := by omega
      simp [write, hfirst, hboth, ByteArray.extract_append, hnone]

theorem of_write_append {sink sink' : Sink} {first second : ByteArray} {taken : Bool}
    (h : sink.write (first ++ second) = (taken, sink')) :
    taken = false ∧ sink.write first = (false, sink') ∨
      ∃ middle, sink.write first = (true, middle) ∧ middle.write second = (taken, sink') := by
  rw [write_append] at h
  split at h
  · rename_i middle hfirst
    exact Or.inr ⟨middle, hfirst, h⟩
  · cases h
    exact Or.inl ⟨rfl, by assumption⟩

theorem flushFailure_of_write {sink sink' : Sink} {taken : Bool}
    (h : sink.write bytes = (taken, sink')) : sink'.flushFailure = sink.flushFailure := by
  unfold write at h
  split at h
  · cases h
    rfl
  · split at h <;> cases h <;> rfl

end Sink

/-- The state with another sink. -/
def State.withSink (s : State) (sink : Sink) : State := { s with sink }

/-- What a step leads to, with another sink. -/
def Progress.withSink (sink : Sink) : Progress → Progress
  | .running s => .running (s.withSink sink)
  | .halted s => .halted (s.withSink sink)
  | .failed f s => .failed f (s.withSink sink)

/-- What a run leads to, with another sink. -/
def Outcome.withSink (sink : Sink) : Outcome → Outcome
  | .finished s => .finished (s.withSink sink)
  | .failed f s => .failed f (s.withSink sink)
  | .unfinished s => .unfinished (s.withSink sink)

namespace Outcome

theorem sink_state_withSink (sink : Sink) (o : Outcome) : (o.withSink sink).state.sink = sink := by
  cases o <;> rfl

theorem withSink_withSink (sink sink' : Sink) (o : Outcome) :
    (o.withSink sink).withSink sink' = o.withSink sink' := by
  cases o <;> rfl

end Outcome

/-! ## Operations that do not look at the sink -/

namespace Exec

open State

variable {α β : Type} {p : Program} {cfg : Settings}

/-- The result of an operation, with another sink. -/
def redirect (sink : Sink) : EStateM.Result Fault State α → EStateM.Result Fault State α
  | .ok a s => .ok a (s.withSink sink)
  | .error f s => .error f (s.withSink sink)

/-- The operation does the same whatever the sink is, and leaves that as it is. -/
def IgnoresSink (x : Exec α) : Prop := ∀ s sink, x (s.withSink sink) = redirect sink (x s)

namespace IgnoresSink

theorem bind {x : Exec α} {f : α → Exec β} (hx : IgnoresSink x) (hf : ∀ a, IgnoresSink (f a)) :
    IgnoresSink (x >>= f) := by
  intro s sink
  change EStateM.bind x f (s.withSink sink) = redirect sink (EStateM.bind x f s)
  unfold EStateM.bind
  rw [hx]
  cases x s with
  | ok a t => exact hf a t sink
  | error f t => rfl

theorem pure (a : α) : IgnoresSink (pure a : Exec α) := fun _ _ => rfl

theorem fault (f : Fault) : IgnoresSink (fault f : Exec α) := fun _ _ => rfl

theorem orFault (f : Fault) (o : Option α) : IgnoresSink (orFault f o) := by
  cases o with
  | none => exact .fault f
  | some a => exact .pure a

theorem ofExcept (r : Except Fault α) : IgnoresSink (ofExcept r) := by
  cases r with
  | error f => exact .fault f
  | ok a => exact .pure a

theorem read {f : State → α} (hf : ∀ s sink, f (s.withSink sink) = f s) :
    IgnoresSink (read f) := by
  intro s sink
  simp only [Exec.read, hf]
  rfl

theorem change {f : State → State} (hf : ∀ s sink, f (s.withSink sink) = (f s).withSink sink) :
    IgnoresSink (change f) := by
  intro s sink
  simp only [Exec.change, hf]
  rfl

theorem updateStore (f : Store → α × Store) : IgnoresSink (updateStore f) := fun _ _ => rfl

theorem push (v : Value) : IgnoresSink (push v) := change fun _ _ => rfl

theorem pop : IgnoresSink pop := by
  intro s sink
  simp only [Exec.pop, withSink]
  cases s.operands.pop? <;> rfl

theorem popN (n : Nat) : IgnoresSink (popN n) := by
  intro s sink
  simp only [Exec.popN, withSink]
  cases s.operands.popN? n <;> rfl

theorem peek : IgnoresSink peek := by
  intro s sink
  simp only [Exec.peek, withSink]
  cases s.operands.peek? <;> rfl

theorem act (wrap : Library.NativeError → Fault) (action : Library.Action α) :
    IgnoresSink (act wrap action) := by
  intro s sink
  simp only [Exec.act, withSink]
  cases action s.store <;> rfl

theorem leave (v : Value) : IgnoresSink (leave v) := by
  intro s sink
  simp only [Exec.leave, withSink]
  cases s.frames.pop? with
  | none => rfl
  | some frame => cases s.suspended.pop? <;> rfl

theorem enter (c : ClosureRef) (site : Option Value) (args : List Value) :
    IgnoresSink (enter p cfg c site args) := by
  intro s sink
  unfold Exec.enter
  have hframes : (s.withSink sink).frames = s.frames := rfl
  by_cases hfull : cfg.maxCallDepth ≤ s.frames.size
  · rw [hframes, if_pos hfull, if_pos hfull]
    rfl
  · rw [hframes, if_neg hfull, if_neg hfull]
    simp only [withSink]
    cases s.store.closures[c]? with
    | none => rfl
    | some closure =>
      dsimp only
      cases p.functions[closure.function]? with
      | none => rfl
      | some function =>
        dsimp only
        cases bindings p function.params.toList args <;> rfl

theorem callNative (native : Native) (site : Option Value) (args : List Value) :
    IgnoresSink (callNative cfg native site args) := by
  unfold Exec.callNative
  split
  · exact (act _ _).bind fun v => (push v).bind fun _ => pure _
  · exact fault _

theorem callValue (callee : Value) (site : Option Value) (args : List Value) :
    IgnoresSink (callValue p cfg callee site args) := by
  cases callee with
  | closure c => exact enter c site args
  | native n =>
    refine bind (read fun _ _ => rfl) fun found => ?_
    cases found with
    | none => exact fault _
    | some native => exact callNative native site args
  | object o =>
    refine bind (read fun _ _ => rfl) fun found => ?_
    cases found with
    | none => exact fault _
    | some c => exact enter c site args
  | _ => exact fault _

theorem call (n : Nat) (withSite : Bool) : IgnoresSink (call p cfg n withSite) := by
  refine (popN n).bind fun args => pop.bind fun callee => ?_
  cases withSite with
  | false => exact callValue callee none args
  | true => exact pop.bind fun site => callValue callee (some site) args

theorem getProperty (keepContainer : Bool) : IgnoresSink (getProperty keepContainer) := by
  refine pop.bind fun key => pop.bind fun container => ?_
  have hquery : IgnoresSink fun s => Exec.ofExcept (s.store.property container key) s :=
    fun s sink => ofExcept (s.store.property container key) s sink
  refine hquery.bind fun v => ?_
  cases keepContainer with
  | false => exact push v
  | true => exact (push container).bind fun _ => push v

theorem setProperty : IgnoresSink setProperty := by
  refine pop.bind fun v => pop.bind fun key => pop.bind fun container => ?_
  refine (ofExcept _).bind fun target => ?_
  exact (change fun _ _ => rfl).bind fun _ => push v

theorem binaryOperator (op : Opcode) : IgnoresSink (binaryOperator op) := by
  refine pop.bind fun right => pop.bind fun left => ?_
  split
  · exact push _
  · exact fault _

/-- Nothing but a print looks at the sink. -/
theorem instruction {i : Instruction} (h : i.op ≠ .print) :
    IgnoresSink (instruction p cfg i) := by
  obtain ⟨op, operand⟩ := i
  cases op
  case print => exact absurd rfl h
  case loadConst => exact (orFault _ _).bind fun l => (push l.value).bind fun _ => pure _
  case load =>
    refine (orFault _ _).bind fun name => (read fun _ _ => rfl).bind fun found => ?_
    exact (orFault _ found).bind fun v => (push v).bind fun _ => pure _
  case declare =>
    refine (orFault _ _).bind fun name => peek.bind fun v => ?_
    exact (change fun _ _ => rfl).bind fun _ => pure _
  case assign =>
    refine (orFault _ _).bind fun name => peek.bind fun v => (read fun _ _ => rfl).bind ?_
    intro scope
    refine (updateStore _).bind fun found => ?_
    split
    · exact pure _
    · exact fault _
  case pop | jumpTruthy | jumpFalsy => exact pop.bind fun _ => pure _
  case dup => exact peek.bind fun v => (push v).bind fun _ => pure _
  case jump => exact pure _
  case call | callWith => exact call _ _
  case function =>
    simp only [Exec.instruction]
    split
    · refine (read fun _ _ => rfl).bind fun scope => (updateStore _).bind fun c => ?_
      exact (push _).bind fun _ => pure _
    · exact fault _
  case ret => exact leave _
  case retValue => exact pop.bind fun v => leave v
  case enterScope =>
    refine (read fun _ _ => rfl).bind fun scope => (updateStore _).bind fun fresh => ?_
    exact (change fun _ _ => rfl).bind fun _ => pure _
  case leaveScope =>
    refine (read fun _ _ => rfl).bind fun outer => (orFault _ outer).bind fun scope => ?_
    exact (change fun _ _ => rfl).bind fun _ => pure _
  case get | getWith => exact (getProperty _).bind fun _ => pure _
  case set => exact setProperty.bind fun _ => pure _
  case neg | not => exact IgnoresSink.bind (pop.bind fun v => push _) fun _ => pure _
  -- What is left are the binary operators.
  all_goals exact (binaryOperator _).bind fun _ => pure _

end IgnoresSink

/-- A print with enough operands offers its line to the sink, and fails if that does not take all of
    it. -/
theorem print_eq {n : Nat} {s : State} (h : n ≤ s.operands.size) :
    print n s =
      let t := { s with operands := .ofTopDown (s.operands.topDown.drop n) }
      match s.sink.write (s.line n).toUTF8 with
      | (true, sink) => .ok () (t.withSink sink)
      | (false, sink) => .error (.output sink.refusal) (t.withSink sink) := by
  have hpop : popN n s =
      .ok (s.operands.topDown.take n).reverse
        { s with operands := .ofTopDown (s.operands.topDown.drop n) } := by
    rw [popN, Stack.popN?_eq, if_pos h]
  simp only [print, bind, EStateM.bind, hpop]
  rfl

theorem print_eq_of_lt {n : Nat} {s : State} (h : s.operands.size < n) :
    print n s = .error .stackUnderflow s := by
  have hpop : popN n s = .error .stackUnderflow s := by
    rw [popN, Stack.popN?_eq, if_neg (Nat.not_le.mpr h)]
  simp only [print, bind, EStateM.bind, hpop]

/-- An instruction that prints, as the print that it is. -/
theorem instruction_eq_print {i : Instruction} (h : i.op = .print) (s : State) :
    instruction p cfg i s = (print i.operand.toNat >>= fun _ => Pure.pure Flow.next) s := by
  obtain ⟨op, n⟩ := i
  cases h
  rfl

end Exec

/-! ## Steps -/

theorem Progress.of_redirect (sink : Sink) (r : EStateM.Result Fault State Flow) :
    Progress.of (Exec.redirect sink r) = (Progress.of r).withSink sink := by
  cases r with
  | error f s => rfl
  | ok flow s => cases flow <;> rfl

namespace State

variable {p : Program} {cfg : Settings} {i : Instruction} {s : State} {sink sink' : Sink}

/-- The machine is about to print, and has the operands for it. -/
structure Prints (p : Program) (s : State) (i : Instruction) : Prop where
  next : s.next? p = some i
  op : i.op = .print
  operands : i.operand.toNat ≤ s.operands.size

/-- The bytes that the next step offers to the sink. -/
def offer (p : Program) (s : State) : ByteArray :=
  match s.next? p with
  | some ⟨.print, n⟩ => if n.toNat ≤ s.operands.size then (s.line n.toNat).toUTF8 else .empty
  | _ => .empty

/-- The state in which a print has taken its operands and is about to write. -/
def printing (cfg : Settings) (i : Instruction) (s : State) : State :=
  { s.logged cfg i with operands := .ofTopDown (s.operands.topDown.drop i.operand.toNat) }

theorem Prints.offer (h : s.Prints p i) : s.offer p = (s.line i.operand.toNat).toUTF8 := by
  obtain ⟨op, n⟩ := i
  obtain ⟨hnext, hop, hsize⟩ := h
  cases hop
  simp only [State.offer, hnext]
  rw [if_pos hsize]

theorem operands_logged (cfg : Settings) (i : Instruction) (s : State) :
    (s.logged cfg i).operands = s.operands := by
  obtain ⟨log, hlog⟩ := logged_eq cfg i s
  rw [hlog]

theorem logged_withSink (cfg : Settings) (i : Instruction) (s : State) (sink : Sink) :
    (s.withSink sink).logged cfg i = (s.logged cfg i).withSink sink := by
  unfold logged
  split <;> rfl

theorem printing_withSink (cfg : Settings) (i : Instruction) (s : State) (sink : Sink) :
    (s.withSink sink).printing cfg i = (s.printing cfg i).withSink sink := by
  rw [printing, logged_withSink]
  rfl

theorem stackTrace_printing (cfg : Settings) (i : Instruction) (s : State) (sink : Sink) :
    ((s.printing cfg i).withSink sink).stackTrace = s.stackTrace := by
  obtain ⟨log, hlog⟩ := logged_eq cfg i s
  rw [printing, hlog]
  rfl

theorem offer_of_not_prints (h : ∀ i, ¬ s.Prints p i) : s.offer p = .empty := by
  unfold offer
  split
  · rename_i n hnext
    rw [if_neg]
    intro hsize
    exact h _ ⟨hnext, rfl, hsize⟩
  · rfl

/-- A step that offers nothing to the sink does the same whatever the sink is. -/
theorem step_of_not_prints (h : ∀ i, ¬ s.Prints p i) (sink : Sink) :
    (s.withSink sink).step p cfg = (s.step p cfg).withSink sink := by
  have hnext : (s.withSink sink).next? p = s.next? p := rfl
  unfold step
  rw [hnext]
  cases hi : s.next? p with
  | none => rw [Exec.IgnoresSink.leave, Progress.of_redirect]
  | some i =>
    dsimp only
    rw [logged_withSink]
    by_cases hop : i.op = .print
    · have hsize : s.operands.size < i.operand.toNat := by
        apply Nat.lt_of_not_le
        intro hle
        exact h i ⟨hi, hop, hle⟩
      rw [← operands_logged cfg i s] at hsize
      have hsize' : ((s.logged cfg i).withSink sink).operands.size < i.operand.toNat := hsize
      rw [Exec.instruction_eq_print hop, Exec.instruction_eq_print hop]
      simp only [bind, EStateM.bind, Exec.print_eq_of_lt hsize, Exec.print_eq_of_lt hsize']
      rfl
    · rw [Exec.IgnoresSink.instruction hop, Progress.of_redirect]

/-- A print goes on if the sink takes its line, and fails otherwise. -/
theorem Prints.step_withSink (h : s.Prints p i) (sink : Sink) :
    (s.withSink sink).step p cfg =
      match sink.write (s.line i.operand.toNat).toUTF8 with
      | (true, sink) => .running { (s.printing cfg i).withSink sink with ip := s.ip + 1 }
      | (false, sink) => .failed (.output sink.refusal) ((s.printing cfg i).withSink sink) := by
  obtain ⟨log, hlog⟩ := logged_eq cfg i s
  let t : State := { s with log, sink }
  have hnext : (s.withSink sink).next? p = some i := h.next
  have hsize : i.operand.toNat ≤ t.operands.size := h.operands
  have hprint : Exec.instruction p cfg i t = _ := Exec.instruction_eq_print h.op t
  simp only [bind, EStateM.bind, Exec.print_eq hsize] at hprint
  have hlogged : (s.withSink sink).logged cfg i = t := by
    rw [logged_withSink, hlog]
    rfl
  simp only [step, hnext, hlogged, hprint, printing, hlog]
  have hline : t.line i.operand.toNat = s.line i.operand.toNat := rfl
  have hsink : t.sink = sink := rfl
  rw [hline, hsink]
  cases sink.write (s.line i.operand.toNat).toUTF8 with
  | mk taken sink => cases taken <;> rfl

/-- A step does the same with any two sinks that take what it offers. -/
theorem step_withSink (hs : (s.sink.write (s.offer p)).1 = true)
    (hsink : sink.write (s.offer p) = (true, sink')) :
    (s.withSink sink).step p cfg = (s.step p cfg).withSink sink' := by
  by_cases hprints : ∃ i, s.Prints p i
  · obtain ⟨i, hi⟩ := hprints
    rw [hi.offer] at hs hsink
    have hself : s.step p cfg = _ := hi.step_withSink s.sink
    rw [hi.step_withSink, hself, hsink]
    cases hwrite : s.sink.write (s.line i.operand.toNat).toUTF8 with
    | mk taken first =>
      rw [hwrite] at hs
      cases hs
      rfl
  · have hsilent := not_exists.mp hprints
    rw [offer_of_not_prints hsilent, Sink.write_empty] at hsink
    cases hsink
    exact step_of_not_prints hsilent sink

/-- A step fails if the sink does not take what it offers. -/
theorem step_of_refused (hsink : sink.write (s.offer p) = (false, sink')) :
    ∃ i, s.Prints p i ∧ (s.withSink sink).step p cfg =
      .failed (.output sink'.refusal) ((s.printing cfg i).withSink sink') := by
  by_cases hprints : ∃ i, s.Prints p i
  · obtain ⟨i, hi⟩ := hprints
    rw [hi.offer] at hsink
    refine ⟨i, hi, ?_⟩
    rw [hi.step_withSink, hsink]
  · rw [offer_of_not_prints (not_exists.mp hprints), Sink.write_empty] at hsink
    cases hsink

end State

/-! ## Runs -/

/-- The bytes that the next step of a run offers to the sink, if the run has not ended. -/
def Outcome.offer (p : Program) : Outcome → ByteArray
  | .unfinished s => s.offer p
  | .finished _ | .failed _ _ => .empty

namespace State

variable {p : Program} {cfg : Settings} {s : State} {sink sink' : Sink}

/-- One step leads to the same with a sink that takes everything as with any sink that takes what
    the step offers and can be flushed. -/
theorem steps_one_withSink (s : State) (written : ByteArray) (hflush : sink.flushFailure = none)
    (hsink : sink.write (s.offer p) = (true, sink')) :
    (s.withSink sink).steps p cfg 1 =
      ((s.withSink (.unlimited written)).steps p cfg 1).withSink sink' := by
  let free := s.withSink (.unlimited written)
  have htaken : (free.sink.write (free.offer p)).1 = true := rfl
  have hsame : free.step p cfg = (free.step p cfg).withSink (.unlimited (written ++ s.offer p)) :=
    step_withSink htaken rfl
  have hstep : (s.withSink sink).step p cfg = (free.step p cfg).withSink sink' :=
    step_withSink htaken hsink
  rw [steps, hstep, steps]
  cases hfree : free.step p cfg with
  | running t => rfl
  | failed f t => rfl
  | halted t =>
    rw [hfree] at hsame
    have ht : t.sink.flushFailure = none := by
      rw [Progress.halted.inj hsame]
      rfl
    have hflush' : (t.withSink sink').sink.flushFailure = none :=
      (Sink.flushFailure_of_write hsink).trans hflush
    simp only [Progress.withSink, flush, ht, hflush']
    rfl

/-- The steps with a sink that has taken nothing yet and takes everything. -/
def free (p : Program) (cfg : Settings) (n : Nat) (s : State) : Outcome :=
  (s.withSink (.unlimited .empty)).steps p cfg n

/-- The bytes that a number of steps offer to a sink that takes everything. -/
def offered (p : Program) (cfg : Settings) : Nat → State → ByteArray
  | 0, _ => .empty
  | n + 1, s => s.offered p cfg n ++ (s.free p cfg n).offer p

/-- A run leads to the same with every sink that takes what the run offers and can be flushed. -/
theorem steps_withSink (n : Nat) (hflush : sink.flushFailure = none)
    (hsink : sink.write (s.offered p cfg n) = (true, sink')) :
    (s.withSink sink).steps p cfg n = (s.free p cfg n).withSink sink' := by
  induction n generalizing sink sink' with
  | zero =>
    rw [offered, Sink.write_empty] at hsink
    cases hsink
    rfl
  | succ n ih =>
    rcases Sink.of_write_append hsink with ⟨hrefused, -⟩ | ⟨middle, hfirst, hlast⟩
    · cases hrefused
    have hmiddle := (Sink.flushFailure_of_write hfirst).trans hflush
    -- The run with a sink that takes everything is one of those spoken of.
    have hfree : s.free p cfg n = _ := ih rfl (Sink.write_unlimited .empty _)
    rw [free, steps_succ, steps_succ, ih hflush hfirst, ← free]
    cases hn : s.free p cfg n with
    | unfinished u =>
      rw [hn] at hlast hfree
      have hu := Outcome.unfinished.inj hfree
      have hstep : (u.withSink middle).steps p cfg 1 = _ :=
        steps_one_withSink u (.empty ++ s.offered p cfg n) hmiddle hlast
      rw [← hu] at hstep
      exact hstep
    | finished u =>
      rw [hn, Outcome.offer, Sink.write_empty] at hlast
      cases hlast
      rfl
    | failed failure u =>
      rw [hn, Outcome.offer, Sink.write_empty] at hlast
      cases hlast
      rfl

/-- A run with a sink that does not take what it offers comes to a print whose line is not taken,
    as the run with a sink that takes everything does. -/
theorem exists_refused (n : Nat) (hsink : sink.write (s.offered p cfg n) = (false, sink')) :
    ∃ k < n, ∃ u i middle, s.free p cfg k = .unfinished u ∧ u.Prints p i ∧
      sink.write (s.offered p cfg k) = (true, middle) ∧
        middle.write (u.offer p) = (false, sink') ∧
          (u.withSink middle).step p cfg =
            .failed (.output sink'.refusal) ((u.printing cfg i).withSink sink') := by
  induction n with
  | zero =>
    rw [offered, Sink.write_empty] at hsink
    cases hsink
  | succ n ih =>
    rcases Sink.of_write_append hsink with ⟨-, hrefused⟩ | ⟨middle, hfirst, hlast⟩
    · obtain ⟨k, hk, hrest⟩ := ih hrefused
      exact ⟨k, Nat.lt_succ_of_lt hk, hrest⟩
    · cases hn : s.free p cfg n with
      | unfinished u =>
        rw [hn] at hlast
        obtain ⟨i, hprints, hstep⟩ := step_of_refused hlast
        exact ⟨n, Nat.lt_succ_self n, u, i, middle, hn, hprints, hfirst, hlast, hstep⟩
      | finished u =>
        rw [hn, Outcome.offer, Sink.write_empty] at hlast
        cases hlast
      | failed failure u =>
        rw [hn, Outcome.offer, Sink.write_empty] at hlast
        cases hlast

/-! ## Runs with a limited sink -/

/-- The bytes that a run writes to a sink that takes everything. -/
def printed (p : Program) (cfg : Settings) (fuel : Nat) (s : State) : ByteArray :=
  ((s.withSink (.unlimited .empty)).run p cfg fuel).state.sink.written

theorem printed_eq_offered (p : Program) (cfg : Settings) (fuel : Nat) (s : State) :
    s.printed p cfg fuel = s.reset.offered p cfg fuel := by
  have hfree : (s.withSink (.unlimited .empty)).run p cfg fuel = _ :=
    steps_withSink (s := s.reset) fuel rfl (Sink.write_unlimited .empty _)
  rw [printed, hfree, Outcome.sink_state_withSink]
  exact ByteArray.empty_append

/-- A run leads to the same with every sink that takes what the run prints and can be flushed. -/
theorem run_withSink (fuel : Nat) (hflush : sink.flushFailure = none)
    (hsink : sink.write (s.printed p cfg fuel) = (true, sink')) :
    (s.withSink sink).run p cfg fuel = (s.reset.free p cfg fuel).withSink sink' := by
  rw [printed_eq_offered] at hsink
  exact steps_withSink (s := s.reset) fuel hflush hsink

theorem run_unlimited (p : Program) (cfg : Settings) (fuel : Nat) (s : State)
    (written : ByteArray) :
    (s.withSink (.unlimited written)).run p cfg fuel =
      (s.reset.free p cfg fuel).withSink (.unlimited (written ++ s.printed p cfg fuel)) :=
  run_withSink fuel rfl (Sink.write_unlimited written _)

theorem size_printed_mono {j k : Nat} (h : j ≤ k) :
    (s.printed p cfg j).size ≤ (s.printed p cfg k).size := by
  rw [printed_eq_offered, printed_eq_offered]
  induction h with
  | refl => exact Nat.le_refl _
  | step _ ih =>
    rw [offered, ByteArray.size_append]
    omega

/-- After `k` steps of a run with a sink that takes everything the machine is in `u`, about to
    execute the first print whose line takes the output of the run past `limit` bytes. -/
structure Overruns (p : Program) (cfg : Settings) (s : State) (written : ByteArray) (limit k : Nat)
    (u : State) (i : Instruction) : Prop where
  reached : (s.withSink (.unlimited written)).run p cfg k = .unfinished u
  prints : u.Prints p i
  /-- What was printed by then, and at any time before, is within the limit. -/
  within : ∀ j ≤ k, (s.printed p cfg j).size ≤ limit
  beyond : limit < (s.printed p cfg k).size + (u.line i.operand.toNat).utf8ByteSize

/-- A run that prints more than a sink takes fails in the first print that goes beyond it. -/
theorem exists_overruns {written : ByteArray} {limit fuel : Nat} (reason : String)
    (h : limit < (s.printed p cfg fuel).size) :
    ∃ k < fuel, ∃ u i, s.Overruns p cfg written limit k u i ∧ ∀ fuel' > k,
      (s.withSink (.limited written limit reason)).run p cfg fuel' =
        .failed ⟨.output reason, u.stackTrace⟩
          ((u.printing cfg i).withSink
            (.limited (written ++ (s.printed p cfg fuel).extract 0 limit) 0 reason)) := by
  have hrefused := Sink.write_limited_of_lt written reason h
  rw [printed_eq_offered] at hrefused
  obtain ⟨k, hk, u, i, middle, hu, hprints, hfirst, hlast, hstep⟩ := exists_refused fuel hrefused
  rw [← printed_eq_offered] at hfirst hlast hstep
  have hwithin : (s.printed p cfg k).size ≤ limit := by
    apply Nat.le_of_not_lt
    intro hlt
    rw [Sink.write_limited_of_lt _ _ hlt] at hfirst
    cases hfirst
  have hmiddle := hfirst
  rw [Sink.write_limited_of_le _ _ hwithin] at hmiddle
  cases hmiddle
  refine ⟨k, hk, u.withSink (.unlimited (written ++ s.printed p cfg k)), i, ?_, ?_⟩
  · refine ⟨?_, ⟨hprints.next, hprints.op, hprints.operands⟩, ?_, ?_⟩
    · rw [run_unlimited, hu]
      rfl
    · intro j hj
      exact Nat.le_trans (size_printed_mono hj) hwithin
    · apply Nat.lt_of_not_le
      intro hle
      have hsize : (u.offer p).size ≤ limit - (s.printed p cfg k).size := by
        rw [hprints.offer, String.toUTF8_eq_toByteArray, String.size_toByteArray]
        exact Nat.le_sub_of_add_le (Nat.add_comm .. ▸ hle)
      rw [Sink.write_limited_of_le _ _ hsize] at hlast
      cases hlast
  · -- The run with the limit comes to the same print, and goes no further.
    intro fuel' hfuel
    obtain ⟨rest, rfl⟩ := Nat.exists_eq_add_of_lt hfuel
    have hreached : (s.withSink (.limited written limit reason)).run p cfg k = _ :=
      run_withSink k rfl hfirst
    rw [hu] at hreached
    rw [run, Nat.add_assoc, steps_add hreached, steps, hstep, printing_withSink]
    dsimp only
    rw [stackTrace_printing]
    rfl

/-- A run writes to a sink with a limit what it would write to one without, up to the limit.  If
    that is all of it, the run leads to the same; otherwise it fails in the first print whose line
    goes beyond the limit, once this has taken its operands. -/
theorem run_limited (p : Program) (cfg : Settings) (s : State) (written : ByteArray) (limit : Nat)
    (reason : String) (fuel : Nat) :
    let output := s.printed p cfg fuel
    let free := (s.withSink (.unlimited written)).run p cfg fuel
    let bounded := fun fuel => (s.withSink (.limited written limit reason)).run p cfg fuel
    free.state.sink = .unlimited (written ++ output) ∧
      (output.size ≤ limit →
        bounded fuel =
          free.withSink (.limited (written ++ output) (limit - output.size) reason)) ∧
        (limit < output.size →
          ∃ k < fuel, ∃ u i, s.Overruns p cfg written limit k u i ∧ ∀ fuel' > k,
            bounded fuel' =
              .failed ⟨.output reason, u.stackTrace⟩
                ((u.printing cfg i).withSink
                  (.limited (written ++ output.extract 0 limit) 0 reason))) := by
  intro output free bounded
  refine ⟨?_, ?_, exists_overruns reason⟩
  · simp only [free, run_unlimited, Outcome.sink_state_withSink, output]
  · intro hle
    have hbounded : bounded fuel = _ :=
      run_withSink fuel rfl (Sink.write_limited_of_le written reason hle)
    simp only [hbounded, free, run_unlimited, Outcome.withSink_withSink, output]

/-- A limit of one byte, inside the first character of what is printed. -/
theorem run_limited_inside_character :
    let p : Program := ⟨#[], #[.text "é"], #[⟨.loadConst, 3⟩, ⟨.print, 1⟩], #[]⟩
    let start := initial (Store.empty fun _ => ⟨0⟩) {}
    let bounded := (start.withSink (.limited .empty 1 "full")).run p {} 3
    (start.printed p {} 3).size = 3 ∧
      ∃ u t, bounded = .failed ⟨.output "full", u⟩ t ∧
        t.sink = .limited (.empty ++ (start.printed p {} 3).extract 0 1) 0 "full" := by
  intro p start bounded
  have hsize : (start.printed p {} 3).size = 3 := rfl
  have hbeyond : 1 < (start.printed p {} 3).size := by omega
  obtain ⟨k, hk, u, i, -, hfails⟩ := (run_limited p {} start .empty 1 "full" 3).2.2 hbeyond
  exact ⟨hsize, _, _, hfails 3 hk, rfl⟩

end State

end StackMachine
