/-!
# Byte sources

An artifact is read from a source that hands out its bytes in portions of any size, may report
between portions that it was interrupted, and ends by running out of bytes or by breaking.
`Source.take` asks for a number of bytes and tries again after an interruption, so only the bytes
themselves and the way the source ends matter (`Source.bytes`, `Source.stop`).
-/

namespace StackMachine

/-- A source of bytes. -/
inductive Source
  /-- No more bytes. -/
  | ended
  /-- Every further read fails for the given reason. -/
  | broken (reason : String)
  /-- The next read is interrupted and has to be tried again. -/
  | interrupted (next : Source)
  /-- Some bytes are at hand. -/
  | data (bytes : List UInt8) (next : Source)
  deriving DecidableEq, Repr

namespace Source

/-- Why a source gives no more bytes. -/
inductive Stop
  | ended
  | broken (reason : String)
  deriving DecidableEq, Repr

/-- All bytes that a source still gives. -/
def bytes : Source → List UInt8
  | .ended => []
  | .broken _ => []
  | .interrupted next => next.bytes
  | .data chunk next => chunk ++ next.bytes

/-- How a source ends. -/
def stop : Source → Stop
  | .ended => .ended
  | .broken reason => .broken reason
  | .interrupted next => next.stop
  | .data _ next => next.stop

/-- The number of bytes that a source still gives. -/
def size (s : Source) : Nat := s.bytes.length

/-- The next `n` bytes and the source after them, or the reason why there are fewer.  Asking for
    no bytes never looks at the source. -/
def take (n : Nat) : Source → Except Stop (List UInt8 × Source)
  | .ended => if n = 0 then .ok ([], .ended) else .error .ended
  | .broken reason => if n = 0 then .ok ([], .broken reason) else .error (.broken reason)
  | .interrupted next => if n = 0 then .ok ([], .interrupted next) else take n next
  | .data chunk next =>
    let got := chunk.take n
    if got.length = n then .ok (got, .data (chunk.drop n) next)
    else match take (n - got.length) next with
      | .ok (more, rest) => .ok (got ++ more, rest)
      | .error stop => .error stop

/-- The source that gives all of some bytes at once and then ends. -/
def ofBytes (bytes : List UInt8) : Source := .data bytes .ended

/-- A source that gives bytes in portions of a fixed size, at least one, each after an
    interruption if asked for, and then goes on as `tail`. -/
def inPortions (portion : Nat) (interrupts : Bool) (tail : Source) (bytes : List UInt8) :
    Source :=
  if bytes.isEmpty then if interrupts then .interrupted tail else tail
  else
    let rest := inPortions portion interrupts tail (bytes.drop (max 1 portion))
    let here := .data (bytes.take (max 1 portion)) rest
    if interrupts then .interrupted here else here
termination_by bytes.length
decreasing_by
  simp_all only [List.isEmpty_iff, List.length_drop]
  have := List.length_pos_iff.mpr ‹_›
  omega

/-- The bytes of a source that breaks, for the given reason, at a read that needs a byte at the
    given offset or beyond.  A source that runs out of bytes before that never breaks. -/
def faulty (portion : Nat) (interrupts : Bool) (fault : Option (Nat × String))
    (bytes : List UInt8) : Source :=
  match fault with
  | none => inPortions portion interrupts .ended bytes
  | some (offset, reason) =>
    if offset ≤ bytes.length then
      inPortions portion interrupts (.broken reason) (bytes.take offset)
    else inPortions portion interrupts .ended bytes

/-- What is taken and what remains make up the bytes of the source. -/
theorem bytes_of_take {n : Nat} {s rest : Source} {got : List UInt8}
    (h : s.take n = .ok (got, rest)) : s.bytes = got ++ rest.bytes ∧ got.length = n := by
  induction s generalizing n got rest with
  | ended =>
    simp only [take] at h
    split at h
    · cases h; simp_all [bytes]
    · cases h
  | broken reason =>
    simp only [take] at h
    split at h
    · cases h; simp_all [bytes]
    · cases h
  | interrupted next ih =>
    simp only [take] at h
    split at h
    · cases h; simp_all [bytes]
    · simpa [bytes] using ih h
  | data chunk next ih =>
    simp only [take] at h
    split at h
    · rename_i hlen
      cases h
      exact ⟨by simp [bytes, ← List.append_assoc], hlen⟩
    · split at h
      · rename_i hlen _ more rest' hmore
        cases h
        obtain ⟨hbytes, hmoreLen⟩ := ih hmore
        refine ⟨by
          have hall : chunk.take n = chunk := by
            apply List.take_of_length_le
            simp only [List.length_take] at hlen
            omega
          simp [bytes, hbytes, hall], ?_⟩
        have : (chunk.take n).length ≤ n := by simp only [List.length_take]; omega
        simp only [List.length_append, hmoreLen]
        omega
      · cases h

/-- Taking bytes makes a source smaller by their number. -/
theorem size_of_take {n : Nat} {s rest : Source} {got : List UInt8}
    (h : s.take n = .ok (got, rest)) : rest.size + n = s.size := by
  obtain ⟨hbytes, hlen⟩ := bytes_of_take h
  simp only [size, hbytes, List.length_append, hlen]
  omega

end Source

end StackMachine
