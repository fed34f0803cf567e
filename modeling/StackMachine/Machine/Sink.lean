/-!
# Output sinks

What a program prints goes to a sink, which may take only a limited number of bytes over its life
and may refuse to flush.  A sink that has refused bytes once has no room left and takes none from
then on, and whether it can flush never changes.  So any writer is such a sink within one run, where
the first refusal ends the printing, but a writer that recovers between two runs is none.
-/

namespace StackMachine

/-- A sink for output. -/
structure Sink where
  /-- The bytes it took since it was last cleared. -/
  written : ByteArray := .empty
  /-- The number of bytes it will still take, or nothing if there is no limit. -/
  room : Option Nat := none
  /-- The reason it gives when it takes no more. -/
  refusal : String := ""
  /-- The reason it gives when it cannot flush. -/
  flushFailure : Option String := none
  deriving Inhabited

namespace Sink

/-- Offers bytes to the sink, and tells whether it took all of them.  It takes as many of the
    first ones as it has room for. -/
def write (s : Sink) (bytes : ByteArray) : Bool × Sink :=
  match s.room with
  | none => (true, { s with written := s.written ++ bytes })
  | some room =>
    if bytes.size ≤ room then
      (true, { s with written := s.written ++ bytes, room := some (room - bytes.size) })
    else (false, { s with written := s.written ++ bytes.extract 0 room, room := some 0 })

/-- Forgets the bytes taken so far; the room they took is not given back. -/
def clear (s : Sink) : Sink := { s with written := .empty }

end Sink

end StackMachine
