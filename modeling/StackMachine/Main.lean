import StackMachine.Command.Line

/-!
# The program

Reads the arguments and the artifact, writes the answer, and shows the output of a running program
every few thousand steps.
-/

namespace StackMachine.Main

open Command

/-- The contents of a file. -/
def readFile (path : String) : IO (Except ReadError (List UInt8)) := do
  try
    let bytes ← IO.FS.readBinFile path
    return .ok bytes.data.toList
  catch e =>
    return .error <| match e with
      | .noFileOrDirectory _ _ _ => .notFound
      -- opening fails on the way to the file, reading a directory fails afterwards
      | .inappropriateType (some _) _ _ => .notDirectory
      | .inappropriateType none _ _ => .isDirectory
      | other => .other other.toString

/-- Writes what a machine has printed and logged, and forgets it. -/
def emit (s : State) : IO State := do
  let out ← IO.getStdout
  out.write s.sink.written
  out.flush
  (← IO.getStderr).putStr s.log
  return { s with sink := s.sink.clear, log := "" }

/-- Lets a machine's clock show the seconds since a moment, given in milliseconds. -/
def setClock (start : Nat) (s : State) : IO State := do
  let elapsed := (← IO.monoMsNow) - start
  let reading := Binary64.ofRatio false elapsed 1000
  return { s with store.clock.reading := fun _ => reading }

/-- Takes a machine's steps to the end, a few thousand at a time. -/
partial def finish (p : Program) (cfg : Settings) (start : Nat) (s : State) : IO UInt32 := do
  let outcome := (← setClock start s).steps p cfg 4096
  let s ← emit outcome.state
  match outcome with
  | .unfinished _ => finish p cfg start s
  | outcome =>
    let (report, status) := verdict outcome
    (← IO.getStderr).putStr report
    return UInt32.ofNat status

end StackMachine.Main

open StackMachine in
/-- Carries out the command line. -/
def main (args : List String) : IO UInt32 := do
  let r := Command.request (Command.words args)
  let contents ← match r.path? with
    | some path => Main.readFile path
    | none => pure (.error .notFound)
  match r.task (Command.flags args) contents with
  | .done t =>
    (← IO.getStdout).putStr t.out
    (← IO.getStderr).putStr t.err
    return UInt32.ofNat t.status
  | .execute p cfg err =>
    (← IO.getStderr).putStr err
    let start ← IO.monoMsNow
    let m := Session.start p (fun _ => .ofNat 0) {}
    Main.finish p cfg start m.state
