import StackMachine.Artifact.Decode
import StackMachine.Command.Files
import StackMachine.Machine.Session
import StackMachine.Program.Json
import StackMachine.Sha256

/-!
# The command line

What a list of arguments asks for, and what is written in answer.  A request that runs a program
is carried out in parts (`Task.execute`), so that a program's output can be shown while it runs;
`transcript` carries out everything at once.
-/

namespace StackMachine.Command

/-- The flags, which may stand anywhere among the arguments. -/
structure Flags where
  verbose : Bool
  trace : Bool
  json : Bool
  deriving DecidableEq, Repr

/-- What the arguments ask for. -/
inductive Request
  | help
  /-- Run the program of an artifact. -/
  | run (path : String)
  /-- Show the program of an artifact. -/
  | list (path : String)
  /-- A command that lacks its path. -/
  | incomplete (command : String)
  | unknown (command : String)
  deriving DecidableEq, Repr

/-- What a command leaves behind: the text on both outputs and the exit status. -/
structure Transcript where
  out : String := ""
  err : String := ""
  status : Nat := 0
  deriving DecidableEq, Repr

/-- A request as far as it can be carried out without running a program. -/
inductive Task
  | done (t : Transcript)
  /-- A program to be run, after some text on the error output. -/
  | execute (p : Program) (cfg : Settings) (err : String)

/-- The flags among the arguments. -/
def flags (args : List String) : Flags :=
  ⟨args.contains "--verbose", args.contains "--trace", args.contains "--json"⟩

/-- The arguments that are no flags. -/
def words (args : List String) : List String :=
  args.filter fun arg => arg != "--verbose" && arg != "--trace" && arg != "--json"

/-- What the arguments other than flags ask for. -/
def request : List String → Request
  | [] => .help
  | command :: rest =>
    if command = "-h" ∨ command = "--help" ∨ command = "help" then .help
    else if command = "run" ∨ command = "-r" ∨ command = "--run" then
      match rest with
      | path :: _ => .run path
      | [] => .incomplete "run"
    else if command = "show" ∨ command = "-s" ∨ command = "--show" then
      match rest with
      | path :: _ => .list path
      | [] => .incomplete "show"
    else .unknown command

/-- The path that a request reads. -/
def Request.path? : Request → Option String
  | .run path => some path
  | .list path => some path
  | _ => none

/-- The help text. -/
def helpText : String :=
  String.intercalate "\n" [
    "Kula VM",
    "",
    "Usage:",
    "  kula run <file.kulac>",
    "  kula show <file.kulac>",
    "",
    "Commands:",
    "  run, -r, --run     Execute a compiled unit",
    "  show, -s, --show   Print the symbols, literals and instructions of a unit",
    "",
    "Flags:",
    "  --trace            Print VM instruction trace (run)",
    "  --verbose          Print a load summary to stderr (run)",
    "  --json             Print the unit as JSON (show)",
    "  -h, --help         Show this help message",
    "",
    ""]

/-- The bytes and the program of the artifact at a path, or what is written if there is none. -/
def artifact (path : String) (contents : Except ReadError (List UInt8)) :
    Except Transcript (List UInt8 × Program) :=
  match contents with
  | .error e => .error { err := s!"Error reading {path}: {e.message}\n", status := 1 }
  | .ok bytes => match Artifact.decode bytes with
    | .error e => .error { err := s!"Error loading {path}: {e.message}\n", status := 1 }
    | .ok p => .ok (bytes, p)

/-- A program as the show command prints it. -/
def shown (json : Bool) (bytes : List UInt8) (p : Program) : String :=
  if json then p.toJson.pretty 0 ++ "\n"
  else "sha256 " ++ Sha256.hexDigest bytes ++ "\n\n" ++ Listing.render p

/-- Carries out a request up to the run of a program.  The contents are those of the request's
    path. -/
def Request.task (r : Request) (fl : Flags) (contents : Except ReadError (List UInt8)) : Task :=
  match r with
  | .help => .done { out := helpText }
  | .incomplete command => .done { err := s!"Usage: kula {command} <file.kulac>\n", status := 1 }
  | .unknown command =>
    .done { out := helpText, err := s!"Error: unknown command `{command}`\n", status := 1 }
  | .list path => match artifact path contents with
    | .error t => .done t
    | .ok (bytes, p) => .done { out := shown fl.json bytes p }
  | .run path => match artifact path contents with
    | .error t => .done t
    | .ok (_, p) =>
      let loaded := if fl.verbose then s!"loaded {path}: {Listing.summary p}\n" else ""
      .execute p { tracing := fl.trace } loaded

/-- What a run leaves on the error output, apart from the log, and its exit status. -/
def verdict : Outcome → String × Nat
  | .failed f _ => (f.report ++ "\n", 1)
  | _ => ("", 0)

/-- Carries out the arguments over a tree of files, with at most `fuel` steps for a program. -/
def transcript (files : FileTree) (clock : Nat → Binary64) (fuel : Nat) (args : List String) :
    Transcript :=
  let r := request (words args)
  let contents := match r.path? with
    | some path => files.read path
    | none => .error .notFound
  match r.task (flags args) contents with
  | .done t => t
  | .execute p cfg err =>
    let (outcome, m) := { Session.start p clock {} with settings := cfg }.run fuel
    let (report, status) := verdict outcome
    { out := m.outputText, err := err ++ m.state.log ++ report, status }

end StackMachine.Command
