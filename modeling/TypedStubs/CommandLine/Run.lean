import TypedStubs.CommandLine.Arguments
import TypedStubs.Generation.Run

/-! # Running a command

A command prints to standard output, or says on standard error what failed and why, and ends with a
code: zero when all went well, one after a failure, two when the command line is not well formed, and
101 when an existing stub ends the run.
-/
namespace TypedStubs.CommandLine

/-- How a command ends. -/
structure Outcome where
  /-- The code. -/
  code : Nat
  /-- What is printed to standard output. -/
  stdout : String
  /-- What is printed to standard error. -/
  stderr : String
  deriving DecidableEq

/-- The name and the version of the program. -/
def versionLine : String := "stubforge 0.1.0\n"

/-- What is said of a command line that is not well formed. -/
def usageLine : String := "error: the command line is not well formed\n"

/-- A cause behind its number or a margin; its further lines are indented as far. -/
def causeText (number : Option Nat) (cause : String) : String :=
  let (first, margin) := match number with
    | some n =>
      let digits := toString n
      (String.ofList (List.replicate (5 - digits.length) ' ') ++ digits ++ ": ", "       ")
    | none => ("    ", "    ")
  first ++ Text.join ("\n" ++ margin) (Text.splitOn '\n' cause)

/-- What is said of a failure: what was tried, and the causes.  Several causes are numbered. -/
def failureText (context : String) (causes : List String) : String :=
  let listed := match causes with
    | [only] => [causeText none only]
    | several => several.mapIdx fun n cause => causeText (some n) cause
  "Error: " ++ context ++ "\n\nCaused by:\n" ++ unlines listed

/-- A failure, and what was tried. -/
structure Attempt where
  /-- What was tried. -/
  context : String
  /-- What went wrong. -/
  failure : Failure
  deriving DecidableEq

/-- How a command ends that failed.  A stub that cannot be cut into lines ends it at once. -/
def Attempt.outcome (attempt : Attempt) : Outcome :=
  match attempt.failure with
  | .stub .splitBlank => ⟨101, "", Stub.Problem.message .splitBlank ++ "\n"⟩
  | failure => ⟨1, "", failureText attempt.context failure.chain⟩

/-- A computation whose failure is said under what was tried. -/
def trying {α : Type} (context : String) (act : OnFiles α) :
    ExceptT Attempt (StateM FileTree) α := do
  match ← act.run with
  | .ok a => return a
  | .error failure => throw ⟨context, failure⟩

/-- The settings of a request. -/
def requestSettings (r : Request) : ExceptT Attempt (StateM FileTree) Settings := do
  let settings ← match r.config with
    | some path =>
      trying ("failed to load configuration from " ++ path) (TypedStubs.loadSettings path)
    | none => pure .standard
  match r.rootPackage with
  | some name => return { settings with rootPackage := some name }
  | none => return settings

/-- The report of a request. -/
def generate (r : Request) : ExceptT Attempt (StateM FileTree) String := do
  let settings ← requestSettings r
  let report ← trying ("stub generation for " ++ r.source ++ " failed")
    (Job.run ⟨r.source, r.out, r.seed, settings⟩)
  return match r.form with
    | .json => report.toJson.print ++ "\n"
    | .text => report.toText

/-- Runs a command. -/
def Command.run : Command → StateM FileTree Outcome
  | .version => return ⟨0, versionLine, ""⟩
  | .config => return ⟨0, Settings.standard.toJson.print ++ "\n", ""⟩
  | .generate request => do
    match ← (CommandLine.generate request).run with
    | .ok output => return ⟨0, output, ""⟩
    | .error attempt => return attempt.outcome

/-- Runs the command that arguments give. -/
def run (arguments : List String) : StateM FileTree Outcome :=
  match Command.read? arguments with
  | some command => command.run
  | none => return ⟨2, "", usageLine⟩

end TypedStubs.CommandLine
