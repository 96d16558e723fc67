import TypedStubs.FileTree.Basic
import TypedStubs.Settings.Json
import TypedStubs.Stub.Reader

/-! # Failures

What can go wrong in a run, and how it is worded.  A failure to use a file has a cause of its own.
-/
namespace TypedStubs

/-- Why a run, or the stub of one module, fails. -/
inductive Failure where
  /-- A file cannot be used. -/
  | file (path : String) (problem : FileProblem)
  /-- The source tree is no directory. -/
  | sourceRoot (path : String)
  /-- The directory for the stubs cannot be made. -/
  | destination (path : String) (problem : FileProblem)
  /-- An existing stub is not read. -/
  | stub (problem : Stub.Problem)
  /-- The settings are not read. -/
  | settings (problem : Settings.LoadProblem)
  deriving DecidableEq

namespace Failure

/-- The wording of a failure. -/
def message : Failure → String
  | .file path problem => "I/O error on " ++ path ++ ": " ++ problem.message
  | .sourceRoot path => "Source root not found: " ++ path
  | .destination path problem => "Cannot create destination " ++ path ++ ": " ++ problem.message
  | .stub problem => "Parser error: " ++ problem.message
  | .settings (.refused problem) => "Config error: " ++ problem.message
  | .settings (.json problem) => "JSON error: " ++ problem.message

/-- The wording of a failure and of what caused it. -/
def chain (f : Failure) : List String :=
  match f with
  | .file _ problem | .destination _ problem => [f.message, problem.message]
  | .settings (.json problem) => [f.message, problem.message]
  | _ => [f.message]

end Failure
end TypedStubs
