import TypedStubs.Generation.Failure
import TypedStubs.Stub.Emission
import TypedStubs.Text.Order

/-! # Reports

A run reports what became of every source file, in the order of their paths.  A report is shown as
lines of text or as a JSON value.
-/
namespace TypedStubs

/-- Why no stub is written for a source file. -/
inductive SkipReason where
  /-- Its path is excluded. -/
  | excludedPath
  /-- Its path is not that of a module. -/
  | notModule
  /-- Something failed. -/
  | failed (failure : Failure)
  deriving DecidableEq

/-- The wording of a reason. -/
def SkipReason.message : SkipReason → String
  | .excludedPath => "excluded path"
  | .notModule => "not a module path"
  | .failed failure => failure.message

/-- What became of a source file. -/
inductive Status where
  /-- Its stub was written. -/
  | written
  /-- Its stub was there already. -/
  | unchanged
  /-- It has no stub. -/
  | skipped (reason : SkipReason)
  deriving DecidableEq

/-- Whether a source file was skipped. -/
def Status.isSkipped : Status → Bool
  | .skipped _ => true
  | _ => false

/-- What is reported of a source file. -/
structure ReportEntry where
  /-- Name of the module, if the path is that of one. -/
  module : Option String
  /-- Path of the source below its root. -/
  source : String
  /-- Path of the stub below its root, if one was made. -/
  stub : Option String
  /-- What became of it. -/
  status : Status
  /-- What was emitted. -/
  tally : Tally
  deriving DecidableEq

/-- The entry of a source file that was skipped before a stub was made. -/
def ReportEntry.skipped (source : String) (module : Option String) (reason : SkipReason) :
    ReportEntry :=
  ⟨module, source, none, .skipped reason, .zero⟩

/-- The report of a run. -/
structure Report where
  /-- Name of the root package, if there is one. -/
  rootPackage : Option String
  /-- The entries, in the order of their source paths. -/
  entries : List ReportEntry

namespace Report

/-- Entries in the order of their source paths, compared name by name. -/
def sorted (entries : List ReportEntry) : List ReportEntry :=
  entries.mergeSort fun a b =>
    Text.inOrder (Text.splitOn '/' a.source) (Text.splitOn '/' b.source)

/-- How many stubs were written. -/
def written (r : Report) : Nat := (r.entries.filter (·.status == .written)).length

/-- How many stubs were there already. -/
def unchanged (r : Report) : Nat := (r.entries.filter (·.status == .unchanged)).length

/-- How many source files were skipped. -/
def skipped (r : Report) : Nat := (r.entries.filter (·.status.isSkipped)).length

/-- The counts of a tally. -/
def counts (t : Tally) : String :=
  "attributes=" ++ toString t.attributes ++ ", classes=" ++ toString t.classes ++
    ", functions=" ++ toString t.functions

/-- The lines of an entry whose stub was made, under a label of ten characters. -/
def madeLines (label : String) (e : ReportEntry) : List String :=
  (label ++ " " ++ e.stub.getD "" ++ " (" ++ e.module.getD "-" ++ "): " ++ counts e.tally) ::
    e.tally.failed.map ("  failed: " ++ ·)

/-- The lines of an entry. -/
def entryLines (e : ReportEntry) : List String :=
  match e.status with
  | .written => madeLines "written   " e
  | .unchanged => madeLines "unchanged " e
  | .skipped reason =>
    ["skipped    " ++ e.source ++ " (" ++ e.module.getD "-" ++ "): " ++ reason.message]

/-- A report as text. -/
def toText (r : Report) : String :=
  unlines (r.entries.flatMap entryLines ++
    [toString r.written ++ " written, " ++ toString r.unchanged ++ " unchanged, " ++
      toString r.skipped ++ " skipped"])

/-- The status of an entry as entries of an object. -/
def statusFields : Status → List (String × Json)
  | .written => [("status", .text "written")]
  | .unchanged => [("status", .text "unchanged")]
  | .skipped reason =>
    [("status", .text "skipped"), ("reason", .text reason.message)]

/-- A tally as a JSON value. -/
def tallyJson (t : Tally) : Json :=
  .object [("attributes", .count t.attributes), ("classes", .count t.classes),
    ("functions", .count t.functions), ("failed", .ofStrings t.failed)]

/-- An entry as a JSON value. -/
def entryJson (e : ReportEntry) : Json :=
  .object ([("module", .ofOption e.module), ("source", .text e.source),
    ("stub", .ofOption e.stub)] ++ statusFields e.status ++ [("stats", tallyJson e.tally)])

/-- A report as a JSON value. -/
def toJson (r : Report) : Json :=
  .object [("root_package", .ofOption r.rootPackage),
    ("modules", .array (r.entries.map entryJson))]

end Report
end TypedStubs
