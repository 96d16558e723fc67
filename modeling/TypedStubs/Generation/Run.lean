import TypedStubs.FileTree.Access
import TypedStubs.Generation.Report
import TypedStubs.Source.Reader

/-! # A run over a source tree

All source files are read before the first stub is made, so that every module can draw on every other
one.  Then each module gets its stub, on top of the stub that the destination has for it, or else the
one that the seed tree has.  A file that cannot be used is reported and does not stop the run.

A stub is written only when its text differs from what is there.
-/
namespace TypedStubs

/-- What a run is asked for. -/
structure Job where
  /-- Path of the source tree. -/
  source : String
  /-- Path of the tree of stubs. -/
  destination : String
  /-- Path of a tree of stubs to start from. -/
  seed : Option String
  /-- The settings. -/
  settings : Settings

/-- A computation on a file tree that can fail; what was changed before stays. -/
abbrev OnFiles := ExceptT Failure (StateM FileTree)

namespace Job

/-- A source file: its path below the root of its tree, and its location. -/
structure SourceFile where
  /-- Path below the root. -/
  path : String
  /-- Where it stands. -/
  place : Location

/-- The files of the source tree with the right extension, in the order of their paths. -/
def sourceFiles (job : Job) (t : FileTree) : List SourceFile :=
  match t.locate job.source with
  | .error _ => []
  | .ok root =>
    (t.filesBelow root).filterMap fun (names, _) =>
      let path := Text.join "/" names
      if Path.extension? path == some job.settings.sourceExtension then some ⟨path, root ++ names⟩
      else none

/-- The name of the root package: that of the source directory, if it is a package. -/
def rootPackage? (job : Job) (t : FileTree) : Option String :=
  job.settings.rootPackage <|>
    if t.isFile (Path.append job.source "__init__.py") then
      (t.locate job.source).toOption.bind (·.getLast?)
    else none

/-- The module in a source file, or why there is none. -/
def readSource (job : Job) (t : FileTree) (path : String) : Except ReportEntry SourceModule := do
  if job.settings.excludesPath path then throw (.skipped path none .excludedPath)
  else
    match ModuleName.ofPath? job.settings.rootPackage path with
    | none => throw (.skipped path none .notModule)
    | some named =>
      let file := Path.append job.source path
      match t.read file with
      | .ok text => return SourceModule.read named.name path named.isPackage text
      | .error problem =>
        throw (.skipped path (some named.name) (.failed (.file file problem)))

/-- The modules of the source tree, and the entries of the files without one.  Files that stand inside
the destination are passed over. -/
def readSources (job : Job) (t : FileTree) (destination : Location) :
    List ReportEntry × List SourceModule :=
  let files := (job.sourceFiles t).filter fun file => !destination.isPrefixOf file.place
  let outcomes := files.map fun file => job.readSource t file.path
  (outcomes.filterMap fun
      | .error entry => some entry
      | .ok _ => none,
    outcomes.filterMap fun
      | .ok m => some m
      | .error _ => none)

/-- The path of a module's stub below the root of its tree. -/
def stubPath (job : Job) (m : SourceModule) : String :=
  let names := Text.splitOn '/' m.path
  let name := Path.withExtension job.settings.interfaceExtension (names.getLastD "")
  Text.join "/" (names.dropLast ++ [name])

/-- The text of a file, if there is one. -/
def readIfThere (t : FileTree) (path : String) : Except Failure (Option String) :=
  match t.read path with
  | .ok text => .ok (some text)
  | .error .notFound => .ok none
  | .error problem => .error (.file path problem)

/-- The stub to start from: the one in the destination, whose text is `current`, or else the one in the
seed tree. -/
def existingStub (job : Job) (t : FileTree) (current : Option String) (path : String) :
    Except Failure Stub := do
  let text ← match current, job.seed with
    | some text, _ => pure (some text)
    | none, some seed => readIfThere t (Path.append seed path)
    | none, none => pure none
  match text with
  | some text => (Stub.parse text).mapError .stub
  | none => return .empty

/-- Writes a stub, and makes the directories on the way to it. -/
def store (path text : String) : OnFiles Unit := do
  let around := Path.parent path
  let (outcome, made) := (← get).ensureDirectories around
  set made
  match outcome with
  | .error problem => throw (.file around problem)
  | .ok () =>
    match made.writeFile path text.toUTF8 with
    | .error problem => throw (.file path problem)
    | .ok written => set written

/-- What becomes of a stub: it is written unless its text is there already. -/
def settle (target text : String) (current : Option String) : StateM FileTree Status := do
  if current = some text then return .unchanged
  else
    match ← (store target text).run with
    | .ok () => return .written
    | .error failure => return .skipped (.failed failure)

/-- Makes the stub of a module. -/
def process (job : Job) (index : SourceIndex) (m : SourceModule) : OnFiles ReportEntry := do
  let path := job.stubPath m
  let target := Path.append job.destination path
  let t ← get
  let found := do
    let current ← readIfThere t target
    return (current, ← job.existingStub t current path)
  match found with
  | .error (.stub .splitBlank) => throw (.stub .splitBlank)
  | .error failure => return .skipped m.path (some m.name) (.failed failure)
  | .ok (current, existing) =>
    let (stub, tally) := buildStub job.settings index m existing
    let status ← settle target stub.render current
    return ⟨some m.name, m.path, some path, status, tally⟩

/-- Makes the destination and says where it stands. -/
def openDestination (job : Job) : OnFiles Location := do
  let (outcome, made) := (← get).ensureDirectories job.destination
  set made
  let place := do
    outcome
    made.locate job.destination
  match place with
  | .error problem => throw (.destination job.destination problem)
  | .ok place => return place

/-- A run. -/
def run (job : Job) : OnFiles Report := do
  if !(← get).isDirectory job.source then throw (.sourceRoot job.source)
  let destination ← job.openDestination
  let rootPackage := job.rootPackage? (← get)
  let job := { job with settings := { job.settings with rootPackage } }
  let (passed, modules) := job.readSources (← get) destination
  let index := SourceIndex.ofModules modules
  let made ← index.modules.mapM (job.process index)
  return ⟨rootPackage, Report.sorted (passed ++ made)⟩

end Job

/-- The settings in a file. -/
def loadSettings (path : String) : OnFiles Settings := do
  match (← get).read path with
  | .error problem => throw (.file path problem)
  | .ok text =>
    match Settings.read text with
    | .error problem => throw (.settings problem)
    | .ok settings => return settings

end TypedStubs
