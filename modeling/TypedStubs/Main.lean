import TypedStubs.CommandLine.Run

/-! # The program

The files that the command line names are read into a file tree, the command runs on that tree, and
what it changed is written back.  A file is written beside its place and then moved there, so that no
reader meets half of it.
-/
namespace TypedStubs

/-- The path of a location. -/
def pathOf (place : Location) : String := "/" ++ Text.join "/" place

/-- The names in a path. -/
def namesIn (path : String) : Location :=
  (Path.components path).filterMap fun
    | .entry name => some name
    | _ => none

/-- The tree with what really stands at a location and below it. -/
partial def withDisk (t : FileTree) (place : Location) : IO FileTree := do
  let disk ← IO.FS.realPath (pathOf place)
  if ← disk.isDir then
    let mut t := t.put place .directory
    for below in ← disk.readDir do
      t ← withDisk t (place ++ [below.fileName])
    return t
  else return t.put place (.file (← IO.FS.readBinFile (pathOf place)))

/-- The tree with the directories that really stand on the way to a location. -/
def withWay (t : FileTree) (place : Location) : IO FileTree := do
  let mut t := t
  for n in List.range place.length do
    let way := place.take (n + 1)
    let isThere ← try (← IO.FS.realPath (pathOf way)).isDir catch _ => pure false
    if isThere then t := t.put way .directory
  return t

/-- The tree with what really stands on the way to a location, and there. -/
def withPath (t : FileTree) (place : Location) : IO FileTree := do
  let t ← withWay t place
  try withDisk t place catch _ => return t

/-- The paths that a command names. -/
def CommandLine.Command.paths : CommandLine.Command → List String
  | .generate r => [r.source, r.out] ++ r.seed.toList ++ r.config.toList
  | _ => []

/-- The part of the disk that arguments name. -/
def diskFor (arguments : List String) : IO FileTree := do
  let home := namesIn (← IO.FS.realPath ".").toString
  let mut t ← withWay ⟨home, []⟩ home
  for path in ((CommandLine.Command.read? arguments).map (·.paths)).getD [] do
    t ← withPath t (if path.startsWith "/" then namesIn path else home ++ namesIn path)
  return t

/-- Writes what differs between two trees. -/
def writeChanges (before after : FileTree) : IO Unit := do
  for (place, entry) in after.entries do
    match entry, before.at? place with
    | .directory, some .directory => pure ()
    | .directory, _ => IO.FS.createDirAll (pathOf place)
    | .file contents, there =>
      let isThere := match there with
        | some (.file old) => old == contents
        | _ => false
      unless isThere do
        let path := pathOf place
        IO.FS.writeBinFile (path ++ ".part") contents
        IO.FS.rename (path ++ ".part") path

end TypedStubs

/-- Runs the command that the arguments give. -/
def main (arguments : List String) : IO UInt32 := do
  let before ← TypedStubs.diskFor arguments
  let (outcome, after) := (TypedStubs.CommandLine.run arguments).run before
  TypedStubs.writeChanges before after
  IO.print outcome.stdout
  IO.eprint outcome.stderr
  return outcome.code.toUInt32
