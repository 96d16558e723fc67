import TypedStubs.FileTree.Basic
import TypedStubs.Path

/-! # Using a file tree by paths

A path leads from the working directory, or from the top if it starts with a slash, step by step
through directories.  Here are reading and writing files and making directories.  Making directories
may fail half-way; what was made stays.
-/
namespace TypedStubs.FileTree

/-- The location that steps lead to from `place`. -/
def walk (t : FileTree) (place : Location) : List String → Except FileProblem Location
  | [] => .ok place
  | step :: rest =>
    match t.at? place with
    | none => .error .notFound
    | some (.file _) => .error .notDirectory
    | some .directory =>
      if step = "" ∨ step = "." then t.walk place rest
      else if step = ".." then t.walk place.dropLast rest
      else if 255 < step.utf8ByteSize then .error .nameTooLong
      else t.walk (place ++ [step]) rest

/-- The location that a path leads to; nothing has to stand there. -/
def locate (t : FileTree) (path : String) : Except FileProblem Location :=
  if path.isEmpty then .error .notFound
  else t.walk (if path.startsWith "/" then [] else t.home) (Text.splitOn '/' path)

/-- What stands where a path leads. -/
def entry (t : FileTree) (path : String) : Except FileProblem FileEntry := do
  match t.at? (← t.locate path) with
  | some found => return found
  | none => throw .notFound

/-- Whether a path leads to a directory. -/
def isDirectory (t : FileTree) (path : String) : Bool :=
  match t.entry path with
  | .ok .directory => true
  | _ => false

/-- Whether a path leads to a file. -/
def isFile (t : FileTree) (path : String) : Bool :=
  match t.entry path with
  | .ok (.file _) => true
  | _ => false

/-- The text of a file. -/
def read (t : FileTree) (path : String) : Except FileProblem String := do
  match ← t.entry path with
  | .directory => throw .isDirectory
  | .file contents =>
    match String.fromUTF8? contents with
    | some text => return text
    | none => throw .notText

/-- A tree with one more directory; the directory around it has to be there. -/
def makeDirectory (t : FileTree) (path : String) : Except FileProblem FileTree := do
  let bare := String.ofList (Text.dropEndWhile (· == '/') path.toList)
  let place ← t.locate (if bare.isEmpty then path else bare)
  match t.at? place with
  | some _ => throw .alreadyExists
  | none => return t.put place .directory

/-- Makes a directory unless it is there. -/
def ensureDirectory (t : FileTree) (path : String) : Except FileProblem FileTree :=
  match t.makeDirectory path with
  | .ok made => .ok made
  | .error problem => if t.isDirectory path then .ok t else .error problem

/-- Makes a directory and those around it, whose paths are given from the inside out, as far as they
are missing. -/
def ensureAround (t : FileTree) (path : String) : List String → Except FileProblem Unit × FileTree
  | [] =>
    match t.ensureDirectory path with
    | .ok made => (.ok (), made)
    | .error problem => (.error problem, t)
  | around :: outer =>
    match t.ensureDirectory path with
    | .ok made => (.ok (), made)
    | .error .notFound =>
      let (outcome, made) := t.ensureAround around outer
      match outcome, made.ensureDirectory path with
      | .error problem, _ => (.error problem, made)
      | .ok (), .error problem => (.error problem, made)
      | .ok (), .ok made => (.ok (), made)
    | .error problem => (.error problem, t)

/-- Makes a directory and those on the way to it, as far as they are missing.  The empty path asks for
nothing. -/
def ensureDirectories (t : FileTree) (path : String) : Except FileProblem Unit × FileTree :=
  if path.isEmpty then (.ok (), t) else t.ensureAround path (Path.around path)

/-- A tree with a file written; the directory around it has to be there. -/
def writeFile (t : FileTree) (path : String) (contents : ByteArray) :
    Except FileProblem FileTree := do
  let place ← t.locate path
  match t.at? place with
  | some .directory => throw .isDirectory
  | _ => return t.put place (.file contents)

end TypedStubs.FileTree
