import TypedStubs.Text.Order

/-! # File trees

A tree of files and directories, with a working directory in it.  An entry stands at a location: the
names that lead to it from the top.  The top is a directory that is always there.

`at?` is the view of a tree; `at?_put` says what putting an entry does to it.
-/
namespace TypedStubs

/-- Why a file or a directory cannot be used. -/
inductive FileProblem where
  /-- Nothing stands there. -/
  | notFound
  /-- Something stands there already. -/
  | alreadyExists
  /-- A step of the path is a file. -/
  | notDirectory
  /-- A directory stands where a file should. -/
  | isDirectory
  /-- A name has more than 255 bytes. -/
  | nameTooLong
  /-- The bytes of the file are no text. -/
  | notText
  deriving DecidableEq

/-- The wording of a problem. -/
def FileProblem.message : FileProblem → String
  | .notFound => "No such file or directory (os error 2)"
  | .alreadyExists => "File exists (os error 17)"
  | .notDirectory => "Not a directory (os error 20)"
  | .isDirectory => "Is a directory (os error 21)"
  | .nameTooLong => "File name too long (os error 36)"
  | .notText => "stream did not contain valid UTF-8"

/-- The names that lead to an entry from the top. -/
abbrev Location := List String

/-- What stands at a location. -/
inductive FileEntry where
  /-- A file with its bytes. -/
  | file (contents : ByteArray)
  /-- A directory. -/
  | directory

/-- A tree of files and directories. -/
structure FileTree where
  /-- The working directory. -/
  home : Location
  /-- The entries below the top, each with its location. -/
  entries : List (Location × FileEntry)

namespace FileTree

/-- What stands at a location. -/
def at? (t : FileTree) (place : Location) : Option FileEntry :=
  if place = [] then some .directory else t.entries.lookup place

/-- Entries with one put at a location, in the place of what stood there. -/
def putEntry (place : Location) (entry : FileEntry) :
    List (Location × FileEntry) → List (Location × FileEntry)
  | [] => [(place, entry)]
  | (p, e) :: rest => if p = place then (p, entry) :: rest else (p, e) :: putEntry place entry rest

/-- A tree with an entry put at a location, in the place of what stood there. -/
def put (t : FileTree) (place : Location) (entry : FileEntry) : FileTree :=
  { t with entries := putEntry place entry t.entries }

/-- A tree without what stands at a location and below it. -/
def remove (t : FileTree) (place : Location) : FileTree :=
  { t with entries := t.entries.filter fun (p, _) => !place.isPrefixOf p }

/-- The files below a location, by what follows the location, in the order of names. -/
def filesBelow (t : FileTree) (place : Location) : List (Location × ByteArray) :=
  let found := t.entries.filterMap fun (p, entry) =>
    match entry with
    | .file contents =>
      if place.isPrefixOf p && place.length < p.length then some (p.drop place.length, contents)
      else none
    | .directory => none
  found.mergeSort fun a b => Text.inOrder a.1 b.1

theorem lookup_cons (p q : Location) (entry : FileEntry) (rest : List (Location × FileEntry)) :
    ((p, entry) :: rest).lookup q = if q = p then some entry else rest.lookup q := by
  by_cases h : q = p
  · simp [h]
  · simp [List.lookup_cons, h, beq_false_of_ne h]

theorem lookup_putEntry (place q : Location) (entry : FileEntry)
    (entries : List (Location × FileEntry)) :
    (putEntry place entry entries).lookup q = if q = place then some entry else entries.lookup q := by
  induction entries with
  | nil => simp [putEntry, lookup_cons]
  | cons head rest ih =>
    obtain ⟨p, e⟩ := head
    by_cases hp : p = place <;> by_cases hq : q = p <;> simp_all [putEntry, lookup_cons]

/-- Putting an entry changes the tree at its location and nowhere else. -/
theorem at?_put (t : FileTree) {place : Location} (h : place ≠ []) (entry : FileEntry)
    (q : Location) : (t.put place entry).at? q = if q = place then some entry else t.at? q := by
  by_cases hq : q = []
  · subst hq
    simp [at?, h.symm]
  · simp [at?, put, hq, lookup_putEntry]

end FileTree
end TypedStubs
