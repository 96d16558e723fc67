import TypedStubs.Text.Cut

/-! # Dotted names

Modules, classes and functions are named by words with dots between them.  The head of a name is its
first component, its leaf the last one, and its owner what stands before the last dot.
-/
namespace TypedStubs.Dotted

/-- The first component of a dotted name. -/
def head (path : String) : String := String.ofList (path.toList.takeWhile (· != '.'))

/-- The last component of a dotted name. -/
def leaf (path : String) : String :=
  match Text.cutLast '.' path with
  | some (_, last) => last
  | none => path

/-- What stands before the last dot, if there is one. -/
def owner? (path : String) : Option String := (Text.cutLast '.' path).map (·.1)

/-- The head of a dotted name, and what follows its first dot if there is one. -/
def uncons (path : String) : String × Option String :=
  match Text.cut "." path with
  | some (first, rest) => (first, some rest)
  | none => (path, none)

/-- A dotted name put together from a head and what follows its dot. -/
def cons (first : String) : Option String → String
  | some rest => first ++ "." ++ rest
  | none => first

end TypedStubs.Dotted
