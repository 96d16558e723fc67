import TypedStubs.Import.Basic

/-! # The import block of a file

Imports that turn on features of the language come first; otherwise the order is kept.  The members
drawn from one module share a line, which stands where the first of them stood and lists them sorted
and each once.
-/
namespace TypedStubs.Import

/-- Texts in order, each once. -/
def sortedOnce (texts : List String) : List String :=
  (texts.mergeSort fun a b => decide (a ≤ b)).eraseReps

/-- What a line of members drawn from `source` says of an import, if it is one of them. -/
def listedFrom (source : String) : Import → Option String
  | .member s name asName => if s = source then some (aliased name asName) else none
  | _ => none

/-- The lines of imports in order; the members of the modules in `done` have their line already. -/
def blockLines (done : List String) : List Import → List String
  | [] => []
  | .member source name asName :: rest =>
    if done.contains source then blockLines done rest
    else
      let listed := aliased name asName :: rest.filterMap (listedFrom source)
      ("from " ++ source ++ " import " ++ Text.join ", " (sortedOnce listed)) ::
        blockLines (source :: done) rest
  | other :: rest => other.render :: blockLines done rest

/-- The lines of an import block. -/
def block (imports : List Import) : List String :=
  blockLines [] (imports.filter isFuture ++ imports.filter (!·.isFuture))

end TypedStubs.Import
