import TypedStubs.Import.Block
import TypedStubs.Text.Letter

/-! # The imports a text needs

An import is kept when the text mentions the name it binds, when it turns on a feature of the
language, or when it is there to be imported again.  Of two plain imports that bind one name the
first stays, of two equal imports one stays, and star imports are left alone, since nobody knows
what they bind.
-/
namespace TypedStubs.Import

/-- The words of a text, sorted and each once.  A run of letters and numerals that starts with a
numeral is none. -/
def mentioned (text : String) : List String :=
  let runs := Text.splitWhere (fun c => !Text.continuesWord c) text.toList
  let words := runs.filter fun run => match run with
    | c :: _ => Text.startsWord c
    | [] => false
  sortedOnce (words.map String.ofList)

/-- Whether an import stays even if nothing mentions what it binds. -/
def isRequired (i : Import) : Bool := i.isFuture || i.isReexport

/-- The imports that stay when the names in `used` are mentioned, after the imports in `seen` were
met and the names in `bound` were bound. -/
def keepNeeded (used : List String) (seen : List Import) (bound : List String) :
    List Import → List Import
  | [] => []
  | i :: rest =>
    match i.bound? with
    | none => i :: keepNeeded used seen bound rest
    | some name =>
      if seen.contains i then keepNeeded used seen bound rest
      else if !i.isRequired && !used.contains name then keepNeeded used (i :: seen) bound rest
      else if bound.contains name && !i.isRequired then keepNeeded used (i :: seen) bound rest
      else i :: keepNeeded used (i :: seen) (name :: bound) rest

/-- The imports that stay when the names in `used` are mentioned. -/
def needed (used : List String) (imports : List Import) : List Import :=
  keepNeeded used [] [] imports

end TypedStubs.Import
