/-! # Lines, pieces and cuts

The ways a text is taken apart: into lines, into the pieces between separators, and at the first or
last place where a separator stands.  Each works on characters; the `String` forms beside them only
change the carrier.
-/
namespace TypedStubs.Text

/-- The pieces of a text between characters that satisfy `p`; one more than there are such
characters, so the pieces of the empty text are one empty piece. -/
def splitWhere (p : Char → Bool) : List Char → List (List Char)
  | [] => [[]]
  | c :: cs =>
    match splitWhere p cs with
    | [] => [[c]]
    | piece :: pieces => if p c then [] :: piece :: pieces else (c :: piece) :: pieces

/-- The lines of a text.  A line ends at a line feed, which also takes away one carriage return
before it; what follows the last line feed is a line when it is not empty. -/
def lineChars : List Char → List (List Char)
  | [] => []
  | '\n' :: cs => [] :: lineChars cs
  | '\r' :: '\n' :: cs => [] :: lineChars cs
  | c :: cs =>
    match lineChars cs with
    | [] => [[c]]
    | line :: lines => (c :: line) :: lines

/-- What stands before and after the first place where `sep` stands. -/
def cutChars (sep : List Char) : List Char → Option (List Char × List Char)
  | [] => if sep.isEmpty then some ([], []) else none
  | c :: cs =>
    if sep.isPrefixOf (c :: cs) then some ([], (c :: cs).drop sep.length)
    else (cutChars sep cs).map fun (before, after) => (c :: before, after)

/-- What stands before and after the last `sep`. -/
def cutLastChars (sep : Char) (cs : List Char) : Option (List Char × List Char) :=
  (cutChars [sep] cs.reverse).map fun (after, before) => (before.reverse, after.reverse)

/-- The lines of a text. -/
def lines (s : String) : List String := (lineChars s.toList).map String.ofList

/-- The pieces of a text between occurrences of `sep`. -/
def splitOn (sep : Char) (s : String) : List String :=
  (splitWhere (· == sep) s.toList).map String.ofList

/-- The parts of a text before and after the first `sep`. -/
def cut (sep s : String) : Option (String × String) :=
  (cutChars sep.toList s.toList).map fun (a, b) => (String.ofList a, String.ofList b)

/-- The parts of a text before and after the last `sep`. -/
def cutLast (sep : Char) (s : String) : Option (String × String) :=
  (cutLastChars sep s.toList).map fun (a, b) => (String.ofList a, String.ofList b)

/-- Whether `needle` stands somewhere in the text. -/
def holds (needle s : String) : Bool := (cutChars needle.toList s.toList).isSome

/-- What follows `lead` in a text that starts with it. -/
def after? (lead s : String) : Option String :=
  if lead.toList.isPrefixOf s.toList then some (String.ofList (s.toList.drop lead.toList.length))
  else none

/-- What stands before `tail` in a text that ends with it. -/
def before? (tail s : String) : Option String :=
  if tail.toList.isSuffixOf s.toList then
    some (String.ofList (s.toList.take (s.toList.length - tail.toList.length)))
  else none

/-- Texts joined with `sep` between neighbours. -/
def join (sep : String) (parts : List String) : String := sep.intercalate parts

theorem splitWhere_ne_nil (p : Char → Bool) (cs : List Char) : splitWhere p cs ≠ [] := by
  cases cs with
  | nil => simp [splitWhere]
  | cons c cs =>
    simp only [splitWhere]
    split <;> (try split) <;> simp

end TypedStubs.Text
