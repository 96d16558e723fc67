import TypedStubs.Json.Value

/-! # Printing JSON

Values are printed over several lines, each level two spaces further in.  An empty list or object
stays on its line.  In strings the quote, the backslash and the controls below U+0020 are escaped.
-/
namespace TypedStubs.Json

/-- A control character by its number, with four digits. -/
def controlEscape (c : Char) : List Char :=
  let digits := Nat.toDigits 16 c.toNat
  ['\\', 'u'] ++ List.replicate (4 - digits.length) '0' ++ digits

/-- How a character is spelled in a string. -/
def escapeChar (c : Char) : List Char :=
  if c = '"' then ['\\', '"']
  else if c = '\\' then ['\\', '\\']
  else if c = '\x08' then ['\\', 'b']
  else if c = '\x0c' then ['\\', 'f']
  else if c = '\n' then ['\\', 'n']
  else if c = '\r' then ['\\', 'r']
  else if c = '\t' then ['\\', 't']
  else if c.toNat < 0x20 then controlEscape c
  else [c]

/-- A text between quotes. -/
def printText (value : String) : String :=
  String.ofList (['"'] ++ value.toList.flatMap escapeChar ++ ['"'])

/-- A line feed and the indentation of a level. -/
def newline (level : Nat) : String := String.ofList ('\n' :: List.replicate (2 * level) ' ')

/-- Printed members between brackets, each on a line of the level below; none stay on the line. -/
def enclose (opening closing : String) (level : Nat) (members : List String) : String :=
  if members.isEmpty then opening ++ closing
  else
    opening ++ newline (level + 1) ++ String.intercalate ("," ++ newline (level + 1)) members ++
      newline level ++ closing

mutual
/-- A value that starts on a line of the given level. -/
def printAt (level : Nat) : Json → String
  | .null => "null"
  | .bool true => "true"
  | .bool false => "false"
  | .count n => toString n
  | .text value => printText value
  | .array items => enclose "[" "]" level (printItems (level + 1) items)
  | .object entries => enclose "\x7b" "\x7d" level (printEntries (level + 1) entries)

/-- The items of a list. -/
def printItems (level : Nat) : List Json → List String
  | [] => []
  | item :: more => printAt level item :: printItems level more

/-- The entries of an object. -/
def printEntries (level : Nat) : List (String × Json) → List String
  | [] => []
  | (key, value) :: more =>
    (printText key ++ ": " ++ printAt level value) :: printEntries level more
end

/-- A value over several lines. -/
def print (value : Json) : String := printAt 0 value

end TypedStubs.Json
