/-! # String literals

A string literal is letters that say how it is read, a mark of one or three quotation marks, and its
contents up to the same mark.  A backslash keeps the character after it from ending the string.  In a
formatted string braces embed expressions; a doubled brace is a brace.

The readers are bounded by the length of the text, since each step takes a character.
-/
namespace TypedStubs.Syntax

/-- How the contents of a string are read. -/
structure StringStyle where
  /-- The quotation mark. -/
  mark : Char
  /-- Whether the mark is written three times. -/
  triple : Bool
  /-- Whether backslashes stand for themselves. -/
  raw : Bool
  /-- Whether braces embed expressions. -/
  formatted : Bool

/-- An opening brace. -/
def openBrace : Char := '\x7b'

/-- A closing brace. -/
def closeBrace : Char := '\x7d'

/-- Whether letters before a quotation mark say how a string is read. -/
def isStringPrefix (letters : List Char) : Bool :=
  letters.all fun c => ['b', 'B', 'f', 'F', 'r', 'R', 'u', 'U'].contains c

/-- The text of an embedded expression without the sign that asks for its own text to be shown. -/
def withoutEcho (expr : List Char) : List Char :=
  match expr.reverse.dropWhile (· == ' ') with
  | '=' :: d :: rest => if ['=', '!', '<', '>'].contains d then expr else (d :: rest).reverse
  | _ => expr

/-- What follows the conversion of a field, if one is given. -/
def afterConversion : List Char → Option (List Char)
  | '!' :: letter :: more =>
    if letter.isLower then some (more.dropWhile fun c => c != ':' && c != closeBrace) else none
  | rest => some rest

mutual
/-- The expressions embedded in a string, and the text after its closing mark. -/
def readString : Nat → StringStyle → List Char → Option (List (List Char) × List Char)
  | 0, _, _ => none
  | _ + 1, _, [] => none
  | n + 1, style, '\\' :: cs =>
    match cs with
    | [] => none
    | '\r' :: '\n' :: rest => readString n style rest
    | d :: rest =>
      if style.formatted && (d == openBrace || d == closeBrace) then readString n style cs
      else if style.formatted && !style.raw && d == 'N' && rest.head? == some openBrace then
        readString n style (rest.dropWhile (· != closeBrace))
      else readString n style rest
  | n + 1, style, c :: cs =>
    if c == style.mark then
      if !style.triple then some ([], cs)
      else if [c, c].isPrefixOf cs then some ([], cs.drop 2)
      else readString n style cs
    else if c == '\n' && !style.triple then none
    else if style.formatted && c == openBrace then
      if cs.head? == some openBrace then readString n style (cs.drop 1)
      else do
        let (inner, rest) ← readField n cs
        let (more, rest) ← readString n style rest
        return (inner ++ more, rest)
    else if style.formatted && c == closeBrace then
      if cs.head? == some closeBrace then readString n style (cs.drop 1) else none
    else readString n style cs

/-- The expressions of a braced field, and the text after its closing brace.  A field may give a
conversion after `!` and a format after a colon; the format may hold fields of its own. -/
def readField : Nat → List Char → Option (List (List Char) × List Char)
  | 0, _ => none
  | n + 1, cs => do
    let (expr, rest) ← readEmbedded n 0 cs
    match ← afterConversion rest with
    | ':' :: more =>
      let (inner, rest) ← readFormat n more
      return (withoutEcho expr :: inner, rest)
    | c :: more => if c == closeBrace then return ([withoutEcho expr], more) else none
    | [] => none

/-- The expressions in the format of a field, and the text after the field. -/
def readFormat : Nat → List Char → Option (List (List Char) × List Char)
  | 0, _ => none
  | _ + 1, [] => none
  | n + 1, c :: cs =>
    if c == closeBrace then some ([], cs)
    else if c == openBrace then do
      let (inner, rest) ← readField n cs
      let (more, rest) ← readFormat n rest
      return (inner ++ more, rest)
    else readFormat n cs

/-- The text of an embedded expression, inside `depth` brackets of its own, and the text from where
the conversion, the format or the end of its field starts. -/
def readEmbedded : Nat → Nat → List Char → Option (List Char × List Char)
  | 0, _, _ => none
  | _ + 1, _, [] => none
  | n + 1, depth, c :: cs =>
    if c == '\'' || c == '"' then do
      let triple := [c, c].isPrefixOf cs
      let inside := if triple then cs.drop 2 else cs
      let (_, rest) ← readString n ⟨c, triple, false, false⟩ inside
      let (more, rest') ← readEmbedded n depth rest
      return ((c :: cs).take (cs.length + 1 - rest.length) ++ more, rest')
    else if depth == 0 &&
        (c == closeBrace || c == ':' || c == '!' && cs.head? != some '=') then
      some ([], c :: cs)
    else do
      let depth :=
        if c == '(' || c == '[' || c == openBrace then depth + 1
        else if c == ')' || c == ']' || c == closeBrace then depth - 1
        else depth
      let (more, rest) ← readEmbedded n depth cs
      return (c :: more, rest)
end

/-- The expressions embedded in the string that starts with `mark` after `letters`, and the text
after the string; `cs` starts after the first quotation mark. -/
def readStringLiteral (letters : List Char) (mark : Char) (cs : List Char) :
    Option (List (List Char) × List Char) :=
  let raw := letters.any fun c => c == 'r' || c == 'R'
  let formatted := letters.any fun c => c == 'f' || c == 'F'
  if [mark, mark].isPrefixOf cs then
    readString (cs.length + 1) ⟨mark, true, raw, formatted⟩ (cs.drop 2)
  else readString (cs.length + 1) ⟨mark, false, raw, formatted⟩ cs

end TypedStubs.Syntax
