import TypedStubs.Syntax.Token
import TypedStubs.Syntax.StringLiteral
import TypedStubs.Syntax.Number
import TypedStubs.Text.Letter

/-! # Cutting a source into lines of tokens

The indentation of a line counts a blank as one and a tab as eight.  A line ends at a line feed
outside brackets that no backslash hides.  A comment runs to the end of its line; outside brackets it
is a token, inside brackets it belongs to the gap before the next token.
-/
namespace TypedStubs.Syntax

/-- The symbols, those of three characters before those of two. -/
def symbols : List (List Char) :=
  (["**=", "//=", ">>=", "<<=", "...",
    "**", "//", ">>", "<<", "->", ":=", "==", "!=", "<=", ">=", "<>",
    "+=", "-=", "*=", "/=", "%=", "@=", "&=", "|=", "^=",
    "+", "-", "*", "/", "%", "@", "&", "|", "^", "~", "<", ">", "=",
    "(", ")", "[", "]", ",", ":", ".", ";"].map String.toList) ++ [[openBrace], [closeBrace]]

/-- Whether a character stands between tokens and means nothing there. -/
def isGap (c : Char) : Bool :=
  [' ', '\t', '\r', '\x0b', '\x0c', '\uFEFF', '\u2060', '\u200B'].contains c

/-- What a token is that starts with the characters of a word, and the source after it: the word, or
a string that the word is the prefix of. -/
def afterWord (word : List Char) : List Char → Option (TokenKind × List Char)
  | mark :: inside =>
    if (mark == '\'' || mark == '"') && isStringPrefix word then
      (readStringLiteral word mark inside).map fun (embedded, rest) => (.string embedded, rest)
    else some (.word, mark :: inside)
  | [] => some (.word, [])

/-- Whether `c :: cs` starts with a number. -/
def startsNumber (c : Char) (cs : List Char) : Bool := c.isDigit || c == '.' && cs.head?.any (·.isDigit)

/-- What the token at the front of `c :: cs` is, and the source after it. -/
def lexeme (c : Char) (cs : List Char) : Option (TokenKind × List Char) :=
  if c == '\'' || c == '"' then
    (readStringLiteral [] c cs).map fun (embedded, rest) => (.string embedded, rest)
  else if Text.startsWord c then
    afterWord (c :: cs.takeWhile Text.continuesName) (cs.dropWhile Text.continuesName)
  else if startsNumber c cs then
    let (isFloat, used) := numberRun c cs
    some (if isFloat then .float else .integer, cs.drop used)
  else
    (symbols.find? (·.isPrefixOf (c :: cs))).map fun symbol =>
      (.symbol, cs.drop (symbol.length - 1))

/-- What the token at the front of `c :: cs` is, where a comment is one too, and the source after it. -/
def lexemeOrComment (c : Char) (cs : List Char) : Option (TokenKind × List Char) :=
  if c = '#' then some (.comment, cs.dropWhile (· != '\n')) else lexeme c cs

/-- The column after some characters. -/
def columnAfter (column : Nat) : List Char → Nat
  | [] => column
  | c :: cs => columnAfter (if c == '\n' then 0 else column + c.utf8Size) cs

/-- How many brackets are open after a token when `depth` of them are before it. -/
def depthAfter (depth : Nat) (l : Lexeme) : Nat :=
  if l.kind != .symbol then depth
  else if [['('], ['['], [openBrace]].contains l.chars then depth + 1
  else if [[')'], [']'], [closeBrace]].contains l.chars then depth - 1
  else depth

/-- What stands before the next token inside a line, and the source from there on.  Outside brackets
the line feed at the end of the line is no part of it, and neither is a comment; `inComment` says
whether a comment in brackets is open. -/
def lineGap (depth : Nat) : (inComment : Bool) → List Char → List Char × List Char
  | _, [] => ([], [])
  | true, c :: cs =>
    let (gap, rest) := lineGap depth (c != '\n') cs
    (c :: gap, rest)
  | false, '\n' :: cs =>
    if depth = 0 then ([], '\n' :: cs)
    else
      let (gap, rest) := lineGap depth false cs
      ('\n' :: gap, rest)
  | false, '\\' :: '\n' :: cs =>
    let (gap, rest) := lineGap depth false cs
    ('\\' :: '\n' :: gap, rest)
  | false, '\\' :: '\r' :: '\n' :: cs =>
    let (gap, rest) := lineGap depth false cs
    ('\\' :: '\r' :: '\n' :: gap, rest)
  | false, c :: cs =>
    if isGap c then
      let (gap, rest) := lineGap depth false cs
      (c :: gap, rest)
    else if c = '#' ∧ depth ≠ 0 then
      let (gap, rest) := lineGap depth true cs
      (c :: gap, rest)
    else ([], c :: cs)

/-- A gap and what follows it are the source. -/
theorem lineGap_append (depth : Nat) (inComment : Bool) (source : List Char) :
    (lineGap depth inComment source).1 ++ (lineGap depth inComment source).2 = source := by
  fun_induction lineGap depth inComment source <;> simp_all

theorem lineGap_rest_le (depth : Nat) (inComment : Bool) (source : List Char) :
    (lineGap depth inComment source).2.length ≤ source.length := by
  have := congrArg List.length (lineGap_append depth inComment source)
  rw [List.length_append] at this
  omega

/-- The rest of a line: its tokens, what stands after the last of them, and the source after the line
if a line end follows. -/
structure LineRest where
  /-- The tokens. -/
  tokens : List Token
  /-- What stands after them, the line end too. -/
  trail : List Char
  /-- The source after the line end. -/
  after : Option (List Char)

/-- The tokens of the rest of a line, with `depth` brackets open. -/
def lineTokens (depth : Nat) (source : List Char) : Option LineRest :=
  match _h : lineGap depth false source with
  | (gap, []) => some ⟨[], gap, none⟩
  | (gap, c :: cs) =>
    if c = '\n' then some ⟨[], gap ++ [c], some cs⟩
    else
      match lexemeOrComment c cs with
      | none => none
      | some (kind, rest) =>
        if rest.length ≤ cs.length then
          let l : Lexeme := ⟨kind, (c :: cs).take (cs.length + 1 - rest.length)⟩
          match lineTokens (depthAfter depth l) rest with
          | some more => some { more with tokens := ⟨l, gap⟩ :: more.tokens }
          | none => none
        else none
termination_by source.length
decreasing_by
  have := lineGap_rest_le depth false source
  simp only [_h, List.length_cons] at this
  omega

/-- The indentation after one more blank. -/
def indentAfter (indent : Nat) (c : Char) : Nat :=
  if c == ' ' then indent + 1
  else if c == '\t' then indent + 8
  else if c == '\r' || c == '\x0c' then 0
  else indent

/-- The start of a line: its indentation, the column of its first token, what stands before that
token, and the source from there on. -/
structure LineStart where
  /-- The indentation. -/
  indent : Nat
  /-- Bytes before the first token on its physical line. -/
  column : Nat
  /-- What stands before the first token. -/
  lead : List Char
  /-- The source from the first token on. -/
  here : List Char

/-- The start of the next line that has a token, after blanks that make the given indentation and
column. -/
def lineStart (indent column : Nat) : List Char → LineStart
  | [] => ⟨indent, column, [], []⟩
  | '\n' :: cs =>
    let start := lineStart 0 0 cs
    { start with lead := '\n' :: start.lead }
  | '\\' :: '\n' :: cs =>
    let start := lineStart indent 0 cs
    { start with lead := '\\' :: '\n' :: start.lead }
  | '\\' :: '\r' :: '\n' :: cs =>
    let start := lineStart indent 0 cs
    { start with lead := '\\' :: '\r' :: '\n' :: start.lead }
  | c :: cs =>
    if isGap c then
      let start := lineStart (indentAfter indent c) (column + c.utf8Size) cs
      { start with lead := c :: start.lead }
    else ⟨indent, column, [], c :: cs⟩

theorem lineStart_here_le (indent column : Nat) (source : List Char) :
    (lineStart indent column source).here.length ≤ source.length := by
  fun_induction lineStart indent column source <;> grind

theorem lineTokens_after_lt {depth : Nat} {source after : List Char} {line : LineRest}
    (h : lineTokens depth source = some line) (ha : line.after = some after) :
    after.length < source.length := by
  fun_induction lineTokens depth source generalizing line <;> grind [lineGap_rest_le]

/-- The logical lines of a source. -/
def scanLines (source : List Char) : Option (List Line) :=
  let start := lineStart 0 0 source
  if start.here.isEmpty then some []
  else
    match _h : lineTokens 0 start.here with
    | none => none
    | some line =>
      let first : Line := ⟨start.indent, start.column, start.lead, line.tokens, line.trail⟩
      match _ha : line.after with
      | none => some [first]
      | some after => (scanLines after).map (first :: ·)
termination_by source.length
decreasing_by
  have read : after.length < (lineStart 0 0 source).here.length := lineTokens_after_lt _h _ha
  have := lineStart_here_le 0 0 source
  omega

/-- The tokens of a source that stands in brackets, where lines go on. -/
def scanBracketed (source : List Char) : Option (List Token) :=
  (lineTokens 1 source).map (·.tokens)

end TypedStubs.Syntax
