import TypedStubs.Syntax.Definition

/-! # Blocks and whole sources

The body of a statement is the rest of its line or the lines below it that are indented deeper than
the block around it.  A block goes on as long as lines are indented at least as far as its first one;
a body may be empty.

A comment on a line of its own belongs to the block whose statements go on after it.  At the end of a
block it stays as long as it is indented at least as far as the block and no comment before it was
indented less.  Comments between the head of a body and its first statement belong to the head.
-/
namespace TypedStubs.Syntax

open Rule

/-- Statements that were read off the front of some tokens or lines. -/
structure Block where
  /-- The statements. -/
  body : List Stmt
  /-- How many tokens at the front they reach over; zero when there are none. -/
  used : Nat
  /-- The lines left over. -/
  rest : List Line

/-- Reads the block whose first line is indented as far as given. -/
abbrev BlockReader := Nat → List Line → Option Block

namespace Block

/-- A block behind `n` more tokens. -/
def behind (n : Nat) (b : Block) : Block :=
  { b with used := if b.used = 0 then 0 else n + b.used }

/-- One block and then another one, which starts behind `n` tokens. -/
def followedBy (n : Nat) (a b : Block) : Block :=
  ⟨a.body ++ b.body, max a.used (b.behind n).used, b.rest⟩

end Block

/-- The comment that a line holds. -/
def commentOf (line : Line) : List Stmt :=
  line.tokens.map fun t => .comment ⟨t.text, line.column⟩

/-- The comments among `lines` that stay in a block at its end. -/
def closingComments (indent : Nat) (lines : List Line) : List Line :=
  (lines.takeWhile Line.isComment).takeWhile fun line => decide (indent ≤ line.indent)

/-- A block of comments only. -/
def commentBlock (comments rest : List Line) : Block :=
  ⟨comments.flatMap commentOf, tokenCount comments, rest⟩

/-- The end of a block at `lines`: the comments that stay in it. -/
def blockEnd (indent : Nat) (lines : List Line) : Block :=
  let closing := closingComments indent lines
  commentBlock closing (lines.drop closing.length)

/-- The body that follows a colon: `tokens` are left on the line of the colon, the first of them in the
given column. -/
def suite (block : BlockReader) (indent column : Nat) (tokens : List Token) (after : List Line) :
    Option Block :=
  if tokens.all (·.isComment) then
    match after.dropWhile Line.isComment with
    | line :: more =>
      if indent < line.indent then do
        let inside ← block line.indent (line :: more)
        return inside.behind (tokens.length + (tokenCount after - tokenCount (line :: more)))
      else some ⟨[], 0, after⟩
    | [] => some ⟨[], 0, after⟩
  else do
    let body ← simpleStatements column tokens
    return ⟨body, tokens.length, after⟩

/-- The body after a header of `line` that leaves `tokens`, as a block with `parts` before it. -/
def withSuite (block : BlockReader) (indent : Nat) (parts : List Stmt) (line : Line)
    (tokens : List Token) (after : List Line) : Option Block := do
  let head := takenSince line.tokens tokens
  let column := ((tokens.head?).map (columnOf line.column head)).getD 0
  let body ← suite block indent column tokens after
  return Block.followedBy head.length ⟨parts, head.length, []⟩ body

/-- A header with its colon, and the body after it. -/
def clauseBlock (block : BlockReader) (indent : Nat) (head : Rule (List Expr)) (line : Line)
    (after : List Line) : Option Block := do
  let (parts, tokens) ← (head <* symbol ":").read line.tokens
  withSuite block indent (parts.map .header) line tokens after

/-- The words that may start the clause after one that starts with `word`. -/
def followers (inTry : Bool) (word : String) : List String :=
  if word = "if" ∨ word = "elif" then ["elif", "else"]
  else if word = "for" ∨ word = "while" then ["else"]
  else if word = "try" then ["except", "finally"]
  else if word = "except" then ["except", "else", "finally"]
  else if word = "else" ∧ inTry then ["finally"]
  else []

/-- The header of a clause that starts with a word, behind that word. -/
def clauseParts (first : String) : Rule (List Expr) := do
  if first = "if" ∨ first = "elif" ∨ first = "while" then return [← .inner .full]
  else if first = "for" then
    let targets ← loopTargets
    word "in"
    return targets ++ [← expressionList]
  else if first = "with" then return (← commaListTo (atSymbol ":") (.inner .full)).1
  else if first = "except" then
    discard (takeSymbol "*")
    if ← atSymbol ":" then return []
    else
      let caught ← .inner .full
      let asName ← maybe (takeSymbol ",") (.inner .full)
      return caught :: asName.toList
  else return []

/-- The header of a clause that starts with a word. -/
def clauseHead (first : String) : Rule (List Expr) := do
  discard (takeWord "async")
  word first
  clauseParts first

/-- The clauses that go on with a statement whose last clause started with `word`; the tokens from the
start of the statement on number `whole`. -/
def moreClauses (block : BlockReader) (indent : Nat) (inTry : Bool) (whole : Nat) (word : String)
    (done : Block) : Option Block :=
  match done.rest.dropWhile Line.isComment with
  | line :: after =>
    if indent ≤ line.indent then
      match (followers inTry word).find? line.startsWith with
      | some next =>
        match clauseBlock block indent (clauseHead next) line after with
        | some clause =>
          if clause.rest.length < done.rest.length then
            moreClauses block indent inTry whole next
              (done.followedBy (whole - tokenCount (line :: after)) clause)
          else none
        | none => none
      | none => some done
    else some done
  | [] => some done
termination_by done.rest.length
decreasing_by simpa [Block.followedBy, Block.behind]

/-- A statement with the given parts, which starts with `line`. -/
def compoundOf (line : Line) (after : List Line) (parts : Block) : Block :=
  let place := ⟨String.ofList (firstTokens parts.used (line :: after)), line.column⟩
  { parts with body := [.compound place parts.body] }

/-- A statement of clauses, the first of which starts with `word`.  A `try` alone is none. -/
def clausesStatement (block : BlockReader) (indent : Nat) (word : String) (line : Line)
    (after : List Line) : Option Block := do
  let first ← clauseBlock block indent (clauseHead word) line after
  let all ← moreClauses block indent (word == "try") (tokenCount (line :: after)) word first
  if word = "try" ∧ all.rest.length = first.rest.length then none
  else return compoundOf line after all

/-- A pattern of a case. -/
def casePattern : Rule Expr := do
  require !(← atWord "if")
  let (text, e, name) ← .withText do
    let e ← .inner .disjunction
    return (e, ← maybe (takeWord "as") (.inner .disjunction))
  match name with
  | some name => return .node .renaming text [e, name]
  | none => return e

/-- The header of a case: patterns and a condition. -/
def caseHead : Rule (List Expr) := do
  word "case"
  let (patterns, _) ← commaListTo (atToken fun l => l.isWord "if" || l.isSymbol ":") casePattern
  let condition ← maybe (takeWord "if") (.inner .full)
  return patterns ++ condition.toList

/-- The cases of a `match`, indented at least as far as given; the tokens from the start of the
statement on number `whole`. -/
def cases (block : BlockReader) (indent whole : Nat) (done : Block) : Option Block :=
  match done.rest.dropWhile Line.isComment with
  | line :: after =>
    if indent ≤ line.indent then
      match clauseBlock block indent caseHead line after with
      | some case =>
        if case.rest.length < done.rest.length then
          cases block indent whole (done.followedBy (whole - tokenCount (line :: after)) case)
        else none
      | none => none
    else some (done.followedBy (whole - tokenCount done.rest) { blockEnd indent done.rest with body := [] })
  | [] =>
    some (done.followedBy (whole - tokenCount done.rest) { blockEnd indent done.rest with body := [] })
termination_by done.rest.length
decreasing_by simpa [Block.followedBy, Block.behind]

/-- The head of a `match`. -/
def matchHead : Rule (List Expr) := do
  word "match"
  let (subjects, _) ← commaListTo (atSymbol ":") (.inner .full)
  symbol ":"
  return subjects

/-- A `match` with at least one case. -/
def matchStatement (block : BlockReader) (indent : Nat) (line : Line) (after : List Line) :
    Option Block := do
  let (subjects, tokens) ← matchHead.read line.tokens
  if tokens.all (·.isComment) then
    match after.dropWhile Line.isComment with
    | first :: more =>
      if indent < first.indent ∧ first.startsWith "case" then
        let all ← cases block first.indent (tokenCount (line :: after))
          ⟨subjects.map .header, 0, first :: more⟩
        return compoundOf line after all
      else none
    | [] => none
  else none

/-- The decorators that `lines` start with, and the lines after them. -/
def takeDecorators : List Line → Option (List Expr × List Line)
  | [] => none
  | line :: rest =>
    if line.isComment then takeDecorators rest
    else if line.tokens.head?.any (·.isSymbol "@") then do
      let (decorator, tokens) ← (symbol "@" *> .inner .full).read line.tokens
      if tokens.all (·.isComment) then
        let (more, rest) ← takeDecorators rest
        return (decorator :: more, rest)
      else none
    else some ([], line :: rest)

/-- A definition below its decorators. -/
def definition (block : BlockReader) (indent : Nat) (decorators : List Expr) (line : Line)
    (after : List Line) : Option Block :=
  if line.startsWith "class" then do
    let (head, tokens) ← classHead line.tokens
    let body ← withSuite block indent [] line tokens after
    return { body with body := [.classDef head decorators body.body] }
  else do
    let (head, tokens) ← functionHead line.tokens
    let body ← withSuite block indent [] line tokens after
    return { body with body := [.function head decorators body.body] }

/-- The first word of a line that decides what statement it starts, past `async`. -/
def leadingWord (line : Line) : Option String :=
  match line.tokens with
  | first :: second :: _ =>
    if first.isWord "async" then if second.kind == .word then some second.text else none
    else if first.kind == .word then some first.text
    else none
  | [first] => if first.kind == .word then some first.text else none
  | [] => none

/-- The statements of a line without a body. -/
def simpleBlock (line : Line) (after : List Line) : Option Block := do
  return ⟨← simpleStatements line.column line.tokens, line.tokens.length, after⟩

/-- The statements that start with a line. -/
def statement (block : BlockReader) (indent : Nat) (line : Line) (after : List Line) :
    Option Block :=
  if line.tokens.head?.any (·.isSymbol "@") then do
    match ← takeDecorators (line :: after) with
    | (decorators, first :: rest) =>
      let defined ← definition block indent decorators first rest
      return defined.behind (tokenCount (line :: after) - tokenCount (first :: rest))
    | (_, []) => none
  else match leadingWord line with
    | some word =>
      if word = "def" ∨ word = "class" then definition block indent [] line after
      else if ["if", "for", "while", "try", "with"].contains word then
        clausesStatement block indent word line after
      else if word = "match" then matchStatement block indent line after <|> simpleBlock line after
      else simpleBlock line after
    | none => simpleBlock line after

/-- Reads a block. -/
def readBlock (indent : Nat) (lines : List Line) : Option Block :=
  match lines.dropWhile Line.isComment with
  | line :: after =>
    if indent ≤ line.indent then do
      let inside := fun i ls => if ls.length < lines.length then readBlock i ls else none
      let comments := commentBlock (lines.takeWhile Line.isComment) []
      let read ← statement inside indent line after
      let more ← inside indent read.rest
      let past := tokenCount lines - tokenCount read.rest
      return comments.followedBy comments.used (read.followedBy (past - comments.used) more)
    else some (blockEnd indent lines)
  | [] => some (blockEnd indent lines)
termination_by lines.length

/-- The statements of a whole source, if it is well formed. -/
def parse? (source : String) : Option (List Stmt) := do
  let lines ← scanLines source.toList
  let block ← readBlock 0 lines
  if block.rest.isEmpty then return block.body else none

end TypedStubs.Syntax
