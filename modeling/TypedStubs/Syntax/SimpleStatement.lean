import TypedStubs.Syntax.Expression

/-! # Statements on one line

Statements without a body share a line with semicolons between them; a comment may stand at its end.
An assignment gives one value to any number of targets, each followed by an equals sign; the first may
carry an annotation instead of, or besides, a value.

The rule for a statement takes all of the tokens between two semicolons, and where they stand is added
afterwards.
-/
namespace TypedStubs.Syntax

open Rule

/-- Words with dots between them, as written. -/
def dottedName : Rule String := do
  let (text, _) ← .withText do
    discard anyWord
    .many (.token (·.isSymbol ".")) do
      symbol "."
      anyWord
  return text

/-- An alias, if one is given. -/
def asName? : Rule (Option String) := maybe (takeWord "as") anyWord

/-- The source of imported members: dots, a dotted name, or dots before one. -/
def importSource : Rule String := do
  let (text, _) ← .withText do
    let dots ← .many (.token (isOneOf [".", "..."])) (symbolIn [".", "..."])
    if dots.isEmpty || !(← atWord "import") then discard dottedName
  return text

/-- An imported module. -/
def importedModule : Rule Import := do
  let path ← dottedName
  return .module path (← asName?)

/-- An imported member of `source`. -/
def importedMember (source : String) : Rule Import := do
  let name ← dottedName
  return .member source name (← asName?)

/-- A statement of imports. -/
def importStatement : Rule (List Import) := do
  if ← takeWord "import" then return (← commaList importedModule).1
  else
    word "from"
    let source ← importSource
    word "import"
    if ← takeSymbol "*" then return [.star source]
    else if ← takeSymbol "(" then
      let (imports, _) ← commaListTo (atSymbol ")") (importedMember source)
      symbol ")"
      return imports
    else return (← commaList (importedMember source)).1

/-- One expression, or several with commas as one tuple without parentheses. -/
def expressionList : Rule Expr := do
  let (text, items, comma) ← .withText (commaList (.inner .full))
  match items, comma with
  | [only], false => return only
  | items, _ => return .node .bareTuple text items

/-- What stands on the right of an equals sign. -/
def assignedValue : Rule Expr := do
  if ← atWord "yield" then yieldExpr else expressionList

/-- An annotation. -/
def hintExpr : Rule Expr := do
  if ← atSymbol "*" then splat .listSplat "*" (.inner .disjunction) else .inner .full

/-- The operators that assign the result of an operation. -/
def augmentedOperators : List String :=
  ["+=", "-=", "*=", "/=", "//=", "%=", "@=", "&=", "|=", "^=", ">>=", "<<=", "**="]

/-- An assignment, or expressions for their effect. -/
def expressionStatement : Rule (Extent → Stmt) := do
  let first ← assignedValue
  if ← atSymbol "=" then
    let values ← .many (.token (·.isSymbol "=")) do
      symbol "="
      assignedValue
    let targets := first :: values.dropLast
    require (areTargets targets)
    return fun place => .assignment place targets none values.getLast?
  else if ← takeSymbol ":" then
    require (isTarget first)
    let typed ← hintExpr
    let value ← maybe (takeSymbol "=") assignedValue
    return fun place => .assignment place [first] (some typed) value
  else if ← atToken (isOneOf augmentedOperators) then
    require (isTarget first)
    symbolIn augmentedOperators
    let value ← assignedValue
    return fun place => .plain place [first, value]
  else
    let values := match first with
      | .node .bareTuple _ parts => parts
      | other => [other]
    return fun place => .expression place values

/-- The name of a type parameter, with its bound and its default. -/
def typeParam : Rule Unit := do
  if !(← takeSymbol "**") then discard (takeSymbol "*")
  discard anyWord
  if ← takeSymbol ":" then discard (.inner .full)
  if ← takeSymbol "=" then discard hintExpr

/-- Type parameters in brackets, if there are any. -/
def typeParams : Rule Unit := do
  if ← takeSymbol "[" then
    discard (commaListTo (atSymbol "]") typeParam)
    symbol "]"

/-- A type alias: the word `type`, a name with its parameters, and what it stands for. -/
def typeAlias : Rule (Extent → Stmt) := do
  word "type"
  discard anyWord
  typeParams
  symbol "="
  let value ← .inner .full
  return fun place => .plain place [value]

/-- Where the old form of printing prints to, if that is said. -/
def printChannel : Rule (List Expr) := do
  if ← takeSymbol ">>" then
    let e ← .inner .full
    discard (takeSymbol ",")
    return [e]
  else return []

/-- The old form of printing: a word and expressions after it. -/
def printStatement : Rule (Extent → Stmt) := do
  word "print"
  let channel ← printChannel
  let given ← maybe (atToken startsItem) (commaList (.inner .full))
  let parts := channel ++ (given.map (·.1)).getD []
  require !parts.isEmpty
  return fun place => .plain place parts

/-- The raising of an exception. -/
def raiseStatement : Rule (Extent → Stmt) := do
  word "raise"
  let raised ← maybe (atToken fun l => !l.isWord "from") expressionList
  let cause ← maybe (takeWord "from") (.inner .full)
  return fun place => .raises place (raised.toList ++ cause.toList)

/-- The return from a function. -/
def returnStatement : Rule (Extent → Stmt) := do
  word "return"
  let value ← maybe (atToken fun _ => true) expressionList
  return fun place => .returns place value

/-- A check of a condition, with what to say when it fails. -/
def assertStatement : Rule (Extent → Stmt) := do
  word "assert"
  let first ← .inner .full
  let more ← .many (.token (·.isSymbol ",")) do
    symbol ","
    .inner .full
  return fun place => .plain place (first :: more)

/-- Names that stand for variables outside. -/
def scopeStatement : Rule (Extent → Stmt) := do
  discard anyWord
  discard anyWord
  discard (.many (.token (·.isSymbol ",")) do
    symbol ","
    anyWord)
  return fun place => .plain place []

/-- The statement that tokens make, if they make one. -/
def wholeStatement (r : Rule (Extent → Stmt)) (tokens : List Token) : Option (Extent → Stmt) :=
  match r.read tokens with
  | some (make, []) => some make
  | _ => none

/-- A statement of one word. -/
def wordStatement (name : String) (make : Extent → Stmt) : Rule (Extent → Stmt) := do
  word name
  return make

/-- The statement that the tokens between two semicolons make. -/
def simpleStatement (tokens : List Token) : Option (Extent → Stmt) :=
  match tokens with
  | [] => none
  | t :: _ =>
    let whole := fun r => wholeStatement r tokens
    if t.isWord "import" || t.isWord "from" then
      whole do
        let imports ← importStatement
        return fun place => .importing place imports
    else if t.isWord "pass" then whole (wordStatement "pass" .passes)
    else if t.isWord "break" then whole (wordStatement "break" (.plain · []))
    else if t.isWord "continue" then whole (wordStatement "continue" (.plain · []))
    else if t.isWord "return" then whole returnStatement
    else if t.isWord "raise" then whole raiseStatement
    else if t.isWord "del" then
      whole do
        word "del"
        let e ← expressionList
        return fun place => .plain place [e]
    else if t.isWord "assert" then whole assertStatement
    else if t.isWord "global" || t.isWord "nonlocal" then whole scopeStatement
    else if t.isWord "type" then whole typeAlias <|> whole expressionStatement
    else if t.isWord "print" then whole expressionStatement <|> whole printStatement
    else whole expressionStatement

/-- The column of a token that follows others, the first of which starts in the given column. -/
def columnOf (column : Nat) (passed : List Token) (t : Token) : Nat :=
  if passed.isEmpty then column else columnAfter column (spanChars passed ++ t.before)

/-- The statements that tokens with semicolons between them make; the first one starts in the given
column. -/
def statementsBetween (column : Nat) (tokens : List Token) : Option (List Stmt) := do
  let passed := tokens.takeWhile (!·.isSymbol ";")
  let make ← simpleStatement passed
  let stmt := make ⟨String.ofList (spanChars passed), column⟩
  match _h : tokens.dropWhile (!·.isSymbol ";") with
  | semicolon :: t :: more =>
    let rest ← statementsBetween (columnOf column (passed ++ [semicolon]) t) (t :: more)
    return stmt :: rest
  | _ => return [stmt]
termination_by tokens.length
decreasing_by
  have := (List.dropWhile_sublist (l := tokens) (!·.isSymbol ";")).length_le
  rw [_h] at this
  simp only [List.length_cons] at this ⊢
  omega

/-- The statements of a line and the comment at its end. -/
def simpleStatements (column : Nat) (tokens : List Token) : Option (List Stmt) := do
  let code := tokens.takeWhile (!·.isComment)
  let comments := tokens.dropWhile (!·.isComment)
  let body ← statementsBetween column code
  return body ++ comments.map fun t => .comment ⟨t.text, columnOf column code t⟩

end TypedStubs.Syntax
