import TypedStubs.Syntax.Rule

/-! # Expressions

Expressions are read by their precedences: lambdas and conditionals bind loosest, then `or`, `and`,
`not`, comparisons, the binary operators, the signs, powers, and what trails a primary.  A word that
cannot be a keyword where it stands is a name.

The text of an expression is what was taken for it.
-/
namespace TypedStubs.Syntax

open Rule

/-- Operands with left-associative operators between them; `isOperator` knows the operators. -/
def leftChain (kind : ExprKind) (isOperator : Lexeme → Bool) (operand : Rule Expr) : Rule Expr :=
  .extend operand (.token isOperator) do
    discard (.take isOperator)
    return (kind, [← operand])

/-- An expression after a sign such as a star. -/
def splat (kind : ExprKind) (sign : String) (operand : Rule Expr) : Rule Expr :=
  node kind do
    symbol sign
    return [← operand]

/-- An item between brackets: of a list, a tuple or a set. -/
def element : Rule Expr := do
  if ← atSymbol "*" then splat .listSplat "*" (.inner .disjunction) else .inner .full

/-- A `yield` and what it gives. -/
def yieldExpr : Rule Expr := node .yield do
  word "yield"
  if ← takeWord "from" then return [← .inner .full]
  else if ← atToken startsItem then return (← commaList (.inner .full)).1
  else return []

/-- An item or a `yield`. -/
def elementOrYield : Rule Expr := do
  if ← atWord "yield" then yieldExpr else element

/-- A parameter of a lambda. -/
def lambdaParam : Rule Unit := do
  if ← takeSymbol "**" then discard anyWord
  else if ← takeSymbol "*" then
    if ← atToken (·.kind == .word) then discard anyWord
  else if ← takeSymbol "/" then return ()
  else
    discard anyWord
    if ← takeSymbol "=" then discard (.inner .full)

/-- A lambda. -/
def lambdaExpr : Rule Expr := node .lambda do
  word "lambda"
  if !(← atSymbol ":") then discard (commaListTo (atSymbol ":") lambdaParam)
  symbol ":"
  return [← .inner .full]

/-- Whether a lexeme is a string literal. -/
def isString (l : Lexeme) : Bool :=
  match l.kind with
  | .string _ => true
  | _ => false

/-- One string literal. -/
def stringExpr : Rule Expr := do
  let (text, parts) ← .string (commaList elementOrYield)
  return .node .string text (parts.flatMap (·.1))

/-- String literals side by side. -/
def stringsExpr : Rule Expr := do
  let (text, first, more) ← .withText do
    let first ← stringExpr
    return (first, ← .many (.token isString) stringExpr)
  if more.isEmpty then return first else return .node .adjacentStrings text (first :: more)

/-- An argument that is given by its name. -/
def namedArgument : Rule Expr := node .keywordArgument do
  let name ← anyWord
  symbol "="
  return [.node .name name [], ← .inner .full]

/-- The argument list that follows a callee: each is an expression, an unpacked one, or a named
one.  A lone generator stands for its parts. -/
def argument : Rule Expr := do
  if ← atSymbol "*" then splat .listSplat "*" (.inner .full)
  else if ← atSymbol "**" then splat .dictionarySplat "**" (.inner .full)
  else .byName namedArgument (.inner .full)

/-- A bound of a slice, if it is given. -/
def sliceBound : Rule (List Expr) := do
  if ← atToken (isOneOf [":", ",", "]"]) then return [] else return [← .inner .full]

/-- A bound after a colon, if there is one. -/
def sliceStep : Rule (List Expr) := do
  if ← takeSymbol ":" then sliceBound else return []

/-- An item between the brackets of a subscript: an expression or a slice. -/
def subscriptItem : Rule Expr := do
  let (text, low, isSlice, more) ← .withText do
    let low ← sliceBound
    if ← takeSymbol ":" then
      let high ← sliceBound
      return (low, true, high ++ (← sliceStep))
    else return (low, false, [])
  if isSlice then return .node .slice text (low ++ more)
  else match low with
    | [only] => return only
    | _ => .fail

mutual
/-- What an assignment gives values to, one of several: a primary, perhaps after a star. -/
def isTarget : Expr → Bool
  | .node kind _ parts =>
    match kind with
    | .name | .attribute | .subscript => true
    | .listSplat | .tuple | .list | .parenthesized | .bareTuple => areTargets parts
    | _ => false

/-- Whether all of some expressions can be given values. -/
def areTargets : List Expr → Bool
  | [] => true
  | e :: es => isTarget e && areTargets es
end

/-- A target of a loop. -/
def loopTarget : Rule Expr := do
  require !(← atWord "in")
  let e ← if ← atSymbol "*" then splat .listSplat "*" (.inner .unary) else .inner .unary
  require (isTarget e)
  return e

/-- Targets of a loop, up to the word `in`. -/
def loopTargets : Rule (List Expr) := do
  return (← commaListTo (atWord "in") loopTarget).1

/-- A loop of a comprehension. -/
def forClause : Rule Expr := node .forClause do
  discard (takeWord "async")
  word "for"
  let targets ← loopTargets
  word "in"
  return targets ++ [← .inner .disjunction]

/-- A condition of a comprehension. -/
def ifClause : Rule Expr := node .ifClause do
  word "if"
  return [← .inner .disjunction]

/-- The clauses of a comprehension: a loop, then loops and conditions. -/
def clauses : Rule (List Expr) := do
  let first ← forClause
  let more ← .many (.clause true) do
    if ← atWord "if" then ifClause else forClause
  return first :: more

/-- What stands between brackets that end with `closing` when it is not empty: a comprehension of
`comprehension`, several items of `several`, or one of `only`. -/
def contents (closing : String) (comprehension several only : ExprKind) :
    Rule (ExprKind × List Expr) := do
  let first ← elementOrYield
  if ← .ahead (.clause false) then
    let more ← clauses
    symbol closing
    return (comprehension, first :: more)
  else if ← takeSymbol "," then
    return (several, first :: (← commaListUpTo closing elementOrYield))
  else
    symbol closing
    return (only, [first])

/-- What stands in parentheses: nothing, one expression, several, or a generator. -/
def parenthesized : Rule Expr := do
  let (text, kind, parts) ← .withText do
    symbol "("
    if ← takeSymbol ")" then return (ExprKind.tuple, [])
    else contents ")" .generator .tuple .parenthesized
  return .node kind text parts

/-- What stands in square brackets: items or a comprehension. -/
def bracketed : Rule Expr := do
  let (text, kind, parts) ← .withText do
    symbol "["
    if ← takeSymbol "]" then return (ExprKind.list, [])
    else contents "]" .listComprehension .list .list
  return .node kind text parts

/-- An opening brace as a symbol. -/
def braceOpening : String := String.singleton openBrace

/-- A closing brace as a symbol. -/
def braceClosing : String := String.singleton closeBrace

/-- An entry of a dictionary. -/
def entry : Rule Expr := do
  if ← atSymbol "**" then splat .dictionarySplat "**" (.inner .disjunction)
  else node .pair do
    let key ← .inner .full
    symbol ":"
    return [key, ← .inner .full]

/-- The first item in braces; a pair if a colon follows its key. -/
def firstEntry : Rule Expr := do
  let (text, parts) ← .withText do
    let first ← elementOrYield
    if ← takeSymbol ":" then return [first, ← .inner .full] else return [first]
  match parts with
  | [only] => return only
  | parts => return .node .pair text parts

/-- What stands in braces: a dictionary, a set, or a comprehension of either. -/
def braced : Rule Expr := do
  let (text, kind, parts) ← .withText do
    symbol braceOpening
    if ← takeSymbol braceClosing then return (ExprKind.dictionary, [])
    else if ← atSymbol "**" then return (.dictionary, ← commaListUpTo braceClosing entry)
    else
      let first ← firstEntry
      let isPair := first.kind == .pair
      if ← .ahead (.clause false) then
        let more ← clauses
        symbol braceClosing
        return (if isPair then .dictionaryComprehension else .setComprehension, first :: more)
      else
        let kind := if isPair then ExprKind.dictionary else .set
        if ← takeSymbol "," then
          let item := if isPair then entry else elementOrYield
          return (kind, first :: (← commaListUpTo braceClosing item))
        else
          symbol braceClosing
          return (kind, [first])
  return .node kind text parts

/-- The kind of a word that is an expression of its own. -/
def wordKind (word : String) : ExprKind :=
  if word = "True" then .trueValue
  else if word = "False" then .falseValue
  else if word = "None" then .noneValue
  else .name

/-- A star and the name, member or subscript that it unpacks. -/
def starred : Rule Expr :=
  splat .listSplat "*" do
    let e ← .inner .unary
    require ([.name, .attribute, .subscript].contains e.kind)
    return e

/-- A lexeme as an expression of its own. -/
def leaf (kind : ExprKind) (p : Lexeme → Bool) : Rule Expr := do
  return .node kind (← .take p).text []

/-- A word as an expression of its own. -/
def wordExpr : Rule Expr := do
  let l ← .take fun l => l.kind == .word && !(l.isWord "not" || l.isWord "lambda")
  return .node (wordKind l.text) l.text []

/-- An expression that no operator takes apart. -/
def atom : Rule Expr := do
  if ← atToken (·.kind == .word) then wordExpr
  else if ← atToken (·.kind == .integer) then leaf .integer (·.kind == .integer)
  else if ← atToken (·.kind == .float) then leaf .float (·.kind == .float)
  else if ← atToken isString then stringsExpr
  else if ← atSymbol "(" then parenthesized
  else if ← atSymbol "[" then bracketed
  else if ← atSymbol braceOpening then braced
  else if ← atSymbol "*" then starred
  else leaf .ellipsis (·.isSymbol "...")

/-- The arguments of a call, behind the opening parenthesis. -/
def callArguments : Rule (List Expr) := do
  if ← takeSymbol ")" then return []
  else
    let first ← argument
    if ← .ahead (.clause false) then
      let more ← clauses
      symbol ")"
      return first :: more
    else if ← takeSymbol "," then return first :: (← commaListUpTo ")" argument)
    else
      symbol ")"
      return [first]

/-- What can follow a primary: a member, a call or a subscript. -/
def trailer : Rule (ExprKind × List Expr) := do
  if ← takeSymbol "." then
    return (.attribute, [.node .name (← anyWord) []])
  else if ← takeSymbol "(" then return (.call, ← callArguments)
  else
    symbol "["
    let (items, _) ← commaListTo (atSymbol "]") subscriptItem
    symbol "]"
    return (.subscript, items)

/-- An atom with what trails it. -/
def primaryExpr : Rule Expr := .extend atom (.token (isOneOf [".", "(", "["])) trailer

/-- A power, or an expression that is waited for. -/
def power : Rule Expr := do
  if ← atWord "await" then node .await do
    word "await"
    return [← .inner .unary]
  else .extend primaryExpr (.token (·.isSymbol "**")) do
    symbol "**"
    return (.binary, [← .inner .unary])

/-- An expression with signs before it. -/
def unaryExpr : Rule Expr := do
  if ← atToken (isOneOf ["-", "+", "~"]) then node .unary do
    symbolIn ["-", "+", "~"]
    return [← .inner .unary]
  else power

/-- The binary operators between signs and comparisons, from the loosest to the tightest. -/
def binaryOperators : List (List String) :=
  [["|"], ["^"], ["&"], ["<<", ">>"], ["+", "-"], ["*", "/", "%", "//", "@"]]

/-- An expression of binary operators. -/
def binaryExpr : Rule Expr :=
  binaryOperators.foldr (fun ops operand => leftChain .binary (isOneOf ops) operand) unaryExpr

/-- Whether a comparison operator starts with a lexeme. -/
def startsComparison (l : Lexeme) : Bool :=
  l.isWord "in" || l.isWord "not" || l.isWord "is" ||
    isOneOf ["<", "<=", "==", "!=", ">=", ">", "<>"] l

/-- Takes a comparison operator. -/
def comparisonOperator : Rule Unit := do
  if ← takeWord "in" then return ()
  else if ← takeWord "not" then word "in"
  else if ← takeWord "is" then discard (takeWord "not")
  else discard (.take startsComparison)

/-- A chain of comparisons. -/
def comparisonExpr : Rule Expr := do
  let (text, first, more) ← .withText do
    let first ← binaryExpr
    let more ← .many (.token startsComparison) do
      comparisonOperator
      binaryExpr
    return (first, more)
  if more.isEmpty then return first else return .node .comparison text (first :: more)

/-- An expression that may be negated. -/
def negationExpr : Rule Expr := do
  if ← atWord "not" then node .negation do
    word "not"
    return [← .inner .negation]
  else comparisonExpr

/-- An expression of `or` and `and`. -/
def disjunctionExpr : Rule Expr :=
  leftChain .boolean (·.isWord "or") (leftChain .boolean (·.isWord "and") negationExpr)

/-- An expression without a name given to it by `as`. -/
def plainExpr : Rule Expr := do
  if ← atWord "lambda" then lambdaExpr
  else
    let (text, e, kind, more) ← .withText do
      let e ← disjunctionExpr
      if ← takeWord "if" then
        let condition ← .inner .disjunction
        word "else"
        return (e, ExprKind.conditional, [condition, ← .inner .full])
      else if e.isName then
        if ← takeSymbol ":=" then return (e, ExprKind.walrus, [← .inner .full])
        else return (e, e.kind, [])
      else return (e, e.kind, [])
    if more.isEmpty then return e else return .node kind text (e :: more)

/-- Any expression. -/
def fullExpr : Rule Expr := .extend plainExpr (.token (·.isWord "as")) do
  word "as"
  return (.renaming, [← .inner .disjunction])

/-- The rule for the expressions at a place. -/
def ruleOf : Entry → Rule Expr
  | .full => fullExpr
  | .disjunction => disjunctionExpr
  | .negation => negationExpr
  | .unary => unaryExpr

/-- The expression at the front of some tokens.  Every expression inside it has fewer characters. -/
def expression (e : Entry) (ts : List Token) : Option (Expr × List Token) :=
  match (Rule.withText (ruleOf e)).run
      (fun e' us => if weight us < weight ts then expression e' us else none) ts with
  | some ((text, read), rest) => some (.node read.kind text read.parts, rest)
  | none => none
termination_by weight ts

/-- What a rule reads off some tokens. -/
def Rule.read {α : Type} (r : Rule α) : Reader α := r.run expression

end TypedStubs.Syntax
