import TypedStubs.Syntax.Scanner

/-! # Rules of a grammar

A rule says how something is read off the tokens of a line.  Rules look one token ahead and never
take a choice back: what follows a choice has to be read, or the whole source is refused.  That is why
a rule reads the same from the same tokens whatever stands after them, as long as it cannot go on with
that.

A rule is given the readers of the expressions inside it, so that one function can hold all of the
recursion.
-/
namespace TypedStubs.Syntax

/-- The places where an expression is read inside another one. -/
inductive Entry where
  /-- Any expression. -/
  | full
  /-- One that neither a conditional nor a lambda, unless in brackets. -/
  | disjunction
  /-- One that may start with `not`. -/
  | negation
  /-- One that may start with a sign. -/
  | unary
  deriving DecidableEq

/-- A question about the tokens ahead. -/
inductive Ahead where
  /-- Whether the next token satisfies `p`. -/
  | token (p : Lexeme → Bool)
  /-- Whether a clause of a comprehension is next: a loop or, if `conditions` says so, a condition. -/
  | clause (conditions : Bool)

/-- Whether the answer is yes. -/
def Ahead.holds : Ahead → List Token → Bool
  | _, [] => false
  | .token p, t :: _ => p t.toLexeme
  | .clause conditions, t :: ts =>
    t.isWord "for" || (conditions && t.isWord "if") ||
      (t.isWord "async" && ts.head?.any (·.isWord "for"))

/-- What reads an `α` off the front of some tokens, with the tokens left over. -/
abbrev Reader (α : Type) := List Token → Option (α × List Token)

/-- A rule that reads an `α`. -/
inductive Rule : Type → Type 1 where
  /-- Takes nothing. -/
  | pure {α : Type} (a : α) : Rule α
  /-- One rule after another. -/
  | bind {α β : Type} (first : Rule α) (next : α → Rule β) : Rule β
  /-- Reads nothing at all. -/
  | fail {α : Type} : Rule α
  /-- Takes the next token if it satisfies `p`. -/
  | take (p : Lexeme → Bool) : Rule Lexeme
  /-- Looks at the tokens ahead. -/
  | ahead (a : Ahead) : Rule Bool
  /-- What `r` reads, as often as the answer to `go` is yes. -/
  | many {α : Type} (go : Ahead) (r : Rule α) : Rule (List α)
  /-- What `r` reads, with the text of the tokens it takes. -/
  | withText {α : Type} (r : Rule α) : Rule (String × α)
  /-- An expression that goes on to the right as often as the answer to `go` is yes: each step gives
  the kind of the larger expression and its parts after the first. -/
  | extend (first : Rule Expr) (go : Ahead) (step : Rule (ExprKind × List Expr)) : Rule Expr
  /-- `named` when an equals sign stands behind the next token, else `plain`; takes something. -/
  | byName {α : Type} (named plain : Rule α) : Rule α
  /-- A string literal, and what `r` reads of the expressions embedded in it. -/
  | string {α : Type} (r : Rule α) : Rule (String × List α)
  /-- An expression inside. -/
  | inner (e : Entry) : Rule Expr

instance : Monad Rule where
  pure := .pure
  bind := .bind

namespace Rule

/-- What `f` reads, as often as the answer to `go` is yes. -/
def manyFrom {α : Type} (go : Ahead) (f : Reader α) (ts : List Token) :
    Option (List α × List Token) :=
  if go.holds ts then
    match f ts with
    | some (a, rest) =>
      if rest.length < ts.length then
        match manyFrom go f rest with
        | some (more, rest) => some (a :: more, rest)
        | none => none
      else none
    | none => none
  else some ([], ts)
termination_by ts.length

/-- The expression `e`, read since `start`, as it goes on. -/
def extendFrom (start : List Token) (go : Ahead) (f : Reader (ExprKind × List Expr)) (e : Expr)
    (ts : List Token) : Option (Expr × List Token) :=
  if go.holds ts then
    match f ts with
    | some ((kind, parts), rest) =>
      if rest.length < ts.length then
        extendFrom start go f (.node kind (textSince start rest) (e :: parts)) rest
      else none
    | none => none
  else some (e, ts)
termination_by ts.length

/-- What `f` reads of each source in brackets, all of it; a source has less than `limit`
characters. -/
def readSources {α : Type} (f : Reader α) (limit : Nat) : List (List Char) → Option (List α)
  | [] => some []
  | source :: more => do
    let tokens ← scanBracketed source
    if weight tokens < limit then
      let (a, rest) ← f tokens
      if rest.isEmpty then return a :: (← readSources f limit more) else none
    else none

/-- What a rule reads. -/
def run (inner : Entry → Reader Expr) : {α : Type} → Rule α → Reader α
  | _, .pure a, ts => some (a, ts)
  | _, .bind first next, ts =>
    match first.run inner ts with
    | some (a, rest) => (next a).run inner rest
    | none => none
  | _, .fail, _ => none
  | _, .take p, ts =>
    match ts with
    | t :: rest => if p t.toLexeme then some (t.toLexeme, rest) else none
    | [] => none
  | _, .ahead a, ts => some (a.holds ts, ts)
  | _, .many go r, ts => manyFrom go (r.run inner) ts
  | _, .withText r, ts =>
    match r.run inner ts with
    | some (a, rest) => some ((textSince ts rest, a), rest)
    | none => none
  | _, .extend first go step, ts =>
    match first.run inner ts with
    | some (e, rest) => extendFrom ts go (step.run inner) e rest
    | none => none
  | _, .byName named plain, ts =>
    match if ts[1]?.any (·.isSymbol "=") then named.run inner ts else plain.run inner ts with
    | some (a, rest) => if rest.length < ts.length then some (a, rest) else none
    | none => none
  | _, .string r, ts =>
    match ts with
    | t :: rest =>
      match t.kind with
      | .string sources =>
        (readSources (r.run inner) t.chars.length sources).map fun as => ((t.text, as), rest)
      | _ => none
    | [] => none
  | _, .inner e, ts => inner e ts

/-- Whether the next token satisfies `p`. -/
def atToken (p : Lexeme → Bool) : Rule Bool := .ahead (.token p)

/-- Whether the next token is a given symbol. -/
def atSymbol (s : String) : Rule Bool := atToken (·.isSymbol s)

/-- Whether the next token is a given word. -/
def atWord (s : String) : Rule Bool := atToken (·.isWord s)

/-- Takes a given symbol. -/
def symbol (s : String) : Rule Unit := discard (.take (·.isSymbol s))

/-- Takes a given word. -/
def word (s : String) : Rule Unit := discard (.take (·.isWord s))

/-- Whether a lexeme is one of the given symbols. -/
def isOneOf (symbols : List String) (l : Lexeme) : Bool :=
  l.kind == .symbol && symbols.contains l.text

/-- Takes one of the given symbols. -/
def symbolIn (symbols : List String) : Rule Unit := discard (.take (isOneOf symbols))

/-- Takes any word. -/
def anyWord : Rule String := do return (← .take (·.kind == .word)).text

/-- Takes a given symbol if it is next, and says whether it was. -/
def takeSymbol (s : String) : Rule Bool := do
  if ← atSymbol s then
    symbol s
    return true
  else return false

/-- Takes a given word if it is next, and says whether it was. -/
def takeWord (s : String) : Rule Bool := do
  if ← atWord s then
    word s
    return true
  else return false

/-- Fails unless the condition holds. -/
def require (condition : Bool) : Rule Unit := if condition then pure () else .fail

/-- What `r` reads if the answer to `test` is yes. -/
def maybe {α : Type} (test : Rule Bool) (r : Rule α) : Rule (Option α) := do
  if ← test then return some (← r) else return none

/-- One or more of `p` with commas between, where the list ends when the answer to `ended` is yes
after a comma; says whether a comma stands among or after them. -/
def commaListTo {α : Type} (ended : Rule Bool) (p : Rule α) : Rule (List α × Bool) := do
  let first ← p
  let more ← .many (.token (·.isSymbol ",")) do
    symbol ","
    if ← ended then return none else return some (← p)
  return (first :: more.filterMap id, !more.isEmpty)

/-- Any number of `p` with commas between, up to a closing symbol. -/
def commaListUpTo {α : Type} (closing : String) (p : Rule α) : Rule (List α) := do
  if ← takeSymbol closing then return []
  else
    let (items, _) ← commaListTo (atSymbol closing) p
    symbol closing
    return items

/-- The symbols that an item of a list may start with. -/
def itemSymbols : List String :=
  ["(", "[", String.singleton openBrace, "-", "+", "~", "*", "**", "..."]

/-- Whether a lexeme may start an item of a list. -/
def startsItem (l : Lexeme) : Bool :=
  match l.kind with
  | .word | .integer | .float | .string _ => true
  | .symbol => itemSymbols.contains l.text
  | .comment => false

/-- One or more of `p` with commas between, up to where no item can start. -/
def commaList {α : Type} (p : Rule α) : Rule (List α × Bool) :=
  commaListTo (do return !(← atToken fun l => startsItem l || l.isSymbol ",")) p

/-- A node over the tokens that are taken for its parts. -/
def node (kind : ExprKind) (parts : Rule (List Expr)) : Rule Expr := do
  let (text, parts) ← .withText parts
  return .node kind text parts

end Rule
end TypedStubs.Syntax
