import TypedStubs.Syntax.SimpleStatement

/-! # Heads of definitions

The head of a function gives its name, its parameters and what it returns; the head of a class gives
its name and its arguments, among which comments may stand.  Parameters and arguments keep the gaps on
both sides of them.
-/
namespace TypedStubs.Syntax

open Rule

/-- What was read between brackets, with the gaps around it. -/
structure Placed (α : Type) where
  /-- The gap before it. -/
  before : List Char
  /-- What was read. -/
  value : α
  /-- The gap behind it, up to the next comma or the closing bracket. -/
  after : List Char

/-- What `r` reads, with commas between, up to a closing symbol; and the gap before that symbol when it
follows a comma or nothing at all. -/
def placedUpTo {α : Type} (closing : String) (r : Rule α) (ts : List Token) :
    Option ((List (Placed α) × List Char) × List Token) :=
  match ts with
  | [] => none
  | t :: ts' =>
    if t.isSymbol closing then some (([], t.before), ts')
    else
      match r.read (t :: ts') with
      | some (a, u :: rest) =>
        let first : Placed α := ⟨t.before, a, u.before⟩
        if u.isSymbol closing then some (([first], []), rest)
        else if u.isSymbol "," then
          if rest.length ≤ ts'.length then
            match placedUpTo closing r rest with
            | some ((more, last), rest) => some ((first :: more, last), rest)
            | none => none
          else none
        else none
      | _ => none
termination_by ts.length

/-- A name after stars, as it is written without them. -/
def splatName (text : String) : String := String.ofList (text.toList.dropWhile (· == '*'))

/-- The text of the annotation after a colon, if there is one. -/
def paramHint : Rule (Option String) := do
  return (← maybe (takeSymbol ":") (.withText hintExpr)).map (·.1)

/-- The text of the default after an equals sign, if there is one. -/
def paramDefault : Rule (Option String) := do
  return (← maybe (takeSymbol "=") (.withText (.inner .full))).map (·.1)

/-- A name after stars, or none. -/
def starredName (kind : ParamKind) : Rule (String × Bool) := .withText do
  symbolIn ["*", "**"]
  let isMarker ← atToken (isOneOf [",", ")"])
  if kind == .varPositional && isMarker then return true
  else
    discard anyWord
    return false

/-- A parameter after stars. -/
def starParam (kind : ParamKind) : Rule Param := do
  let (text, isMarker) ← starredName kind
  if isMarker then return ⟨"", .keywordOnlyMarker, "*", none, none⟩
  else return ⟨"", kind, splatName text, ← paramHint, none⟩

/-- A parameter without its text. -/
def bareParam : Rule Param := do
  if ← takeSymbol "/" then return ⟨"", .positionalOnlyMarker, "/", none, none⟩
  else if ← atSymbol "*" then starParam .varPositional
  else if ← atSymbol "**" then starParam .varKeyword
  else
    let name ← anyWord
    let hintText ← paramHint
    return ⟨"", .positional, name, hintText, ← paramDefault⟩

/-- A parameter. -/
def param : Rule Param := do
  let (text, bare) ← .withText bareParam
  return { bare with text }

/-- The text between the first two parameters. -/
def textBetween : List (Placed Param) → Option String
  | p :: q :: _ => some (String.ofList (p.after ++ ',' :: q.before))
  | _ => none

/-- The front of a function, up to the opening parenthesis: whether it is asynchronous, and its
name. -/
def functionFront : Rule (Bool × String) := do
  let isAsync ← takeWord "async"
  word "def"
  let name ← anyWord
  typeParams
  symbol "("
  return (isAsync, name)

/-- What stands between the closing parenthesis of a function and its colon: the text of what it
returns. -/
def functionEnd : Rule (Option String) := do
  let returns ← maybe (takeSymbol "->") (.withText hintExpr)
  symbol ":"
  return returns.map (·.1)

/-- The head of a function with its colon. -/
def functionHead (ts : List Token) : Option (FunctionHead × List Token) := do
  let ((isAsync, name), ts) ← functionFront.read ts
  let ((params, _), ts) ← placedUpTo ")" param ts
  let (returns, ts) ← functionEnd.read ts
  return (⟨name, isAsync, params.map (·.value), textBetween params, returns⟩, ts)

/-- The front of a class: its name, and whether a parenthesis opens after it. -/
def classFront : Rule (String × Bool) := do
  word "class"
  let name ← anyWord
  typeParams
  return (name, ← takeSymbol "(")

/-- The comments in a gap as arguments of a class. -/
def commentArguments (gap : List Char) : List ClassArgument := (commentsIn gap).map .comment

/-- An argument with the comments on both sides of it. -/
def Placed.arguments (p : Placed Expr) : List ClassArgument :=
  commentArguments p.before ++ .base p.value :: commentArguments p.after

/-- The arguments of a class and its closing parenthesis, behind the opening one if there is one. -/
def classArguments (opened : Bool) (ts : List Token) :
    Option ((List (Placed Expr) × List Char) × List Token) :=
  if opened then placedUpTo ")" argument ts else some (([], []), ts)

/-- The head of a class with its colon. -/
def classHead (ts : List Token) : Option (ClassHead × List Token) := do
  let ((name, opened), ts) ← classFront.read ts
  let ((arguments, last), ts) ← classArguments opened ts
  let (_, ts) ← (symbol ":").read ts
  return (⟨name, arguments.flatMap (·.arguments) ++ commentArguments last⟩, ts)

end TypedStubs.Syntax
