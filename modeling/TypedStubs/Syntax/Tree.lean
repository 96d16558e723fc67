import TypedStubs.Import.Basic

/-! # Syntax trees

The trees of the stubbed language, as far as stubs need them.  An expression is a node with its kind,
its text exactly as written and its parts.  Statements keep what they declare; what is only carried
along keeps its text and the column it starts in.
-/
namespace TypedStubs.Syntax

/-- What an expression is, by its outermost operator. -/
inductive ExprKind where
  | name | integer | float | trueValue | falseValue | noneValue | ellipsis
  | string | adjacentStrings
  | list | listComprehension | dictionary | dictionaryComprehension | set | setComprehension
  | tuple | bareTuple | parenthesized | generator
  | comparison | negation | boolean | unary | binary | conditional | lambda
  | call | attribute | subscript | await | yield | walrus | renaming
  | slice | pair | keywordArgument | listSplat | dictionarySplat | forClause | ifClause
  deriving DecidableEq, Inhabited

/-- An expression: its kind, its text as written, and its parts in order. -/
inductive Expr where
  | node (kind : ExprKind) (text : String) (parts : List Expr)
  deriving Inhabited

namespace Expr

/-- The kind of an expression. -/
def kind : Expr → ExprKind
  | .node kind _ _ => kind

/-- The text of an expression. -/
def text : Expr → String
  | .node _ text _ => text

/-- The parts of an expression. -/
def parts : Expr → List Expr
  | .node _ _ parts => parts

/-- Whether an expression is a plain name. -/
def isName (e : Expr) : Bool := e.kind == .name

end Expr

/-- A stretch of the source: its text and the column of its first byte. -/
structure Extent where
  /-- Text as written. -/
  text : String
  /-- Bytes before it on its line. -/
  column : Nat
  deriving DecidableEq, Inhabited

/-- What a slot in a signature is for. -/
inductive ParamKind where
  /-- An ordinary named parameter. -/
  | positional
  /-- The slash after the parameters that are given by position only. -/
  | positionalOnlyMarker
  /-- The star before the parameters that are given by name only. -/
  | keywordOnlyMarker
  /-- Takes the remaining positional arguments. -/
  | varPositional
  /-- Takes the remaining named arguments. -/
  | varKeyword
  deriving DecidableEq, Inhabited

/-- A parameter as it stands in a signature. -/
structure Param where
  /-- Whole text, with annotation and default. -/
  text : String
  /-- What the slot is for. -/
  kind : ParamKind
  /-- Name without stars; a marker has its own sign. -/
  name : String
  /-- Text of the annotation. -/
  hintText : Option String
  /-- Text of the default. -/
  default : Option String
  deriving DecidableEq, Inhabited

/-- The head of a function definition. -/
structure FunctionHead where
  /-- Name of the function. -/
  name : String
  /-- Whether it is asynchronous. -/
  isAsync : Bool
  /-- Its parameters. -/
  params : List Param
  /-- The text between its first two parameters. -/
  between : Option String
  /-- Text of the return annotation. -/
  returns : Option String
  deriving DecidableEq, Inhabited

/-- What stands between the parentheses of a class definition. -/
inductive ClassArgument where
  /-- A base class or a named argument. -/
  | base (value : Expr)
  /-- A comment. -/
  | comment (text : String)
  deriving Inhabited

/-- The head of a class definition. -/
structure ClassHead where
  /-- Name of the class. -/
  name : String
  /-- Its arguments and the comments among them. -/
  arguments : List ClassArgument
  deriving Inhabited

/-- A statement. -/
inductive Stmt where
  /-- Expressions for their effect; more than one when they stand between commas. -/
  | expression (place : Extent) (values : List Expr)
  /-- A value given to targets one after the other, or a lone annotation. -/
  | assignment (place : Extent) (targets : List Expr) (typed : Option Expr)
      (value : Option Expr)
  /-- The end of a function, with its value. -/
  | returns (place : Extent) (value : Option Expr)
  /-- The raising of an exception. -/
  | raises (place : Extent) (parts : List Expr)
  /-- The statement that does nothing. -/
  | passes (place : Extent)
  /-- Imports. -/
  | importing (place : Extent) (imports : List Import)
  /-- Any other statement without a body. -/
  | plain (place : Extent) (parts : List Expr)
  /-- A function definition below its decorators. -/
  | function (head : FunctionHead) (decorators : List Expr) (body : List Stmt)
  /-- A class definition below its decorators. -/
  | classDef (head : ClassHead) (decorators : List Expr) (body : List Stmt)
  /-- Any other statement with bodies: the expressions of its headers and the statements of its
  bodies, in the order of the source. -/
  | compound (place : Extent) (parts : List Stmt)
  /-- An expression in a header. -/
  | header (value : Expr)
  /-- A comment. -/
  | comment (place : Extent)
  deriving Inhabited

namespace Stmt

/-- Whether a statement is a comment. -/
def isComment : Stmt → Bool
  | .comment _ => true
  | _ => false

end Stmt
end TypedStubs.Syntax
