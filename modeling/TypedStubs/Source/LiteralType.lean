import TypedStubs.Hint.Basic
import TypedStubs.Syntax.Tree
import TypedStubs.Text.Blank

/-! # Types of literals

The type of an expression that its form gives away: a literal, a display, a comparison, a negation, or
a number with a sign.  No other expression has a type here.
-/
namespace TypedStubs

open Syntax (ExprKind)

/-- The type of a string, by the letters before its quotation mark. -/
def stringType (text : String) : String :=
  let letters := text.toList.takeWhile Char.isAlpha
  if letters.any fun c => c == 'b' || c == 'B' then "bytes" else "str"

/-- The type of a number with signs before it. -/
def signedType (text : String) : Option String :=
  let number := Text.trimChars (text.toList.dropWhile fun c => c == '-' || c == '+')
  let isExponent := fun c => c == 'e' || c == 'E'
  if number.isEmpty || !(number.all fun c => c.isDigit || c == '.' || c == '_' || isExponent c) then
    none
  else if number.any fun c => c == '.' || isExponent c then some "float"
  else some "int"

/-- The name of the type of an expression, if its form gives it away. -/
def literalTypeName (kind : ExprKind) (text : String) : Option String :=
  match kind with
  | .integer => some "int"
  | .float => some "float"
  | .trueValue | .falseValue | .comparison | .negation => some "bool"
  | .noneValue => some "None"
  | .string => some (stringType text)
  | .adjacentStrings => some "str"
  | .list | .listComprehension => some "list"
  | .dictionary | .dictionaryComprehension => some "dict"
  | .set | .setComprehension => some "set"
  | .tuple => some "tuple"
  | .unary => signedType text
  | _ => none

/-- The type of an expression, if its form gives it away. -/
def literalType (kind : ExprKind) (text : String) : Option Hint :=
  (literalTypeName kind text).map .name

end TypedStubs
