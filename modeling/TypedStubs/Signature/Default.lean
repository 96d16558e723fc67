import TypedStubs.Text.Blank

/-! # Defaults in stubs

A default is repeated in a stub when it is a short literal: a constant name, a number, or a text
between two equal quotation marks on one line.  Any other default is stood for by dots.
-/
namespace TypedStubs.Signature

/-- Whether the characters spell a number: signs, a digit or a point, then letters, digits, points and
underscores. -/
def isNumber (cs : List Char) : Bool :=
  match cs.dropWhile (· == '-') with
  | [] => false
  | c :: rest =>
    (c.isDigit || c == '.') &&
      (c :: rest).all fun c => c.isAlphanum || c == '.' || c == '_'

/-- Whether the characters stand between two equal quotation marks. -/
def isQuoted (cs : List Char) : Bool :=
  decide (2 ≤ cs.length) &&
    ((cs.head? == some '\'' && cs.getLast? == some '\'') ||
      (cs.head? == some '"' && cs.getLast? == some '"'))

/-- Whether a default is repeated as it is written. -/
def isLiteral (text : String) : Bool :=
  let bare := Text.trim text
  ["None", "True", "False", "..."].contains bare || isNumber bare.toList ||
    (isQuoted bare.toList && !bare.toList.contains '\n' && decide (bare.utf8ByteSize ≤ 50))

/-- What stands for a default in a stub. -/
def stubDefault (text : String) : String := if isLiteral text then Text.trim text else "..."

end TypedStubs.Signature
