import TypedStubs.Syntax.Tree

/-! # Tokens of the stubbed language

A token keeps its characters and the gap before it: the blanks, line ends and comments that stand
between it and the token before it.  So the text between two tokens can be given back exactly as
written, and a token is the same wherever its line stands.  Tokens are gathered into logical lines,
each with its indentation; inside brackets a line goes on.
-/
namespace TypedStubs.Syntax

/-- What a token is. -/
inductive TokenKind where
  /-- A name or a keyword. -/
  | word
  /-- A whole number. -/
  | integer
  /-- A number with a fraction or an exponent. -/
  | float
  /-- A string, with the texts of the expressions embedded in it. -/
  | string (embedded : List (List Char))
  /-- An operator or a bracket. -/
  | symbol
  /-- A comment. -/
  | comment
  deriving DecidableEq, Inhabited

/-- What a token is and how it is written. -/
structure Lexeme where
  /-- What it is. -/
  kind : TokenKind
  /-- Its characters. -/
  chars : List Char
  deriving DecidableEq, Inhabited

/-- A token. -/
structure Token extends Lexeme where
  /-- What stands between it and the token before it; nothing for the first token of a line. -/
  before : List Char
  deriving DecidableEq, Inhabited

/-- A logical line. -/
structure Line where
  /-- Width of the blanks at its start. -/
  indent : Nat
  /-- Bytes before its first token on the same physical line. -/
  column : Nat
  /-- What stands before its first token, empty physical lines too. -/
  lead : List Char
  /-- Its tokens; at least one. -/
  tokens : List Token
  /-- What stands after its last token, its line end too. -/
  trail : List Char
  deriving Inhabited

namespace Lexeme

/-- The text of a lexeme. -/
def text (l : Lexeme) : String := String.ofList l.chars

/-- Whether a lexeme is a given word. -/
def isWord (l : Lexeme) (word : String) : Bool := l.kind == .word && l.text == word

/-- Whether a lexeme is a given symbol. -/
def isSymbol (l : Lexeme) (symbol : String) : Bool := l.kind == .symbol && l.text == symbol

/-- Whether a lexeme is a comment. -/
def isComment (l : Lexeme) : Bool := l.kind == .comment

end Lexeme

/-- The characters from the first of some tokens through the last of them. -/
def spanChars : List Token → List Char
  | [] => []
  | t :: ts => t.chars ++ ts.flatMap fun u => u.before ++ u.chars

/-- The tokens of `start` that were taken when `rest` is left. -/
def takenSince (start rest : List Token) : List Token := start.take (start.length - rest.length)

/-- The text of the tokens of `start` that were taken when `rest` is left. -/
def textSince (start rest : List Token) : String := String.ofList (spanChars (takenSince start rest))

/-- How many characters tokens have. -/
def weight : List Token → Nat
  | [] => 0
  | t :: ts => t.chars.length + weight ts

/-- The comments in a gap between tokens in brackets. -/
def commentsIn : List Char → List String
  | [] => []
  | '#' :: cs =>
    String.ofList ('#' :: cs.takeWhile (· != '\n')) :: commentsIn (cs.dropWhile (· != '\n'))
  | _ :: cs => commentsIn cs
termination_by gap => gap.length
decreasing_by
  all_goals simp_wf
  have : (cs.dropWhile (· != '\n')).length ≤ cs.length := (List.dropWhile_sublist _).length_le
  omega

/-- Whether a line holds nothing but a comment. -/
def Line.isComment (line : Line) : Bool :=
  match line.tokens with
  | t :: _ => t.isComment
  | [] => false

/-- Whether a line starts with a given word. -/
def Line.startsWith (line : Line) (word : String) : Bool :=
  match line.tokens with
  | t :: _ => t.isWord word
  | [] => false

/-- How many tokens lines have. -/
def tokenCount : List Line → Nat
  | [] => 0
  | line :: lines => line.tokens.length + tokenCount lines

/-- The first `n` tokens of some lines as they are written. -/
def firstTokens : Nat → List Line → List Char
  | _, [] => []
  | n, line :: lines =>
    if n ≤ line.tokens.length then spanChars (line.tokens.take n)
    else
      spanChars line.tokens ++ line.trail ++ (lines.head?.map (·.lead)).getD [] ++
        firstTokens (n - line.tokens.length) lines

end TypedStubs.Syntax
