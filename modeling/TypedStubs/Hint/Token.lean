import TypedStubs.Text.Blank
import TypedStubs.Text.Letter
import TypedStubs.Text.Quoted

/-! # Tokens of a type hint

Annotation text is read as names, quoted strings, numbers, ellipses, brackets, commas and bars; the
word `or` is a bar.  Blanks stand between tokens and mean nothing.  `next` reads one token off the
front of the text, and every step leaves less text than it found, which `next_rest` states together
with the room the token took.
-/
namespace TypedStubs.Hint

/-- A token of annotation text. -/
inductive Token where
  /-- A possibly dotted name. -/
  | name (path : String)
  /-- A string: its quotation mark and what stands between the two marks. -/
  | quoted (mark : Char) (inner : String)
  /-- A number as written. -/
  | number (text : String)
  /-- Three dots. -/
  | ellipsis
  /-- An opening bracket. -/
  | opening
  /-- A closing bracket. -/
  | closing
  /-- A comma. -/
  | comma
  /-- A bar, or the word that stands for one. -/
  | bar
  deriving DecidableEq, Inhabited

namespace Token

/-- The text of a string with its quotation marks. -/
def quotedText (mark : Char) (inner : String) : String :=
  String.singleton mark ++ inner ++ String.singleton mark

/-- How a token is named in messages. -/
def describe : Token → String
  | .name path => "Name(" ++ Text.quoted path ++ ")"
  | .quoted mark inner => "Str(" ++ Text.quoted (quotedText mark inner) ++ ")"
  | .number text => "Number(" ++ Text.quoted text ++ ")"
  | .ellipsis => "Ellipsis"
  | .opening => "Open"
  | .closing => "Close"
  | .comma => "Comma"
  | .bar => "Pipe"

/-- A bound on the work a token can cause: a string may hold a hint of its own. -/
def weight : Token → Nat
  | .quoted _ inner => inner.toList.length + 1
  | _ => 1

end Token

/-- Why annotation text is no type hint.  Each cause but the first names the text it was met in. -/
inductive Problem where
  /-- There is no token at all. -/
  | empty
  /-- A string has no closing mark. -/
  | unterminated (text : String)
  /-- A character that starts no token. -/
  | strangeCharacter (c : Char) (text : String)
  /-- A token that cannot stand where it stands. -/
  | unexpected (token : Token) (text : String)
  /-- The text ends where more is needed. -/
  | unexpectedEnd (text : String)
  /-- A whole hint is followed by more tokens. -/
  | trailing (text : String)
  deriving DecidableEq

/-- The wording of a problem. -/
def Problem.message : Problem → String
  | .empty => "empty annotation"
  | .unterminated text => "unterminated string in `" ++ text ++ "`"
  | .strangeCharacter c text =>
    "unexpected character `" ++ String.singleton c ++ "` in `" ++ text ++ "`"
  | .unexpected token text => "unexpected " ++ token.describe ++ " in `" ++ text ++ "`"
  | .unexpectedEnd text => "unexpected end of `" ++ text ++ "`"
  | .trailing text => "trailing tokens in `" ++ text ++ "`"

/-- What stands before the closing mark of a string, and what follows the mark.  A backslash takes
the character after it along, so that one is no closing mark. -/
def closeQuoted (mark : Char) : List Char → Option (List Char × List Char)
  | [] => none
  | ['\\'] => none
  | '\\' :: c :: cs => (closeQuoted mark cs).map fun (inner, rest) => ('\\' :: c :: inner, rest)
  | c :: cs =>
    if c = mark then some ([], cs)
    else (closeQuoted mark cs).map fun (inner, rest) => (c :: inner, rest)

/-- The characters at the front that go on with a dotted name, and the rest.  A dot goes on with it
only when a word starts right after. -/
def nameRun : List Char → List Char × List Char
  | [] => ([], [])
  | c :: cs =>
    let goesOn := Text.continuesWord c ||
      c == '.' && (match cs with | d :: _ => Text.startsWord d | [] => false)
    if goesOn then
      let run := nameRun cs
      (c :: run.1, run.2)
    else ([], c :: cs)

/-- Whether a character may stand in a number after its start. -/
def continuesNumber (c : Char) : Bool := c.isAlphanum || c == '.' || c == '_'

/-- Whether a number starts with `c` before `cs`. -/
def startsNumber (c : Char) (cs : List Char) : Bool :=
  c.isDigit || c == '-' && (match cs with | d :: _ => d.isDigit | [] => false)

/-- The token of a dotted name; one name is another spelling of the bar. -/
def wordToken (path : String) : Token := if path = "or" then .bar else .name path

theorem wordToken_weight (path : String) : (wordToken path).weight = 1 := by
  unfold wordToken
  split <;> rfl

/-- The token at the front of the text `c :: cs` and the text after it; a blank gives no token. -/
def next (text : String) (c : Char) (cs : List Char) : Except Problem (Option Token × List Char) :=
  if Text.isBlank c then .ok (none, cs)
  else if c = '[' then .ok (some .opening, cs)
  else if c = ']' then .ok (some .closing, cs)
  else if c = ',' then .ok (some .comma, cs)
  else if c = '|' then .ok (some .bar, cs)
  else if c = '.' ∧ ['.', '.'] <+: cs then .ok (some .ellipsis, cs.drop 2)
  else if c = '\'' ∨ c = '"' then
    match closeQuoted c cs with
    | some (inner, rest) => .ok (some (.quoted c (String.ofList inner)), rest)
    | none => .error (.unterminated text)
  else if startsNumber c cs then
    .ok (some (.number (String.ofList (c :: cs.takeWhile continuesNumber))),
      cs.dropWhile continuesNumber)
  else if Text.startsWord c then
    .ok (some (wordToken (String.ofList (c :: (nameRun cs).1))), (nameRun cs).2)
  else .error (.strangeCharacter c text)

/-- The room that a token takes, if there is one. -/
def roomOf : Option Token → Nat
  | some token => token.weight
  | none => 0

theorem closeQuoted_length {mark : Char} {cs inner rest : List Char}
    (h : closeQuoted mark cs = some (inner, rest)) : inner.length + rest.length + 1 = cs.length := by
  fun_induction closeQuoted mark cs generalizing inner rest with
  | case1 => simp at h
  | case2 => simp at h
  | case3 c cs ih =>
    obtain ⟨⟨i, r⟩, hi, he⟩ := Option.map_eq_some_iff.1 h
    simp only [Prod.mk.injEq] at he
    have := ih hi
    rw [← he.1, ← he.2]
    simp only [List.length_cons]
    omega
  | case4 cs _ => simp at h; simp [h]
  | case5 c cs _ _ _ ih =>
    obtain ⟨⟨i, r⟩, hi, he⟩ := Option.map_eq_some_iff.1 h
    simp only [Prod.mk.injEq] at he
    have := ih hi
    rw [← he.1, ← he.2]
    simp only [List.length_cons]
    omega

theorem nameRun_length (cs : List Char) : (nameRun cs).2.length ≤ cs.length := by
  fun_induction nameRun cs with
  | case1 => simp
  | case2 c cs _ _ _ ih => exact Nat.le_succ_of_le ih
  | case3 c cs _ _ => simp

theorem next_rest {text : String} {c : Char} {cs rest : List Char} {token : Option Token}
    (h : next text c cs = .ok (token, rest)) :
    rest.length ≤ cs.length ∧ roomOf token + rest.length ≤ cs.length + 1 := by
  have hdrop := (List.dropWhile_suffix (l := cs) continuesNumber).length_le
  have hname := nameRun_length cs
  unfold next at h
  repeat' split at h
  all_goals grind [roomOf, Token.weight, closeQuoted_length, wordToken_weight, String.toList_ofList]

/-- The tokens of the characters `cs`, which stand in `text`. -/
def tokensOf (text : String) (cs : List Char) : Except Problem (List Token) :=
  match cs with
  | [] => .ok []
  | c :: cs =>
    match h : next text c cs with
    | .error problem => .error problem
    | .ok (token, rest) =>
      have : rest.length < (c :: cs).length := Nat.lt_succ_of_le (next_rest h).1
      (tokensOf text rest).map (token.toList ++ ·)
termination_by cs.length
decreasing_by exact this

/-- The tokens of a text. -/
def tokenize (text : String) : Except Problem (List Token) := tokensOf text text.toList

/-- The weight of several tokens together. -/
def weightAll : List Token → Nat
  | [] => 0
  | t :: ts => t.weight + weightAll ts

theorem weightAll_tokensOf {text : String} {cs : List Char} {ts : List Token}
    (h : tokensOf text cs = .ok ts) : weightAll ts ≤ cs.length := by
  fun_induction tokensOf text cs generalizing ts with
  | case1 => cases h; simp [weightAll]
  | case2 => cases h
  | case3 c cs token rest hn _ ih =>
    cases ht : tokensOf text rest with
    | error problem => rw [ht] at h; cases h
    | ok us =>
      rw [ht] at h
      cases h
      have h1 := ih ht
      have h2 := (next_rest hn).2
      cases token with
      | none => simp [roomOf] at h1 h2 ⊢; omega
      | some t => simp [weightAll, roomOf] at h1 h2 ⊢; omega

theorem weightAll_tokenize {text : String} {ts : List Token} (h : tokenize text = .ok ts) :
    weightAll ts ≤ text.toList.length := weightAll_tokensOf h

end TypedStubs.Hint
