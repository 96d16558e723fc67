import TypedStubs.Text.Letter.Table

/-! # Letters, numerals and words

A letter has the Unicode property Alphabetic; a numeral is a decimal digit, a letter-like numeral
such as a Roman one, or another numeral such as a superscript.  A word starts with a letter or an
underscore and goes on with letters, numerals and underscores.
-/
namespace TypedStubs.Text

/-- Whether a character is alphabetic. -/
def isLetter (c : Char) : Bool :=
  if c.toNat < 0x80 then c.isAlpha
  else basicLetterRanges.covers c || supplementaryLetterRanges.covers c

/-- Whether a character is alphabetic or a numeral of any kind. -/
def isLetterOrNumeral (c : Char) : Bool :=
  if c.toNat < 0x80 then c.isAlphanum
  else isLetter c || numeralRanges.covers c

/-- Whether a character may start a word. -/
def startsWord (c : Char) : Bool := isLetter c || c == '_'

/-- Whether a character may stand in a word after its start. -/
def continuesWord (c : Char) : Bool := isLetterOrNumeral c || c == '_'

/-- Whether the characters make one word. -/
def isWordChars : List Char → Bool
  | [] => false
  | c :: cs => startsWord c && (c :: cs).all continuesWord

/-- Whether a text is one word. -/
def isWord (s : String) : Bool := isWordChars s.toList

/-- Whether a character may continue a name of the stubbed language: what may continue a word, or a
mark that joins the character before it. -/
def continuesName (c : Char) : Bool := continuesWord c || joiningMarkRanges.covers c

theorem continuesWord_of_startsWord {c : Char} (h : startsWord c = true) : continuesWord c = true := by
  have hletter : isLetter c = true → isLetterOrNumeral c = true := by
    unfold isLetterOrNumeral
    intro hc
    split
    · next hascii => simp_all [isLetter, Char.isAlphanum]
    · simp [hc]
  unfold startsWord at h
  unfold continuesWord
  grind

end TypedStubs.Text
