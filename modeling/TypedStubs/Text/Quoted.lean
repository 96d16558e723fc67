import TypedStubs.Text.Quoted.Table

/-! # Quoted texts

A text is shown in messages between double quotes.  Quotes and backslashes carry a backslash, the
common controls have their letter, and other characters that cannot be seen are spelled by their
code point.
-/
namespace TypedStubs.Text

/-- Whether a character is shown by its code point. -/
def isHidden (c : Char) : Bool :=
  if c.toNat < 0x80 then decide (c.toNat < 0x20) || c.toNat == 0x7F
  else basicHiddenRanges.covers c || supplementaryHiddenRanges.covers c

/-- How a character is spelled between double quotes. -/
def escapeChar (c : Char) : List Char :=
  if c = '"' then ['\\', '"']
  else if c = '\\' then ['\\', '\\']
  else if c = '\n' then ['\\', 'n']
  else if c = '\r' then ['\\', 'r']
  else if c = '\t' then ['\\', 't']
  else if c.toNat = 0 then ['\\', '0']
  else if isHidden c then ['\\', 'u', '\x7b'] ++ Nat.toDigits 16 c.toNat ++ ['\x7d']
  else [c]

/-- A text between double quotes. -/
def quoted (s : String) : String :=
  String.ofList (['"'] ++ s.toList.flatMap escapeChar ++ ['"'])

end TypedStubs.Text
