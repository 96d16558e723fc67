import TypedStubs.Text.Ranges

/-! # Blank characters and trimming

Blank means the Unicode property White_Space.  The no-break space and the ideographic space are
blank; the zero-width space, the byte-order mark and the control separators below U+0020 other than
tab, line feed, vertical tab, form feed and carriage return are not.
-/
namespace TypedStubs.Text

/-- The code points with the property White_Space. -/
def blankRanges : CharRanges := [
  (0x9, 0xD), (0x20, 0x20), (0x85, 0x85), (0xA0, 0xA0), (0x1680, 0x1680), (0x2000, 0x200A),
  (0x2028, 0x2029), (0x202F, 0x202F), (0x205F, 0x205F), (0x3000, 0x3000)]

/-- Whether a character is white space. -/
def isBlank (c : Char) : Bool := blankRanges.covers c

/-- The characters after the longest run at the front that satisfies `p`, from the other end. -/
def dropEndWhile (p : Char → Bool) (cs : List Char) : List Char :=
  (cs.reverse.dropWhile p).reverse

/-- Characters without leading blanks. -/
def trimStartChars (cs : List Char) : List Char := cs.dropWhile isBlank

/-- Characters without trailing blanks. -/
def trimEndChars (cs : List Char) : List Char := dropEndWhile isBlank cs

/-- Characters without blanks at either end. -/
def trimChars (cs : List Char) : List Char := trimEndChars (trimStartChars cs)

/-- A text without leading blanks. -/
def trimStart (s : String) : String := String.ofList (trimStartChars s.toList)

/-- A text without trailing blanks. -/
def trimEnd (s : String) : String := String.ofList (trimEndChars s.toList)

/-- A text without blanks at either end. -/
def trim (s : String) : String := String.ofList (trimChars s.toList)

/-- Whether a text has no character but blanks. -/
def isAllBlank (s : String) : Bool := s.toList.all isBlank

@[simp] theorem toList_trimStart (s : String) :
    (trimStart s).toList = trimStartChars s.toList := by simp [trimStart]

@[simp] theorem toList_trimEnd (s : String) :
    (trimEnd s).toList = trimEndChars s.toList := by simp [trimEnd]

@[simp] theorem toList_trim (s : String) : (trim s).toList = trimChars s.toList := by
  simp [trim]

end TypedStubs.Text
