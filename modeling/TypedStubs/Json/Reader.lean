import TypedStubs.Json.Problem

/-! # Reading JSON

A reader takes a value of the kind it asks for off the front of a text, or says why and where it
cannot.  The text is looked at once, from the front, so of two problems the first one counts.  Only
space, tab, line feed and carriage return are blanks, a string holds no control character, and a
number has no leading zero.

Repetition is bounded by the length of the text: every item takes at least one character.
-/
namespace TypedStubs.Json

/-- What is left of a text, and the place where it starts. -/
structure Cursor where
  /-- What is left. -/
  rest : List Char
  /-- Where it starts. -/
  place : Place

/-- The start of a text. -/
def Cursor.ofText (text : String) : Cursor := ⟨text.toList, ⟨1, 0⟩⟩

/-- The place behind the first byte of what is left. -/
def Cursor.nextPlace (cursor : Cursor) : Place :=
  match cursor.rest with
  | [] => cursor.place
  | '\n' :: _ => ⟨cursor.place.line + 1, 0⟩
  | _ => ⟨cursor.place.line, cursor.place.column + 1⟩

/-- The text behind some characters at its front. -/
def Cursor.behind (cursor : Cursor) (taken : List Char) : Cursor :=
  ⟨cursor.rest.drop taken.length, taken.foldl Place.after cursor.place⟩

/-- A reader of `α`. -/
abbrev Reader := StateT Cursor (Except Problem)

/-- Fails where what is left starts. -/
def failHere {α : Type} (cause : Cause) : Reader α := do throw ⟨cause, (← get).place⟩

/-- Fails at the next character. -/
def failNext {α : Type} (cause : Cause) : Reader α := do throw ⟨cause, (← get).nextPlace⟩

/-- The next character. -/
def peek? : Reader (Option Char) := do return (← get).rest.head?

/-- Takes the next character. -/
def take : Reader Unit := modify fun cursor => cursor.behind (cursor.rest.take 1)

/-- Takes the characters at the front that satisfy `p`. -/
def takeWhile (p : Char → Bool) : Reader (List Char) := do
  let taken := (← get).rest.takeWhile p
  modify (·.behind taken)
  return taken

/-- Whether a character is a blank between values. -/
def isBlank (c : Char) : Bool := c == ' ' || c == '\n' || c == '\t' || c == '\r'

/-- The next character after blanks, which are taken. -/
def peekSolid? : Reader (Option Char) := do
  discard (takeWhile isBlank)
  peek?

/-! ### Words and numbers -/

/-- Takes the characters of a word. -/
def word : List Char → Reader Unit
  | [] => return
  | c :: more => do
    match ← peek? with
    | none => failHere .endInValue
    | some d =>
      if d = c then
        take
        word more
      else failNext .noWord

/-- One or more digits; `atEnd` says what it is when the text ends before them. -/
def digits (atEnd : Cause) : Reader (List Char) := do
  match ← peek? with
  | none => failHere atEnd
  | some c => if c.isDigit then takeWhile Char.isDigit else failNext .badNumber

/-- Takes the next character if it is one of those given. -/
def takeAny (choices : List Char) : Reader (List Char) := do
  match ← peek? with
  | some c =>
    if choices.contains c then
      take
      return [c]
    else return []
  | none => return []

/-- The whole part of a number: a zero, or digits that start with none. -/
def wholePart (atEnd : Cause) : Reader (List Char) := do
  if ← (return (← peek?) == some '0') then
    take
    if (← peek?).any Char.isDigit then failNext .badNumber else return ['0']
  else digits atEnd

/-- A number; `atEnd` says what it is when the text ends inside it. -/
def number (atEnd : Cause) : Reader Found := do
  let sign ← takeAny ['-']
  let whole ← wholePart atEnd
  let point ← takeAny ['.']
  let fraction ← if point.isEmpty then pure [] else digits atEnd
  let e ← takeAny ['e', 'E']
  let exponent ← if e.isEmpty then pure [] else (do return (← takeAny ['+', '-']) ++ (← digits atEnd))
  let spelled := String.ofList (sign ++ whole ++ point ++ fraction ++ e ++ exponent)
  return if point.isEmpty && e.isEmpty then .integer spelled else .fraction spelled

/-! ### Strings -/

/-- The value of a hexadecimal digit. -/
def hexDigit? (c : Char) : Option Nat :=
  if c.isDigit then some (c.toNat - '0'.toNat)
  else if 'a' ≤ c ∧ c ≤ 'f' then some (c.toNat - 'a'.toNat + 10)
  else if 'A' ≤ c ∧ c ≤ 'F' then some (c.toNat - 'A'.toNat + 10)
  else none

/-- The number that four hexadecimal digits spell. -/
def hexUnit : Reader Nat := do
  let four := (← get).rest.take 4
  modify (·.behind four)
  if four.length < 4 then failHere .endInString
  else
    match four.mapM hexDigit? with
    | some values => return values.foldl (fun n value => n * 16 + value) 0
    | none => failHere .badEscape

/-- The character that a letter after a backslash spells. -/
def escaped? (c : Char) : Option Char :=
  if c = '"' ∨ c = '\\' ∨ c = '/' then some c
  else if c = 'b' then some '\x08'
  else if c = 'f' then some '\x0c'
  else if c = 'n' then some '\n'
  else if c = 'r' then some '\r'
  else if c = 't' then some '\t'
  else none

/-- Whether a number of sixteen bits is the first half of a surrogate pair. -/
def isFirstHalf (n : Nat) : Bool := decide (0xD800 ≤ n) && decide (n ≤ 0xDBFF)

/-- Whether a number of sixteen bits is the second half of a surrogate pair. -/
def isSecondHalf (n : Nat) : Bool := decide (0xDC00 ≤ n) && decide (n ≤ 0xDFFF)

/-- The second half of a surrogate pair, which has to be spelled by its number too. -/
def secondHalf : Reader Nat := do
  for c in ['\\', 'u'] do
    match ← peek? with
    | none => failHere .endInString
    | some d => if d = c then take else failNext .noSecondSurrogate
  let n ← hexUnit
  if isSecondHalf n then return n else failHere .loneSurrogate

/-- The character that is spelled by its number. -/
def spelledByNumber : Reader Char := do
  let n ← hexUnit
  if isSecondHalf n then failHere .loneSurrogate
  else if isFirstHalf n then
    let m ← secondHalf
    return Char.ofNat (0x10000 + (n - 0xD800) * 0x400 + (m - 0xDC00))
  else return Char.ofNat n

/-- The character that is spelled after a backslash.  Where the string does not matter, half a
surrogate pair may stand alone. -/
def escape (matters : Bool) : Reader Char := do
  match ← peek? with
  | none => failHere .endInString
  | some 'u' =>
    take
    if matters then spelledByNumber else Char.ofNat <$> hexUnit
  | some c =>
    match escaped? c with
    | some d =>
      take
      return d
    | none => failNext .badEscape

/-- The characters of a string up to its closing quote, of which there are fewer than `bound`. -/
def characters (matters : Bool) : (bound : Nat) → Reader (List Char)
  | 0 => failHere .endInString
  | bound + 1 => do
    match ← peek? with
    | none => failHere .endInString
    | some '"' =>
      take
      return []
    | some '\\' =>
      take
      let c ← escape matters
      return c :: (← characters matters bound)
    | some c =>
      if c.toNat < 0x20 then failNext .controlCharacter
      else
        take
        return c :: (← characters matters bound)

/-- A string whose opening quote is next. -/
def quotedText (matters : Bool) : Reader String := do
  take
  return String.ofList (← characters matters ((← get).rest.length + 1))

/-! ### Lists and objects -/

/-- Whether another item of a list follows; a comma before it is taken. -/
def moreItems (isFirst : Bool) : Reader Bool := do
  match ← peekSolid? with
  | none => failNext .endInList
  | some ']' => return false
  | some c =>
    if isFirst then return true
    else if c = ',' then
      take
      match ← peekSolid? with
      | none => failNext .endInValue
      | some ']' => failNext .trailingComma
      | some _ => return true
    else failNext .noItemEnd

/-- Whether another entry of an object follows, whose key is next; a comma before it is taken. -/
def moreEntries (isFirst : Bool) : Reader Bool := do
  match ← peekSolid? with
  | none => failNext .endInObject
  | some '\x7d' => return false
  | some c =>
    if isFirst then
      if c = '"' then return true else failNext .keyNotString
    else if c = ',' then
      take
      match ← peekSolid? with
      | none => failNext .endInValue
      | some '"' => return true
      | some '\x7d' => failNext .trailingComma
      | some _ => failNext .keyNotString
    else failNext .noEntryEnd

/-- Takes the colon behind a key. -/
def colon : Reader Unit := do
  match ← peekSolid? with
  | none => failNext .endInObject
  | some ':' => take
  | some _ => failNext .noColon

/-- Takes a closing bracket after blanks, if it is next. -/
def takeClosing (bracket : Char) : Reader Unit := do
  if (← peekSolid?) == some bracket then take

/-- What `step` makes of `s` as long as `more` says that there is more, at most `bound` times. -/
def repeatWhile {σ : Type} (more : Bool → Reader Bool) (step : σ → Reader σ) :
    (bound : Nat) → (isFirst : Bool) → σ → Reader σ
  | 0, _, s => return s
  | bound + 1, isFirst, s => do
    if ← more isFirst then repeatWhile more step bound false (← step s) else return s

/-- What `step` makes of `s`, once for every item behind the opening bracket, which is next. -/
def within {σ : Type} (more : Bool → Reader Bool) (step : σ → Reader σ) (s : σ) : Reader σ := do
  take
  let s ← repeatWhile more step ((← get).rest.length + 1) true s
  take
  return s

/-! ### Values that do not matter -/

mutual
/-- Takes a value of any kind; there are fewer than `bound` characters in it. -/
def skipValue : (bound : Nat) → Reader Unit
  | 0 => failHere .endInValue
  | bound + 1 => do
    match ← peekSolid? with
    | none => failNext .endInValue
    | some '"' => discard (quotedText false)
    | some '[' =>
      take
      match ← peekSolid? with
      | none => failNext .endInList
      | some ']' => take
      | some _ => skipItems bound
    | some '\x7b' =>
      take
      match ← peekSolid? with
      | none => failNext .endInObject
      | some '\x7d' => take
      | some _ => skipEntries bound
    | some 'n' => word "null".toList
    | some 't' => word "true".toList
    | some 'f' => word "false".toList
    | some c =>
      if c = '-' ∨ c.isDigit then discard (number .badNumber) else failNext .noValue

/-- Takes the items of a list and its closing bracket. -/
def skipItems : (bound : Nat) → Reader Unit
  | 0 => failHere .endInList
  | bound + 1 => do
    skipValue bound
    match ← peekSolid? with
    | none => failNext .endInList
    | some ',' =>
      take
      skipItems bound
    | some ']' => take
    | some _ => failNext .noItemEnd

/-- Takes the entries of an object and its closing brace. -/
def skipEntries : (bound : Nat) → Reader Unit
  | 0 => failHere .endInObject
  | bound + 1 => do
    match ← peekSolid? with
    | none => failNext .endInObject
    | some '"' => discard (quotedText false)
    | some _ => failNext .keyNotString
    colon
    skipValue bound
    match ← peekSolid? with
    | none => failNext .endInObject
    | some ',' =>
      take
      skipEntries bound
    | some '\x7d' => take
    | some _ => failNext .noEntryEnd
end

/-- Takes a value of any kind. -/
def anyValue : Reader Unit := do skipValue ((← get).rest.length + 1)

/-! ### Values of one kind -/

/-- Fails since the value that is next is not what is `expected`. -/
def unexpected {α : Type} (expected : String) : Reader α := do
  match ← peekSolid? with
  | none => failNext .endInValue
  | some 'n' =>
    word "null".toList
    failHere (.wrongKind .null expected)
  | some 't' =>
    word "true".toList
    failHere (.wrongKind (.bool true) expected)
  | some 'f' =>
    word "false".toList
    failHere (.wrongKind (.bool false) expected)
  | some '"' =>
    let value ← quotedText true
    failHere (.wrongKind (.text value) expected)
  | some '[' => failHere (.wrongKind .list expected)
  | some '\x7b' => failHere (.wrongKind .object expected)
  | some c =>
    if c = '-' ∨ c.isDigit then
      let found ← number .endInValue
      failHere (.wrongKind found expected)
    else failNext .noValue

/-- A string that is asked for as what is `expected`. -/
def textAs (expected : String) : Reader String := do
  if (← peekSolid?) == some '"' then quotedText true else unexpected expected

/-- A text. -/
def aText : Reader String := textAs "a string"

/-- A text of one character. -/
def aCharacter : Reader Char := do
  let value ← textAs "a character"
  match value.toList with
  | [c] => return c
  | _ => failHere (.wrongValue (.text value) "a character")

/-- What `value` reads, or nothing for the empty value. -/
def orNothing {α : Type} (value : Reader α) : Reader (Option α) := do
  if (← peekSolid?) == some 'n' then
    word "null".toList
    return none
  else return some (← value)

/-- A list of what `item` reads. -/
def listOf {α : Type} (item : Reader α) : Reader (List α) := do
  if (← peekSolid?) == some '[' then
    let items ← within moreItems (fun items => do return (← item) :: items) []
    return items.reverse
  else unexpected "a sequence"

/-- The entries of an object, each with what `value` reads. -/
def entriesOf {α : Type} (value : Reader α) : Reader (List (String × α)) := do
  if (← peekSolid?) == some '\x7b' then
    let entries ← within moreEntries (fun entries => do
      let key ← quotedText true
      colon
      return (key, ← value) :: entries) []
    return entries.reverse
  else unexpected "a map"

/-- What the name in a string stands for. -/
def named {α : Type} (choices : List (String × α)) (name : String) : Reader α :=
  match choices.lookup name with
  | some value => return value
  | none => failHere (.unknownName name (choices.map (·.1)))

/-- One of several values that go by name: the name alone, or an object that has the name as its key
and nothing as its value. -/
def oneOf {α : Type} (choices : List (String × α)) : Reader α := do
  match ← peekSolid? with
  | none => failNext .endInValue
  | some '"' => named choices (← quotedText true)
  | some '\x7b' =>
    take
    let value ← named choices (← textAs "variant identifier")
    colon
    if (← peekSolid?) == some 'n' then word "null".toList else unexpected "unit"
    match ← peekSolid? with
    | some '\x7d' =>
      take
      return value
    | some _ => failHere .noValue
    | none => failHere .endInObject
  | some _ => failNext .noValue

/-! ### Records -/

/-- What a record is read by: an object with some of the keys, or a list of the values in the order of
the keys. -/
structure Layout (σ : Type) where
  /-- How the record is named in messages. -/
  title : String
  /-- The keys of the record, in order. -/
  keys : List String
  /-- Whether every key has to be there. -/
  isStrict : Bool
  /-- Reads the value of a key into the record. -/
  value : String → σ → Reader σ

namespace Layout

/-- Reads an entry of an object into the record; the keys in the second part were met before. -/
def entry {σ : Type} (layout : Layout σ) (state : σ × List String) : Reader (σ × List String) := do
  let (s, met) := state
  let key ← quotedText true
  if met.contains key then
    takeClosing '\x7d'
    failHere (.repeatedKey key)
  else if layout.keys.contains key then
    colon
    return (← layout.value key s, key :: met)
  else
    colon
    anyValue
    return (s, met)

/-- Takes the end of a list that has an item for every key. -/
def listEnd : Reader Unit := do
  match ← peekSolid? with
  | none => failNext .endInList
  | some ']' => take
  | some ',' =>
    take
    match ← peekSolid? with
    | some ']' => failNext .trailingComma
    | _ => failNext .trailing
  | some _ => failNext .trailing

/-- Reads the items of a list into the record, `count` of which were read before. -/
def items {σ : Type} (layout : Layout σ) (count : Nat) (s : σ) : (keys : List String) → Reader σ
  | [] => do
    listEnd
    return s
  | key :: keys => do
    if ← moreItems (count == 0) then
      let s ← layout.value key s
      layout.items (count + 1) s keys
    else
      take
      if layout.isStrict then
        failHere (.wrongLength count
          (layout.title ++ " with " ++ toString layout.keys.length ++ " elements"))
      else return s

/-- A record that is `start` but for what is read. -/
def record {σ : Type} (layout : Layout σ) (start : σ) : Reader σ := do
  match ← peekSolid? with
  | some '\x7b' =>
    let (s, met) ← within moreEntries layout.entry (start, [])
    match layout.keys.find? (!met.contains ·) with
    | some key => if layout.isStrict then failHere (.missingKey key) else return s
    | none => return s
  | some '[' =>
    take
    layout.items 0 start layout.keys
  | _ => unexpected layout.title

end Layout

/-- What `value` reads off a text, if nothing is left but blanks. -/
def readAll {α : Type} (value : Reader α) (text : String) : Except Problem α :=
  (do
    let a ← value
    if (← peekSolid?).isSome then failNext .trailing else return a : Reader α).run' (.ofText text)

end TypedStubs.Json
