import TypedStubs.Text.Cut
import TypedStubs.Text.Quoted

/-! # Problems of JSON texts

A text is refused for a cause that lies at a place.  Either the text breaks the grammar, or a value in
it is not of the kind that is asked for.
-/
namespace TypedStubs.Json

/-- A place in a text. -/
structure Place where
  /-- Number of the line, from one. -/
  line : Nat
  /-- How many bytes of the line stand before the place. -/
  column : Nat
  deriving DecidableEq

/-- The place behind a character. -/
def Place.after (place : Place) (c : Char) : Place :=
  if c = '\n' then ⟨place.line + 1, 0⟩ else ⟨place.line, place.column + c.utf8Size⟩

/-- A value that was met where another one was asked for. -/
inductive Found where
  /-- The empty value. -/
  | null
  /-- A truth value. -/
  | bool (value : Bool)
  /-- A whole number, as it is spelled. -/
  | integer (digits : String)
  /-- A number with a fraction or an exponent, as it is spelled. -/
  | fraction (digits : String)
  /-- A text. -/
  | text (value : String)
  /-- A list. -/
  | list
  /-- An object. -/
  | object
  deriving DecidableEq

/-- How a value that was met is named. -/
def Found.describe : Found → String
  | .null => "null"
  | .bool true => "boolean `true`"
  | .bool false => "boolean `false`"
  | .integer digits => "integer `" ++ digits ++ "`"
  | .fraction digits => "floating point `" ++ digits ++ "`"
  | .text value => "string " ++ Text.quoted value
  | .list => "sequence"
  | .object => "map"

/-- Why a text is refused. -/
inductive Cause where
  /-- The text ends where a value should stand, or in the middle of one. -/
  | endInValue
  /-- The text ends in a list. -/
  | endInList
  /-- The text ends in an object. -/
  | endInObject
  /-- The text ends in a string. -/
  | endInString
  /-- No value starts like this. -/
  | noValue
  /-- A word is misspelled. -/
  | noWord
  /-- A number is misspelled. -/
  | badNumber
  /-- A string holds a control character. -/
  | controlCharacter
  /-- A string holds a backslash that spells nothing. -/
  | badEscape
  /-- Half of a surrogate pair is spelled without the other half. -/
  | loneSurrogate
  /-- Something else follows half of a surrogate pair. -/
  | noSecondSurrogate
  /-- A key is no string. -/
  | keyNotString
  /-- There is no colon behind a key. -/
  | noColon
  /-- There is neither a comma nor the end behind an item of a list. -/
  | noItemEnd
  /-- There is neither a comma nor the end behind an entry of an object. -/
  | noEntryEnd
  /-- A comma stands before a closing bracket. -/
  | trailingComma
  /-- Something follows what should be the end. -/
  | trailing
  /-- A value is of another kind than `expected`. -/
  | wrongKind (found : Found) (expected : String)
  /-- A value is of the right kind and still none that is `expected`. -/
  | wrongValue (found : Found) (expected : String)
  /-- A list stands for a record and has another number of items. -/
  | wrongLength (length : Nat) (expected : String)
  /-- A name is none of those that are known. -/
  | unknownName (name : String) (known : List String)
  /-- A key that has to be there is not. -/
  | missingKey (key : String)
  /-- A key stands there twice. -/
  | repeatedKey (key : String)
  deriving DecidableEq

/-- The wording of a cause. -/
def Cause.message : Cause → String
  | .endInValue => "EOF while parsing a value"
  | .endInList => "EOF while parsing a list"
  | .endInObject => "EOF while parsing an object"
  | .endInString => "EOF while parsing a string"
  | .noValue => "expected value"
  | .noWord => "expected ident"
  | .badNumber => "invalid number"
  | .controlCharacter =>
    "control character (\\u0000-\\u001F) found while parsing a string"
  | .badEscape => "invalid escape"
  | .loneSurrogate => "lone leading surrogate in hex escape"
  | .noSecondSurrogate => "unexpected end of hex escape"
  | .keyNotString => "key must be a string"
  | .noColon => "expected `:`"
  | .noItemEnd => "expected `,` or `]`"
  | .noEntryEnd => "expected `,` or `\x7d`"
  | .trailingComma => "trailing comma"
  | .trailing => "trailing characters"
  | .wrongKind found expected => "invalid type: " ++ found.describe ++ ", expected " ++ expected
  | .wrongValue found expected => "invalid value: " ++ found.describe ++ ", expected " ++ expected
  | .wrongLength length expected =>
    "invalid length " ++ toString length ++ ", expected " ++ expected
  | .unknownName name known =>
    "unknown variant `" ++ name ++ "`, expected " ++
      Text.join " or " (known.map fun k => "`" ++ k ++ "`")
  | .missingKey key => "missing field `" ++ key ++ "`"
  | .repeatedKey key => "duplicate field `" ++ key ++ "`"

/-- Why and where a text is refused. -/
structure Problem where
  /-- Why. -/
  cause : Cause
  /-- Where. -/
  place : Place
  deriving DecidableEq

/-- The wording of a problem. -/
def Problem.message (problem : Problem) : String :=
  problem.cause.message ++ " at line " ++ toString problem.place.line ++ " column " ++
    toString problem.place.column

end TypedStubs.Json
