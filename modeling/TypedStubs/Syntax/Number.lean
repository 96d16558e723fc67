/-! # Number literals

Whole numbers are decimal, or hexadecimal, octal or binary after a zero and a letter; underscores may
stand between digits.  A fraction or an exponent makes a number a float.  A letter may mark a number
as imaginary or long.
-/
namespace TypedStubs.Syntax

/-- How many characters at the front go on with digits.  An underscore may stand after a digit. -/
def digitRun (isDigit : Char → Bool) (afterUnderscore : Bool) : List Char → Nat
  | [] => 0
  | c :: cs =>
    if isDigit c then digitRun isDigit false cs + 1
    else if c == '_' && !afterUnderscore then digitRun isDigit true cs + 1
    else 0

/-- Whether a character is a hexadecimal digit. -/
def isHexDigit (c : Char) : Bool :=
  c.isDigit || decide ('a' ≤ c ∧ c ≤ 'f') || decide ('A' ≤ c ∧ c ≤ 'F')

/-- How many characters at the front go on with digits, unless there are none. -/
def digits? (isDigit : Char → Bool) (cs : List Char) : Option Nat :=
  if digitRun isDigit false cs = 0 then none else some (digitRun isDigit false cs)

/-- How many characters at the front are digits of the base that a letter names. -/
def basedRun (letter : Char) (cs : List Char) : Option Nat :=
  if letter == 'x' || letter == 'X' then digits? isHexDigit cs
  else if letter == 'o' || letter == 'O' then digits? (fun c => decide ('0' ≤ c ∧ c ≤ '7')) cs
  else if letter == 'b' || letter == 'B' then digits? (fun c => c == '0' || c == '1') cs
  else none

/-- How many characters at the front are decimal digits, the first one not an underscore. -/
def decimalRun : List Char → Nat
  | [] => 0
  | d :: cs => if d.isDigit then digitRun Char.isDigit false cs + 1 else 0

/-- How many characters at the front are an exponent: a letter, perhaps a sign, and digits. -/
def exponentRun : List Char → Nat
  | e :: s :: cs =>
    if e == 'e' || e == 'E' then
      let sign := if s == '+' || s == '-' then 1 else 0
      match decimalRun ((s :: cs).drop sign) with
      | 0 => 0
      | n => n + sign + 1
    else 0
  | _ => 0

/-- One when a letter at the front is among those given. -/
def suffixRun (letters : List Char) : List Char → Nat
  | c :: _ => if letters.contains c then 1 else 0
  | [] => 0

/-- How many characters of `cs` belong to the number `0 :: cs` of another base, if it is one. -/
def basedNumber (c : Char) (cs : List Char) : Option Nat :=
  match cs with
  | letter :: rest => if c == '0' then (basedRun letter rest).map (· + 1) else none
  | [] => none

/-- One when a point is at the front. -/
def pointRun : List Char → Nat
  | c :: _ => if c == '.' then 1 else 0
  | [] => 0

/-- Whether the decimal number `c :: cs` is a float, and how many characters of `cs` belong to it but
for a letter at its end. -/
def decimalNumber (c : Char) (cs : List Char) : Bool × Nat :=
  let whole := if c == '.' then 0 else digitRun Char.isDigit false cs
  let point := if c == '.' then 0 else pointRun (cs.drop whole)
  let isPointed := c == '.' || point == 1
  let fraction := if isPointed then decimalRun (cs.drop (whole + point)) else 0
  let exponent := exponentRun (cs.drop (whole + point + fraction))
  (isPointed || exponent != 0, whole + point + fraction + exponent)

/-- Whether the number `c :: cs` is a float, and how many characters of `cs` belong to it. -/
def numberRun (c : Char) (cs : List Char) : Bool × Nat :=
  match basedNumber c cs with
  | some n => (false, n + suffixRun ['l', 'L'] (cs.drop n))
  | none =>
    let (isFloat, used) := decimalNumber c cs
    (isFloat, used + suffixRun ['l', 'L', 'j', 'J'] (cs.drop used))

end TypedStubs.Syntax
