import TypedStubs.Hint.Basic
import TypedStubs.Hint.Token

/-! # Reading type hints

A hint is a union of primaries with bars between them.  A primary is a name, a name with bracketed
arguments, a number, an ellipsis, a bracketed list, or a string.  Among values a string stands for
itself; elsewhere it holds a hint of its own, which is read in its place.

Every reader answers with the tokens it left over and the fact that they weigh less than those it
was given.  A string weighs more than the tokens inside it, so the reading ends.
-/
namespace TypedStubs.Hint

/-- A value that was read, and the tokens after it. -/
structure Reading (α : Type) (bound : Nat) where
  /-- What was read. -/
  value : α
  /-- The tokens left over. -/
  rest : List Token
  /-- They weigh less than `bound`. -/
  lighter : weightAll rest < bound

@[simp] theorem weightAll_cons (t : Token) (ts : List Token) :
    weightAll (t :: ts) = t.weight + weightAll ts := rfl

/-- The problem of meeting `ts` where something else is needed. -/
def unexpected (text : String) : List Token → Problem
  | [] => .unexpectedEnd text
  | token :: _ => .unexpected token text

/-- The one hint in a list, or the union of several. -/
def ofMembers (first : Hint) : List Hint → Hint
  | [] => first
  | more => .union (first :: more)

mutual
/-- The hint that all of `ts` makes. -/
def readAll (text : String) (ts : List Token) : Except Problem Hint :=
  if ts.isEmpty then .error .empty
  else do
    let read ← readUnion text false ts
    if read.rest.isEmpty then return read.value else throw (.trailing text)
termination_by 4 * weightAll ts + 3

/-- A union at the front of `ts`; `values` says whether it stands among values. -/
def readUnion (text : String) (values : Bool) (ts : List Token) :
    Except Problem (Reading Hint (weightAll ts)) := do
  let first ← readPrimary text values ts
  let more ← readMembers text values first.rest
  return ⟨ofMembers first.value more.value, more.rest, by
    have := first.lighter
    have := more.lighter
    omega⟩
termination_by 4 * weightAll ts + 2
decreasing_by
  · omega
  · have := first.lighter
    omega

/-- The further members of a union, each after a bar. -/
def readMembers (text : String) (values : Bool) (ts : List Token) :
    Except Problem (Reading (List Hint) (weightAll ts + 1)) :=
  match ts with
  | .bar :: ts => do
    let member ← readPrimary text values ts
    let more ← readMembers text values member.rest
    return ⟨member.value :: more.value, more.rest, by
      have := member.lighter
      have := more.lighter
      simp only [weightAll_cons]
      omega⟩
  | ts => .ok ⟨[], ts, Nat.lt_succ_self _⟩
termination_by 4 * weightAll ts + 0
decreasing_by
  · simp only [weightAll_cons, Token.weight]
    omega
  · have := member.lighter
    simp only [weightAll_cons, Token.weight]
    omega

/-- Arguments up to and with the closing bracket; a comma may follow the last one. -/
def readArgs (text : String) (values : Bool) (ts : List Token) :
    Except Problem (Reading (List Hint) (weightAll ts)) :=
  match ts with
  | .closing :: rest => .ok ⟨[], rest, by simp [Token.weight]⟩
  | ts => do
    let arg ← readUnion text values ts
    match h : arg.rest with
    | .comma :: rest =>
      let more ← readArgs text values rest
      return ⟨arg.value :: more.value, more.rest, by
        have := arg.lighter
        have := more.lighter
        simp only [h, weightAll_cons] at *
        omega⟩
    | .closing :: rest => return ⟨[arg.value], rest, by
        have := arg.lighter
        simp only [h, weightAll_cons] at *
        omega⟩
    | others => throw (unexpected text others)
termination_by 4 * weightAll ts + 3
decreasing_by
  · omega
  · have := arg.lighter
    simp only [h, weightAll_cons, Token.weight] at *
    omega

/-- A primary at the front of `ts`. -/
def readPrimary (text : String) (values : Bool) (ts : List Token) :
    Except Problem (Reading Hint (weightAll ts)) :=
  match ts with
  | .name head :: .opening :: rest => do
    let args ← readArgs text (takesValues head) rest
    return ⟨.subscript head args.value, args.rest, by
      have := args.lighter
      simp only [weightAll_cons]
      omega⟩
  | .name path :: rest => .ok ⟨.name path, rest, by simp [Token.weight]⟩
  | .quoted mark inner :: rest =>
    if values then
      .ok ⟨.literal (Token.quotedText mark inner), rest, by simp [Token.weight]⟩
    else
      match _h : tokenize inner with
      | .error problem => .error problem
      | .ok ts => do
        return ⟨← readAll inner ts, rest, by simp [Token.weight]⟩
  | .number digits :: rest => .ok ⟨.literal digits, rest, by simp [Token.weight]⟩
  | .ellipsis :: rest => .ok ⟨.literal "...", rest, by simp [Token.weight]⟩
  | .opening :: rest => do
    let items ← readArgs text values rest
    return ⟨.list items.value, items.rest, by
      have := items.lighter
      simp only [weightAll_cons]
      omega⟩
  | others => .error (unexpected text others)
termination_by 4 * weightAll ts + 1
decreasing_by
  · simp only [weightAll_cons, Token.weight]
    omega
  · have := weightAll_tokenize _h
    simp only [weightAll_cons, Token.weight]
    omega
  · simp only [weightAll_cons, Token.weight]
    omega
end

/-- The hint that an annotation text says. -/
def parse (text : String) : Except Problem Hint := do
  readAll text (← tokenize text)

end TypedStubs.Hint
