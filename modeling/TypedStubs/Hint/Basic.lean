import TypedStubs.Dotted

/-! # Type hints

A type hint is what an annotation says: a dotted name, a generic with its arguments, a bracketed
list as in the first argument of a callable, a union, or a literal value.  Here are the type, its
written form, equality, and the dotted names a hint refers to, with the renaming of those names.
`mapNamesM` meets the names in the order in which `names` lists them.
-/
namespace TypedStubs

/-- A type expression of an attribute, a parameter or a return value. -/
inductive Hint where
  /-- A possibly dotted name. -/
  | name (path : String)
  /-- A generic with its arguments. -/
  | subscript (head : String) (args : List Hint)
  /-- A bracketed list of hints. -/
  | list (items : List Hint)
  /-- One of several hints. -/
  | union (members : List Hint)
  /-- A value: a string with its quotes, a number or an ellipsis. -/
  | literal (text : String)
  deriving Inhabited

namespace Hint

mutual
/-- Whether two hints are the same, compared part by part. -/
def same : Hint → Hint → Bool
  | .name p, .name q => p == q
  | .subscript h as, .subscript k bs => h == k && sameAll as bs
  | .list as, .list bs => sameAll as bs
  | .union as, .union bs => sameAll as bs
  | .literal s, .literal t => s == t
  | _, _ => false

/-- Whether two lists of hints are the same. -/
def sameAll : List Hint → List Hint → Bool
  | [], [] => true
  | a :: as, b :: bs => same a b && sameAll as bs
  | _, _ => false
end

mutual
theorem same_iff : ∀ a b : Hint, same a b = true ↔ a = b
  | .name p, b => by cases b <;> simp [same]
  | .subscript h as, b => by cases b <;> simp [same, sameAll_iff as]
  | .list as, b => by cases b <;> simp [same, sameAll_iff as]
  | .union as, b => by cases b <;> simp [same, sameAll_iff as]
  | .literal s, b => by cases b <;> simp [same]

theorem sameAll_iff : ∀ as bs : List Hint, sameAll as bs = true ↔ as = bs
  | [], bs => by cases bs <;> simp [sameAll]
  | a :: as, bs => by cases bs <;> simp [sameAll, same_iff a, sameAll_iff as]
end

instance : DecidableEq Hint := fun a b => decidable_of_iff _ (same_iff a b)

mutual
/-- The written form of a hint. -/
def render : Hint → String
  | .name path => path
  | .subscript head args => head ++ "[" ++ Text.join ", " (renderAll args) ++ "]"
  | .list items => "[" ++ Text.join ", " (renderAll items) ++ "]"
  | .union members => Text.join " | " (renderAll members)
  | .literal text => text

/-- The written forms of hints, in order. -/
def renderAll : List Hint → List String
  | [] => []
  | h :: hs => render h :: renderAll hs
end

theorem renderAll_eq_map : ∀ hs : List Hint, renderAll hs = hs.map render
  | [] => rfl
  | h :: hs => by simp [renderAll, renderAll_eq_map hs]

/-- The members of a union, or the hint itself. -/
def members : Hint → List Hint
  | .union members => members
  | hint => [hint]

/-- The first component of the hint's own name; lists, unions and literals have none. -/
def head? : Hint → Option String
  | .name path => some (Dotted.head path)
  | .subscript head _ => some (Dotted.head head)
  | _ => none

/-- Whether this is the hint of the empty value. -/
def isNone : Hint → Bool
  | .name path => path == "None"
  | _ => false

/-- Whether the arguments of a generic are values and not types. -/
def takesValues (head : String) : Bool :=
  head == "Literal" || (Text.before? ".Literal" head).isSome

mutual
/-- Every dotted name a hint refers to, in reading order.  Arguments that are values hold none. -/
def names : Hint → List String
  | .name path => [path]
  | .subscript head args => head :: if takesValues head then [] else namesAll args
  | .list items => namesAll items
  | .union members => namesAll members
  | .literal _ => []

/-- The dotted names of several hints, in reading order. -/
def namesAll : List Hint → List String
  | [] => []
  | h :: hs => names h ++ namesAll hs
end

mutual
/-- The hint with every name it refers to replaced by what `f` answers, in reading order. -/
def mapNamesM {m : Type → Type} [Monad m] (f : String → m String) : Hint → m Hint
  | .name path => do return .name (← f path)
  | .subscript head args => do
    let renamed ← f head
    if takesValues head then return .subscript renamed args
    else return .subscript renamed (← mapNamesAllM f args)
  | .list items => do return .list (← mapNamesAllM f items)
  | .union members => do return .union (← mapNamesAllM f members)
  | .literal text => pure (.literal text)

/-- Several hints with their names replaced, from the first to the last. -/
def mapNamesAllM {m : Type → Type} [Monad m] (f : String → m String) : List Hint → m (List Hint)
  | [] => pure []
  | h :: hs => do
    let renamed ← mapNamesM f h
    return renamed :: (← mapNamesAllM f hs)
end

end Hint
end TypedStubs
