import TypedStubs.Hint.Basic

/-! # Unions of hints

The union of several hints lists each of them once, in the order in which they are first met.  A
hint that is itself a union gives its members in its place.  No hint gives no union, and a single
one stands for itself.
-/
namespace TypedStubs.Hint

/-- A list of hints with `hint` at its end, unless it is there already. -/
def addNew (seen : List Hint) (hint : Hint) : List Hint :=
  if seen.contains hint then seen else seen ++ [hint]

/-- The members that the union of some hints has. -/
def unionMembers (hints : List Hint) : List Hint :=
  (hints.flatMap members).foldl addNew []

/-- The union of some hints. -/
def unionOf? (hints : List Hint) : Option Hint :=
  match unionMembers hints with
  | [] => none
  | [only] => some only
  | several => some (.union several)

end TypedStubs.Hint
