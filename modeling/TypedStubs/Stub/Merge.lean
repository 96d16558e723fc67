import TypedStubs.Stub.Basic

/-! # Merging generated items into a stub

What a stub had before stays, and what is generated is added to it.  An item that binds a new name goes
to the end; the members of a generated class go into the class of that name; the parameters that a
function lacks go into its signature.  Functions that have different roles for a property are different
items.
-/
namespace TypedStubs

open Syntax (ParamKind)

/-- Whether a kind of parameter takes any number of arguments. -/
def isCatchAll (kind : ParamKind) : Bool := kind == .varPositional || kind == .varKeyword

/-- Whether a kind of parameter makes those after it ones that are given by name only. -/
def startsNamed (kind : ParamKind) : Bool := kind == .varPositional || kind == .keywordOnlyMarker

/-- A parameter with dots as its default. -/
def ParamText.withDots (p : ParamText) : ParamText :=
  { p with text := p.text ++ if p.text.toList.contains ':' then " = ..." else "=..." }

/-- Parameters with one more that is given by position.  It stands before any star, and takes dots as
its default when a parameter before it has a default. -/
def insertPositional (params : List ParamText) (p : ParamText) : List ParamText :=
  let ends := fun q : ParamText => startsNamed q.kind || q.kind == .varKeyword
  let before := params.takeWhile (!ends ·)
  let after := params.dropWhile (!ends ·)
  let p := if !p.hasDefault && before.any ParamText.hasDefault then p.withDots else p
  before ++ p :: after

/-- Parameters with one more that is given by name only.  It stands before the catch-all for named
arguments, behind a star that is added when there is none. -/
def insertNamedOnly (params : List ParamText) (p : ParamText) : List ParamText :=
  let before := params.takeWhile (·.kind != .varKeyword)
  let after := params.dropWhile (·.kind != .varKeyword)
  before ++ (if before.any (startsNamed ·.kind) then [] else [.star]) ++ p :: after

/-- Parameters with a catch-all for positional arguments, which takes the place of a star. -/
def insertVarPositional (params : List ParamText) (p : ParamText) : List ParamText :=
  let before := params.takeWhile (·.kind != .varKeyword)
  let after := params.dropWhile (·.kind != .varKeyword)
  let plain := before.takeWhile (!startsNamed ·.kind)
  plain ++ p :: (before.drop (plain.length + 1) ++ after)

/-- Parameters with a generated one, unless they have it; `namedOnly` says whether it is given by name
only. -/
def mergeParam (params : List ParamText) (namedOnly : Bool) (p : ParamText) : List ParamText :=
  if p.name.isEmpty || params.any (·.name == p.name) then params
  else if isCatchAll p.kind && params.any (·.kind == p.kind) then params
  else
    match p.kind with
    | .varKeyword => params ++ [p]
    | .varPositional => insertVarPositional params p
    | _ => if namedOnly then insertNamedOnly params p else insertPositional params p

/-- Parameters with the generated ones that they lack; `namedOnly` says whether a star stood before the
generated ones. -/
def mergeParams (params : List ParamText) (namedOnly : Bool) : List ParamText → List ParamText
  | [] => params
  | p :: rest =>
    let namedOnly := namedOnly || startsNamed p.kind
    mergeParams (mergeParam params namedOnly p) namedOnly rest

/-- A function with what a generated one adds to it. -/
def StubFunction.merge (existing generated : StubFunction) : StubFunction :=
  { existing with
    params := mergeParams existing.params false generated.params
    returns := existing.returns <|> generated.returns
    decorators := if existing.decorators.isEmpty then generated.decorators
      else existing.decorators }

/-- Whether a generated item is the same one as an existing item. -/
def sameSlot : StubItem → StubItem → Bool
  | .ofFunction a, .ofFunction b => a.name == b.name && a.role? == b.role?
  | .ofFunction a, generated => a.role?.isNone && generated.name? == some a.name
  | existing, generated => existing.name?.isSome && existing.name? == generated.name?

/-- A list with the first element that satisfies `p` changed by `f`, or with `new` at its end if there
is none. -/
def changeFirst {α : Type} (p : α → Bool) (f : α → α) (new : α) : List α → List α
  | [] => [new]
  | x :: xs => if p x then f x :: xs else x :: changeFirst p f new xs

mutual
/-- An item with what a generated one adds to it. -/
def mergeInto : (generated existing : StubItem) → StubItem
  | .ofClass _ members, .ofClass head items => .ofClass head (mergeAll members items)
  | .ofFunction g, .ofFunction f => .ofFunction (f.merge g)
  | _, existing => existing

/-- Items with generated ones, one after the other. -/
def mergeAll : (generated items : List StubItem) → List StubItem
  | [], items => items
  | g :: more, items => mergeAll more (changeFirst (sameSlot · g) (mergeInto g) g items)
end

/-- Items with a generated one. -/
def mergeItem (items : List StubItem) (generated : StubItem) : List StubItem :=
  changeFirst (sameSlot · generated) (mergeInto generated) generated items

end TypedStubs
