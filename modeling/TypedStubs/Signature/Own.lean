import TypedStubs.Index.Hierarchy
import TypedStubs.Signature.Basic
import TypedStubs.Signature.Default
import TypedStubs.Source.Accessor

/-! # The parameters that a function declares

Each declared parameter goes into the stub unless it is excluded by name.  Its hint is its annotation;
without one, a method's parameter has the type of its value in the class or above it, the receiver
apart.  Markers that exclusion leaves without meaning go too.
-/
namespace TypedStubs.Signature

open Syntax (ParamKind)

/-- The type of a value in a class or above it, as accessors tell. -/
def inheritedType? (s : Settings) (index : SourceIndex) (name : String) (c : SourceClass) :
    Option Hint :=
  index.search? s.matchPolicy (·.accessorType? s name) c

/-- Parameters without the slashes at the front. -/
def dropLeadingSlashes (params : List StubParameter) : List StubParameter :=
  params.dropWhile (·.kind == .positionalOnlyMarker)

/-- Parameters without the stars that nothing but a catch-all for named arguments follows. -/
def dropIdleStars : List StubParameter → List StubParameter
  | [] => []
  | p :: rest =>
    if p.kind == .keywordOnlyMarker && rest.all (·.kind == .varKeyword) then dropIdleStars rest
    else p :: dropIdleStars rest

/-- The hint of a declared parameter; `isFirst` says whether it stands first. -/
def declaredHint (s : Settings) (index : SourceIndex) (owner : Option SourceClass)
    (isFirst : Bool) (p : Parameter) : Except Hint.Problem (Option Hint) :=
  match p.hintText, owner with
  | some text, _ => some <$> Hint.parse text
  | none, none => .ok none
  | none, some c =>
    .ok (if isFirst && s.isReceiver p.name then none else inheritedType? s index p.name c)

/-- The stub parameters for declared ones, the first of which stands first if `isFirst`. -/
def declaredParams (s : Settings) (index : SourceIndex) (owner : Option SourceClass) :
    Bool → List Parameter → Except Hint.Problem (List StubParameter)
  | _, [] => .ok []
  | isFirst, p :: rest =>
    if p.isMarker then do
      return .marker p.kind :: (← declaredParams s index owner false rest)
    else if s.excludedParameters.contains p.name then declaredParams s index owner false rest
    else do
      let hint ← declaredHint s index owner isFirst p
      return ⟨p.name, p.kind, hint, p.default.map stubDefault, false⟩ ::
        (← declaredParams s index owner false rest)

/-- The stub parameters that a function declares, as a method of `owner` if there is one. -/
def ownParams (s : Settings) (index : SourceIndex) (f : SourceFunction)
    (owner : Option SourceClass) : Except Hint.Problem (List StubParameter) := do
  return dropIdleStars (dropLeadingSlashes (← declaredParams s index owner true f.params))

end TypedStubs.Signature
