import TypedStubs.Index.Redirect
import TypedStubs.Signature.Own

/-! # The parameters that a function documents

A function that passes named arguments on to a class says in its docstring which class that is.  The
parameters of the constructor whose types accessors tell are parameters of the function too.
-/
namespace TypedStubs.Signature

open Docstring (Reference)

/-- The class that a docstring names: by its full name when that starts with the root package, and
else by its simple name among the classes with the required start. -/
def referencedClass? (s : Settings) (index : SourceIndex) (r : Reference) : Option SourceClass :=
  let rooted := s.rootPackage.any fun root =>
    r.path == root || (Text.after? (root ++ ".") r.path).isSome
  match if rooted then index.class? r.path else none with
  | some found => some found
  | none =>
    s.matchPolicy.pick ((index.classesNamed r.name).filter fun c =>
      s.classPrefix?.all fun start => (Text.after? start c.qualified).isSome)

/-- The constructor that a class has or inherits. -/
def constructor? (s : Settings) (index : SourceIndex) (c : SourceClass) :
    Option SourceFunction :=
  index.searchUp? s.matchPolicy (·.constructor?) c

/-- The type that the docstring of a function names for its further parameters. -/
def documentedReference? (s : Settings) (index : SourceIndex) (f : SourceFunction) :
    Option Reference := do
  let docstring ← index.effectiveDocstring? s f
  s.hiddenParameterPlaces.findSome? fun place =>
    Docstring.reference? s.marks docstring place.title place.field

/-- The stub parameter for one of a constructor of `c`, if its type is known. -/
def recoveredParam? (s : Settings) (index : SourceIndex) (c : SourceClass) (p : Parameter) :
    Option StubParameter :=
  if p.isMarker || p.isVariadic || s.excludedParameters.contains p.name then none
  else (inheritedType? s index p.name c).map fun hint =>
    ⟨p.name, .positional, some hint, some "...", true⟩

/-- The stub parameters that a function documents. -/
def documentedParams (s : Settings) (index : SourceIndex) (f : SourceFunction) :
    List StubParameter :=
  let found := do
    let c ← referencedClass? s index (← documentedReference? s index f)
    return (c, ← constructor? s index c)
  match found with
  | some (c, init) => (init.params.drop 1).filterMap (recoveredParam? s index c)
  | none => []

end TypedStubs.Signature
