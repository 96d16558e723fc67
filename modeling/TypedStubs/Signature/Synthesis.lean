import TypedStubs.Signature.Documented

/-! # Signatures of stubs

The signature of a stub has the parameters that the function declares and those that it documents.
The latter are given by name only: they stand before the catch-all for named arguments, and after a
star, which is added when there is none.
-/
namespace TypedStubs.Signature

/-- Whether a parameter makes those after it ones that are given by name only. -/
def isStar (kind : Syntax.ParamKind) : Bool :=
  kind == .varPositional || kind == .keywordOnlyMarker

/-- Parameters with further ones that are given by name only. -/
def insertNamed (params further : List StubParameter) : List StubParameter :=
  if further.isEmpty then params
  else
    let before := params.takeWhile (·.kind != .varKeyword)
    let star := if before.any (isStar ·.kind) then [] else [.marker .keywordOnlyMarker]
    before ++ star ++ further ++ params.dropWhile (·.kind != .varKeyword)

/-- The stub parameters of a function, as a method of `owner` if there is one. -/
def synthesize (s : Settings) (index : SourceIndex) (f : SourceFunction)
    (owner : Option SourceClass) : Except Hint.Problem (List StubParameter) := do
  let own ← ownParams s index f owner
  let documented := documentedParams s index f
  return insertNamed own (documented.filter fun p => !f.params.any (·.name == p.name))

end TypedStubs.Signature
