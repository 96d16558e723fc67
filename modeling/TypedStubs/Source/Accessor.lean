import TypedStubs.Hint.Parser
import TypedStubs.Settings.Basic
import TypedStubs.Source.Basic

/-! # Types read off accessors

A class tells the type of a value by the method that gets it: the method is named for the value behind
a fixed start, and takes nothing but its receiver.  What it is annotated to return counts first; the
type of the literals it returns counts otherwise, unless that is the type of the empty value.
-/
namespace TypedStubs.SourceClass

/-- The accessor of a value. -/
def accessor? (s : Settings) (name : String) (c : SourceClass) : Option SourceFunction :=
  (c.method? (s.getterPrefix ++ name)).filter fun f =>
    (f.params.filter (·.kind != .positionalOnlyMarker)).length == 1

/-- The type of a value, as its accessor tells. -/
def accessorType? (s : Settings) (name : String) (c : SourceClass) : Option Hint := do
  let f ← c.accessor? s name
  let returned := f.returnText.bind fun text => (Hint.parse text).toOption
  returned <|> f.inferredReturn.filter (!·.isNone)

end TypedStubs.SourceClass
