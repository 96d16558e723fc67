import TypedStubs.Hint.Basic
import TypedStubs.Source.Basic

/-! # Parameters of a stub

A parameter of a stub has a hint and a default where they are known, and its written form says so.  It
may have been recovered from documentation.
-/
namespace TypedStubs

open Syntax (ParamKind)

/-- A parameter in the signature of a stub. -/
structure StubParameter where
  /-- Name without stars; a marker has none. -/
  name : String
  /-- What the slot is for. -/
  kind : ParamKind
  /-- Its hint. -/
  hint : Option Hint
  /-- What stands for its default. -/
  default : Option String
  /-- Whether it was recovered from documentation. -/
  isRecovered : Bool
  deriving DecidableEq

namespace StubParameter

/-- A marker. -/
def marker (kind : ParamKind) : StubParameter := ⟨"", kind, none, none, false⟩

/-- A name with its hint and its default. -/
def annotated (name : String) (hint : Option Hint) (default : Option String) : String :=
  match hint, default with
  | some hint, some default => name ++ ": " ++ hint.render ++ " = " ++ default
  | some hint, none => name ++ ": " ++ hint.render
  | none, some default => name ++ "=" ++ default
  | none, none => name

/-- The written form with another hint. -/
def renderWith (p : StubParameter) (hint : Option Hint) : String :=
  match p.kind with
  | .positionalOnlyMarker => "/"
  | .keywordOnlyMarker => "*"
  | .varPositional => annotated ("*" ++ p.name) hint p.default
  | .varKeyword => annotated ("**" ++ p.name) hint p.default
  | .positional => annotated p.name hint p.default

/-- The written form. -/
def render (p : StubParameter) : String := p.renderWith p.hint

end StubParameter
end TypedStubs
