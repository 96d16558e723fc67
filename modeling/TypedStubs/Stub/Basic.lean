import TypedStubs.Import.Basic
import TypedStubs.Syntax.Tree

/-! # Stubs

A stub has imports and items.  An item is an attribute, a class with items of its own, a function, or
text that is carried along as it is.  The items of a stub keep the wording of what they were read
from.
-/
namespace TypedStubs

open Syntax (ParamKind)

/-- An attribute of a stub. -/
structure StubAttribute where
  /-- Name. -/
  name : String
  /-- Text of its hint. -/
  hintText : Option String
  /-- Text of its value. -/
  value : Option String
  deriving DecidableEq

/-- A parameter as it is written. -/
structure ParamText where
  /-- Name without stars; a marker has none. -/
  name : String
  /-- What the slot is for. -/
  kind : ParamKind
  /-- The whole parameter. -/
  text : String
  deriving DecidableEq

namespace ParamText

/-- A star that stands alone. -/
def star : ParamText := ⟨"", .keywordOnlyMarker, "*"⟩

/-- Whether an equals sign stands in the text outside brackets and quotation marks: `depth` counts the
brackets that are open, and `mark` is the quotation mark that is. -/
def equalsOutside (depth : Nat) (mark : Option Char) : List Char → Bool
  | [] => false
  | c :: rest =>
    match mark with
    | some m => equalsOutside depth (if c = m then none else mark) rest
    | none =>
      if c = '\'' ∨ c = '"' then equalsOutside depth (some c) rest
      else if c = '(' ∨ c = '[' ∨ c = '\x7b' then equalsOutside (depth + 1) none rest
      else if c = ')' ∨ c = ']' ∨ c = '\x7d' then equalsOutside (depth - 1) none rest
      else if c = '=' ∧ depth = 0 then true
      else equalsOutside depth none rest

/-- Whether a parameter has a default. -/
def hasDefault (p : ParamText) : Bool := equalsOutside 0 none p.text.toList

end ParamText

/-- A function of a stub. -/
structure StubFunction where
  /-- Name. -/
  name : String
  /-- Its decorators, without the sign before them. -/
  decorators : List String
  /-- Whether it is asynchronous. -/
  isAsync : Bool
  /-- Its parameters. -/
  params : List ParamText
  /-- What stands between its parameters. -/
  separator : String
  /-- Text of what it returns. -/
  returns : Option String
  deriving DecidableEq

namespace StubFunction

/-- The first parameter with a given name. -/
def param? (f : StubFunction) (name : String) : Option ParamText :=
  if name.isEmpty then none else f.params.find? (·.name == name)

/-- The roles that methods of one name can have for a property. -/
def roles : List String := ["setter", "getter", "deleter"]

/-- The role that a decorator gives a function for the property of its name. -/
def role? (f : StubFunction) : Option String :=
  f.decorators.findSome? fun d => (Text.after? (f.name ++ ".") d).filter roles.contains

end StubFunction

/-- What stands before the items of a class. -/
structure StubClass where
  /-- Name. -/
  name : String
  /-- Its decorators, without the sign before them. -/
  decorators : List String
  /-- Its base classes and named arguments. -/
  bases : List String
  deriving DecidableEq

/-- An item of a stub or of a class in it. -/
inductive StubItem where
  /-- An attribute. -/
  | ofAttribute (a : StubAttribute)
  /-- A class with its items. -/
  | ofClass (head : StubClass) (items : List StubItem)
  /-- A function. -/
  | ofFunction (f : StubFunction)
  /-- Text that is carried along. -/
  | verbatim (text : String)
  deriving Inhabited

/-- The name that an item binds. -/
def StubItem.name? : StubItem → Option String
  | .ofAttribute a => some a.name
  | .ofClass head _ => some head.name
  | .ofFunction f => some f.name
  | .verbatim _ => none

/-- Whether an item is a class. -/
def StubItem.isClass : StubItem → Bool
  | .ofClass _ _ => true
  | _ => false

/-- A stub. -/
structure Stub where
  /-- Its imports, in order. -/
  imports : List Import
  /-- Its items, in order. -/
  items : List StubItem
  deriving Inhabited

namespace Stub

/-- A stub without anything in it. -/
def empty : Stub := ⟨[], []⟩

/-- The first item that binds a name. -/
def item? (stub : Stub) (name : String) : Option StubItem :=
  stub.items.find? (·.name? == some name)

end Stub
end TypedStubs
