/-! # JSON values

The values that are printed: numbers are counts, and objects keep their entries in order.
-/
namespace TypedStubs

/-- A JSON value. -/
inductive Json where
  /-- The empty value. -/
  | null
  /-- A truth value. -/
  | bool (value : Bool)
  /-- A count. -/
  | count (n : Nat)
  /-- A text. -/
  | text (value : String)
  /-- A list of values. -/
  | array (items : List Json)
  /-- Values with keys, in order. -/
  | object (entries : List (String × Json))
  deriving Inhabited

namespace Json

/-- A text or the empty value. -/
def ofOption : Option String → Json
  | some s => .text s
  | none => .null

/-- A list of texts. -/
def ofStrings (texts : List String) : Json := .array (texts.map .text)

end Json
end TypedStubs
