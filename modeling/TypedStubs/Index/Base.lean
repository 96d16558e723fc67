import TypedStubs.Index.Basic
import TypedStubs.Text.Blank

/-! # The class that a base names

A base class is written in the terms of the module that declares the class: a class of that module, a
name that the module imports, or else any class of that simple name.  Arguments of a generic do not
count, and a named argument is no base.
-/
namespace TypedStubs.SourceIndex

/-- The name of a base without the arguments of a generic. -/
def baseName (base : String) : String :=
  String.ofList (Text.trimChars (base.toList.takeWhile (· != '[')))

/-- The class that the imports of the module `module` lead to from a dotted name. -/
def importedClass? (index : SourceIndex) (module path : String) : Option SourceClass := do
  let (first, rest) := Dotted.uncons path
  let bound ← (← index.module? module).binding? first
  index.class? (Dotted.cons bound.qualified rest)

/-- The class that a base of `owner` names. -/
def base? (index : SourceIndex) (policy : MatchPolicy) (owner : SourceClass) (base : String) :
    Option SourceClass :=
  if base.toList.contains '=' then none
  else
    let path := baseName base
    match index.class? (owner.module ++ "." ++ path) with
    | some found => some found
    | none =>
      match index.importedClass? owner.module path with
      | some found => some found
      | none =>
        policy.pick ((index.classesNamed (Dotted.leaf path)).filter
          (·.qualified != owner.qualified))

/-- The classes that the bases of a class name, in order. -/
def basesOf (index : SourceIndex) (policy : MatchPolicy) (c : SourceClass) : List SourceClass :=
  c.bases.filterMap (index.base? policy c)

theorem importedClass?_mem {index : SourceIndex} {module path : String} {c : SourceClass}
    (h : index.importedClass? module path = some c) : c ∈ index.classes := by
  simp only [importedClass?, Option.bind_eq_bind, Option.bind_eq_some_iff] at h
  obtain ⟨_, _, _, _, hc⟩ := h
  exact class?_mem hc

theorem base?_mem {index : SourceIndex} {policy : MatchPolicy} {owner : SourceClass}
    {base : String} {c : SourceClass} (h : index.base? policy owner base = some c) :
    c ∈ index.classes := by
  simp only [base?] at h
  split at h
  · cases h
  · split at h
    · cases h
      exact class?_mem ‹_›
    · split at h
      · cases h
        exact importedClass?_mem ‹_›
      · exact classesNamed_subset (List.mem_filter.1 (MatchPolicy.pick_mem h)).1

theorem basesOf_mem {index : SourceIndex} {policy : MatchPolicy} {c b : SourceClass}
    (h : b ∈ index.basesOf policy c) : b ∈ index.classes := by
  obtain ⟨_, _, hb⟩ := List.mem_filterMap.1 h
  exact base?_mem hb

theorem length_basesOf_le (index : SourceIndex) (policy : MatchPolicy) (c : SourceClass) :
    (index.basesOf policy c).length ≤ c.bases.length :=
  List.length_filterMap_le _ _

end TypedStubs.SourceIndex
