import TypedStubs.Index.Base
import TypedStubs.Proofs.Import.Absolute
import TypedStubs.Proofs.Stub.Meaning

/-! # Bases that are imported

A base that the module of its class imports is looked for under the qualified name of the import.  That is
what the base means there if the source of the import is absolute and the import is direct
(`SourceIndex.base?_follows_import`).  A relative import, and the import of a dotted module, are looked for
under other names; when nothing has that name, any class of the same simple name is taken
(`SourceIndex.imported_bases_missed`).
-/
namespace TypedStubs

open Dotted (head)

namespace Import

/-- The qualified name of a relative import starts with its first dot. -/
theorem head?_qualified {i : Import} (h : ¬ i.IsAbsolute) (rest : Option String) :
    (Dotted.cons i.qualified rest).toList.head? = some '.' := by
  have hqualified : i.qualified.toList.head? = some '.' := by
    cases i with
    | module path asName => exact absurd trivial h
    | member source name asName =>
      have hsource : source.toList.head? = some '.' := not_not.1 h
      rw [qualified]
      split <;> simp [hsource]
    | star source => exact not_not.1 h
  cases rest <;> simp [Dotted.cons, hqualified]

end Import

/-- What a name means through an absolute and direct import is what the import is the import of. -/
theorem ImportSite.meaning_eq {site : ImportSite} (habsolute : site.stmt.IsAbsolute)
    (hdirect : site.stmt.IsDirect) (dotted : String) :
    site.meaning dotted = Dotted.cons site.stmt.qualified (Dotted.uncons dotted).2 := by
  rw [meaning, habsolute.absolutize, hdirect]

namespace SourceIndex

variable {index : SourceIndex} {owner : SourceClass} {base qualified : String} {site : ImportSite}

theorem qualified_of_class? {c : SourceClass} (h : index.class? qualified = some c) :
    c.qualified = qualified := by
  simpa using List.find?_some h

theorem exists_class?_of_mem {c : SourceClass} (hmem : c ∈ index.classes)
    (hname : c.qualified = qualified) :
    ∃ found, index.class? qualified = some found ∧ found.qualified = qualified := by
  have hsome : (index.class? qualified).isSome = true :=
    List.find?_isSome.2 ⟨c, hmem, by simpa using hname⟩
  obtain ⟨found, hfound⟩ := Option.isSome_iff_exists.1 hsome
  exact ⟨found, hfound, qualified_of_class? hfound⟩

theorem class?_eq_none (h : ∀ c ∈ index.classes, c.qualified ≠ qualified) :
    index.class? qualified = none :=
  List.find?_eq_none.2 fun c hmem => by simpa using h c hmem

/-- Whether a base of a class is read through an import: it is no named argument, the module of the class
has no class of that name, and the import binds the head of the name there. -/
structure ReadsBase (index : SourceIndex) (owner : SourceClass) (base : String)
    (site : ImportSite) : Prop where
  /-- There is no name in front. -/
  unnamed : '=' ∉ base.toList
  /-- The module has no such class. -/
  foreign : index.class? (owner.module ++ "." ++ baseName base) = none
  /-- The import stands in the module. -/
  inModule : index.module? owner.module = some site.module
  /-- It is the import that binds the head. -/
  binds : site.module.binding? (head (baseName base)) = some site.stmt

/-- The class that an import leads to has the qualified name of the import, with the rest behind it. -/
theorem ReadsBase.importedClass? (h : index.ReadsBase owner base site) :
    index.importedClass? owner.module (baseName base) =
      index.class? (Dotted.cons site.stmt.qualified (Dotted.uncons (baseName base)).2) := by
  simp [SourceIndex.importedClass?, h.inModule, h.binds]

/-- The classes of a simple name that a base may stand for if no qualified name is found. -/
def sameLeaf (index : SourceIndex) (owner : SourceClass) (base : String) : List SourceClass :=
  (index.classesNamed (Dotted.leaf (baseName base))).filter (·.qualified != owner.qualified)

theorem ReadsBase.base? (h : index.ReadsBase owner base site) (policy : MatchPolicy) :
    index.base? policy owner base =
      (index.class? (Dotted.cons site.stmt.qualified (Dotted.uncons (baseName base)).2)).or
        (policy.pick (index.sameLeaf owner base)) := by
  have hunnamed : ¬ base.toList.contains '=' = true := by simpa using h.unnamed
  rw [SourceIndex.base?, if_neg hunnamed]
  simp only [h.foreign, h.importedClass?]
  cases index.class? (Dotted.cons site.stmt.qualified (Dotted.uncons (baseName base)).2) <;> rfl

/-- The simple name decides if no class has the qualified name. -/
theorem ReadsBase.base?_eq_pick (h : index.ReadsBase owner base site) (policy : MatchPolicy)
    (hnone : ∀ c ∈ index.classes,
      c.qualified ≠ Dotted.cons site.stmt.qualified (Dotted.uncons (baseName base)).2) :
    index.base? policy owner base = policy.pick (index.sameLeaf owner base) := by
  rw [h.base?, class?_eq_none hnone]
  rfl

/-- **A base follows the import that binds its head.**  If the import is absolute and direct, and a class
has the name that the base means there, the base is a class of that name, whatever other classes share its
simple name.  If no class has the qualified name of the import with the rest behind it, the simple name
decides, and this is so for every relative import where no class has a name that starts with a dot. -/
theorem base?_follows_import (h : index.ReadsBase owner base site) (policy : MatchPolicy) :
    (site.stmt.IsAbsolute → site.stmt.IsDirect →
      ∀ c ∈ index.classes, c.qualified = site.meaning (baseName base) →
        ∃ found ∈ index.classes, index.base? policy owner base = some found ∧
          found.qualified = site.meaning (baseName base)) ∧
    ((∀ c ∈ index.classes,
        c.qualified ≠ Dotted.cons site.stmt.qualified (Dotted.uncons (baseName base)).2) →
      index.base? policy owner base = policy.pick (index.sameLeaf owner base)) ∧
    (¬ site.stmt.IsAbsolute → (∀ c ∈ index.classes, c.qualified.toList.head? ≠ some '.') →
      index.base? policy owner base = policy.pick (index.sameLeaf owner base)) := by
  refine ⟨fun habsolute hdirect c hmem hname => ?_, h.base?_eq_pick policy,
    fun hrelative hdots => h.base?_eq_pick policy fun c hmem hname => hdots c hmem ?_⟩
  · rw [site.meaning_eq habsolute hdirect] at hname ⊢
    obtain ⟨found, hfound, hqualified⟩ := exists_class?_of_mem hmem hname
    exact ⟨found, class?_mem hfound, by rw [h.base?, hfound]; rfl, hqualified⟩
  · -- the name that is looked for starts with a dot
    rw [hname]
    exact Import.head?_qualified hrelative _

/-! ### A package with two classes of one name -/

/-- A class `Base` of a module. -/
def baseIn (module : String) : SourceClass :=
  ⟨"Base", module ++ ".Base", module, [], none, [], [], [], []⟩

/-- A class with a base. -/
def plot (base : String) : SourceClass :=
  ⟨"Plot", "pkg.c.Plot", "pkg.c", [], none, [base], [], [], []⟩

/-- The import of a module that declares the class. -/
def plotSite (stmt : Import) (base : String) : ImportSite :=
  ⟨⟨"pkg.c", "pkg/c.py", false, none, [stmt], [.ofClass (plot base)]⟩, stmt⟩

/-- A package with two classes `Base`, and a third module. -/
def siblings (site : ImportSite) : SourceIndex :=
  ⟨[⟨"pkg.a", "pkg/a.py", false, none, [], [.ofClass (baseIn "pkg.a")]⟩,
    ⟨"pkg.b", "pkg/b.py", false, none, [], [.ofClass (baseIn "pkg.b")]⟩, site.module]⟩

theorem base?_follows_import_aliased :
    let site := plotSite (.module "pkg.b" (some "b")) "b.Base[T]"
    (siblings site).ReadsBase (plot "b.Base[T]") "b.Base[T]" site ∧ site.stmt.IsAbsolute ∧
      site.stmt.IsDirect ∧ baseIn "pkg.b" ∈ (siblings site).classes ∧
      ∃ found, (siblings site).base? .unique (plot "b.Base[T]") "b.Base[T]" = some found ∧
        found.qualified = "pkg.b.Base" := by
  intro site
  have hreads : (siblings site).ReadsBase (plot "b.Base[T]") "b.Base[T]" site :=
    ⟨by decide, by decide +kernel, by decide +kernel, by decide +kernel⟩
  have hmem : baseIn "pkg.b" ∈ (siblings site).classes := by decide +kernel
  have hmeaning : site.meaning (baseName "b.Base[T]") = "pkg.b.Base" := by decide +kernel
  have hall := (base?_follows_import hreads .unique).1 trivial rfl _ hmem (hmeaning ▸ rfl)
  obtain ⟨found, -, hfound, hqualified⟩ := hall
  exact ⟨hreads, trivial, rfl, hmem, found, hfound, hqualified.trans hmeaning⟩

/-- Whether a base means the class of `pkg.b`, which is indexed, through an import of `pkg.c`. -/
def MeansSecond (stmt : Import) (base : String) : Prop :=
  let site := plotSite stmt base
  site.module.binding? (head (baseName base)) = some stmt ∧
    (siblings site).class? ("pkg.c." ++ baseName base) = none ∧
    (siblings site).class? (site.meaning (baseName base)) = some (baseIn "pkg.b")

instance (stmt : Import) (base : String) : Decidable (MeansSecond stmt base) :=
  inferInstanceAs (Decidable (_ ∧ _ ∧ _))

/-- What the index answers for a base of `pkg.c`. -/
def plotBase? (stmt : Import) (base : String) : Option SourceClass :=
  (siblings (plotSite stmt base)).base? .first (plot base) base

/-- Bases that are not found where they mean a class: one is imported from a relative source, one is read
through the import of a dotted module, and one has an argument with an equals sign in it. -/
theorem imported_bases_missed :
    let relative : Import := .member ".b" "Base" none
    let dotted : Import := .module "pkg.b" none
    let member : Import := .member "pkg.b" "Base" none
    (MeansSecond relative "Base" ∧ plotBase? relative "Base" = some (baseIn "pkg.a")) ∧
    (MeansSecond dotted "pkg.b.Base" ∧ plotBase? dotted "pkg.b.Base" = some (baseIn "pkg.a")) ∧
    MeansSecond member "Base[\"k=v\"]" ∧ plotBase? member "Base[\"k=v\"]" = none := by
  decide +kernel

end SourceIndex
end TypedStubs
