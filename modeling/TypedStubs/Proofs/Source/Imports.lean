import TypedStubs.Proofs.Import.Absolute
import TypedStubs.Proofs.Import.Reading
import TypedStubs.Proofs.Import.Stated
import TypedStubs.Proofs.Text.Cut
import TypedStubs.Path
import TypedStubs.Source.Reader

/-! # The imports of a module, written elsewhere

An import that a module states goes into a stub with its source made absolute.  It binds the same name
there and starts with no dot.  It is read back from its line unless the dots of its source lead out of all
packages and no name stands right behind them (`SourceModule.absolutized_reads_back_iff`): then nothing is
left of the source, or a blank in front of it.
-/
namespace TypedStubs

open Syntax (IsStated)
open Text (IsTrimmed Spaced)

/-! ## Imports that are read -/

theorem subset_splitDocstring (body : List Syntax.Stmt) : (splitDocstring body).2 ⊆ body := by
  have hfilter : body.filter (!·.isComment) ⊆ body := List.filter_subset_self _
  rw [splitDocstring]
  split
  · exact List.nil_subset body
  · next first rest heq =>
    rw [heq] at hfilter
    split
    · exact List.Subset.trans (List.subset_cons_self first rest) hfilter
    · exact hfilter

/-! ## Sources made absolute -/

namespace Import

variable {package source : String} {i : Import}

/-- Whether nothing is left of a source that is counted from `package`, or a blank in front of what is:
its dots lead out of all packages, and no name stands right behind them. -/
def IsStranded (package source : String) : Prop :=
  (packages package).length < leadingDots source ∧
    ∀ c ∈ (behindDots source).toList.head?, Text.isBlank c = true

instance (package source : String) : Decidable (IsStranded package source) :=
  decidable_of_iff ((packages package).length < leadingDots source ∧
    (behindDots source).toList.head?.all Text.isBlank = true) (by rw [Option.all_eq_true]; rfl)

/-- What stands behind the dots of a source ends as the source does. -/
theorem getLast?_behindDots (h : IsListed source.toList) :
    ∀ c ∈ (behindDots source).toList.getLast?, isNameChar c = true := by
  intro c hc
  refine h.back c ?_
  rw [replicate_behindDots source, List.getLast?_append, hc]
  rfl

/-- **A source made absolute is trimmed and not empty** unless it is stranded. -/
theorem isTrimmed_absolutePath_iff (hpackage : ∀ c ∈ package.toList, isNameChar c = true)
    (hsource : IsListed source.toList) :
    absolutePath package source ≠ "" ∧ IsTrimmed (absolutePath package source).toList ↔
      ¬ IsStranded package source := by
  by_cases hdots : leadingDots source = 0
  · have hne : source ≠ "" := fun hempty => hsource.ne_nil (by simp [hempty])
    simp [absolutePath_eq, IsStranded, hdots, hne, hsource.isTrimmed]
  · obtain ⟨front, heq, hchars, -, hfront⟩ := absolutePath_of_relative package hdots
    have hback : ∀ c ∈ (behindDots source).toList.getLast?, Text.isBlank c = false := fun c hc =>
      isBlank_of_isNameChar (getLast?_behindDots hsource c hc)
    rw [heq, IsStranded, ← hfront]
    by_cases hempty : front = ""
    · -- what stands behind the dots is all there is
      rw [hempty, String.empty_append, and_iff_right rfl, ← Text.isTrimmed_iff_of_back hback]
      simp
    · have hfronts : ∀ c ∈ front.toList, Text.isBlank c = false := fun c hc =>
        isBlank_of_isNameChar ((hchars c hc).elim (fun hdot => hdot ▸ by decide) (hpackage c))
      have htrimmed := Text.isTrimmed_append (mt String.toList_eq_nil_iff.1 hempty) hfronts hback
      rw [String.toList_append]
      simp [hempty, htrimmed]

/-- No word stands behind a space for the packages in front of a source. -/
theorem spaced_absolutePath (hpackage : ∀ c ∈ package.toList, isNameChar c = true) (w : List Char) :
    Spaced w (absolutePath package source).toList ↔ Spaced w source.toList := by
  by_cases hdots : leadingDots source = 0
  · rw [absolutePath_eq, if_pos hdots]
  · obtain ⟨front, heq, hchars, -, -⟩ := absolutePath_of_relative package hdots
    have hspace : ' ' ∉ front.toList := fun hmem => by
      rcases hchars ' ' hmem with hdot | hmem
      · cases hdot
      · have := hpackage ' ' hmem
        revert this
        decide
    rw [heq, replicate_behindDots source, String.toList_append, Text.spaced_append hspace,
      Text.spaced_append (by simp)]

/-- What a legal source adds to what its imports are spelled of: a keyword is no name, so none stands
behind a space in a path, and a member has no dots in its name. -/
def KeepsKeywords : Import → Prop
  | .module path _ => ¬ Spaced "as".toList path.toList
  | .member source name _ => ¬ Spaced "import".toList source.toList ∧ '.' ∉ name.toList ∧ name ≠ "as"
  | .star source => ¬ Spaced "import".toList source.toList

instance : DecidablePred KeepsKeywords
  | .module path _ => inferInstanceAs (Decidable (¬ Spaced "as".toList path.toList))
  | .member source name _ => inferInstanceAs
    (Decidable (¬ Spaced "import".toList source.toList ∧ '.' ∉ name.toList ∧ name ≠ "as"))
  | .star source => inferInstanceAs (Decidable (¬ Spaced "import".toList source.toList))

/-- The source of an import, whatever kind of import it is. -/
theorem IsSpelled.source_listed (h : i.IsSpelled) : IsListed i.source.toList := by
  cases i with
  | module path asName => exact h.1
  | member source name asName => exact h.1
  | star source => exact h

theorem IsSpelled.source_absolutize (h : i.IsSpelled) (package : String) :
    (i.absolutize package).source = absolutePath package i.source := by
  cases i with
  | module path asName => exact (absolutePath_of_head? h.2.1 package).symm
  | member source name asName => rfl
  | star source => rfl

theorem legible_absolutize (hspelled : i.IsSpelled) (hkeywords : i.KeepsKeywords)
    (hpackage : ∀ c ∈ package.toList, isNameChar c = true)
    (htrimmed : IsTrimmed (absolutePath package i.source).toList) : (i.absolutize package).Legible := by
  cases i with
  | module path asName =>
    obtain ⟨hlisted, -, hcomma, ha⟩ := hspelled
    have hne : path ≠ "" := fun hempty => hlisted.ne_nil (by simp [hempty])
    exact ⟨hne, ⟨hlisted.isTrimmed, hkeywords⟩, hcomma, ha⟩
  | member source name asName =>
    obtain ⟨-, hname, ha⟩ := hspelled
    obtain ⟨hsource, hdots, has⟩ := hkeywords
    exact ⟨⟨htrimmed, mt (spaced_absolutePath hpackage _).1 hsource⟩, hname hdots, has, ha⟩
  | star source => exact ⟨htrimmed, mt (spaced_absolutePath hpackage _).1 hkeywords⟩

/-- An import that is spelled of words and dots is read back from its line where its source is absolute,
unless that is stranded. -/
theorem readLine_absolutize_iff (hspelled : i.IsSpelled) (hkeywords : i.KeepsKeywords)
    (hpackage : ∀ c ∈ package.toList, isNameChar c = true) :
    (i.absolutize package).source ≠ "" ∧
        readLine (i.absolutize package).render = .ok [i.absolutize package] ↔
      ¬ IsStranded package i.source := by
  rw [← isTrimmed_absolutePath_iff hpackage hspelled.source_listed, ← hspelled.source_absolutize]
  refine and_congr_right fun _ => ⟨fun hread => ?_, fun htrimmed => ?_⟩
  · exact isTrimmed_of_readLine hread _ List.mem_cons_self
  · rw [hspelled.source_absolutize] at htrimmed
    exact readLine_render (legible_absolutize hspelled hkeywords hpackage htrimmed)

end Import

namespace SourceModule

variable {name path source : String} {isPackage : Bool} {i : Import} {m : SourceModule}

theorem subset_package (m : SourceModule) : m.package.toList ⊆ m.name.toList := by
  rw [package]
  split
  · exact List.Subset.refl _
  · cases howner : Dotted.owner? m.name with
    | none => simp
    | some owner =>
      obtain ⟨⟨before, after⟩, hcut, rfl⟩ := Option.map_eq_some_iff.1 howner
      have hname := (Text.cutLast_eq_some hcut).1
      rw [hname]
      exact List.subset_append_left _ _

/-- The name of a module that a file holds is made of words. -/
theorem exists_words_of_ofPath? {rootPackage : Option String} {found : ModuleName}
    (h : ModuleName.ofPath? rootPackage path = some found) :
    ∃ words, (∀ w ∈ words, Text.isWord w = true) ∧ found.name = Text.join "." words := by
  obtain ⟨file, -, h⟩ := Option.bind_eq_some_iff.1 h
  obtain ⟨directories, -, h⟩ := Option.bind_eq_some_iff.1 h
  simp only [Option.ite_none_right_eq_some, Bool.and_eq_true, List.all_eq_true] at h
  obtain ⟨⟨-, hwords⟩, heq⟩ := h
  exact ⟨_, hwords, congrArg ModuleName.name (Option.some.inj heq).symm⟩

/-- So imports can be counted from the module of any file. -/
theorem isNameChar_of_ofPath? {rootPackage : Option String} {found : ModuleName}
    (h : ModuleName.ofPath? rootPackage path = some found) :
    ∀ c ∈ found.name.toList, Import.isNameChar c = true := by
  obtain ⟨words, hwords, heq⟩ := exists_words_of_ofPath? h
  rw [heq]
  exact Import.isNameChar_join hwords

@[simp] theorem name_read (name path : String) (isPackage : Bool) (source : String) :
    (read name path isPackage source).name = name := rfl

theorem package_read (name path : String) (isPackage : Bool) (source : String) :
    (read name path isPackage source).package =
      if isPackage then name else (Dotted.owner? name).getD "" := rfl

theorem imports_read (name path : String) (isPackage : Bool) (source : String) :
    (read name path isPackage source).imports =
      (splitDocstring ((Syntax.parse? source).getD [])).2.flatMap Syntax.Stmt.imports := by
  rw [read, moduleOf]
  refine List.flatMap_congr fun s _ => ?_
  cases s <;> rfl

theorem isStated_of_read (h : i ∈ (read name path isPackage source).imports) : IsStated i := by
  rw [imports_read] at h
  obtain ⟨s, hs, hi⟩ := List.mem_flatMap.1 h
  have hbody := subset_splitDocstring _ hs
  cases hparse : Syntax.parse? source with
  | none => simp [hparse] at hbody
  | some body =>
    rw [hparse, Option.getD_some] at hbody
    exact Syntax.isStated_of_parse hparse hbody hi

/-- The module of one line that imports something. -/
theorem imports_of_line (h : i.isReadable = true) :
    (read name path isPackage (i.render ++ "\n")).imports = [i] := by
  obtain ⟨place, hstretch⟩ := Import.stretch_render h
  have hline : i.render ++ "\n" = String.ofList (i.render.toList ++ ['\n']) := by
    simp
  rw [imports_read, hline, hstretch.parse]
  rfl

/-- **Imports made absolute read back.**  Counted from the package of any module, an import that a source
states binds the same name, starts with no dot and stays as it is from then on.  It has a source and is read
back from its line exactly if it is not stranded. -/
theorem absolutized_reads_back_iff (hread : i ∈ (read name path isPackage source).imports)
    (hkeywords : i.KeepsKeywords) (hname : ∀ c ∈ m.name.toList, Import.isNameChar c = true) :
    let absolute := i.absolutize m.package
    absolute.bound? = i.bound? ∧ absolute.source.toList.head? ≠ some '.' ∧
      (∀ package, absolute.absolutize package = absolute) ∧
      (absolute.source ≠ "" ∧ Import.readLine absolute.render = .ok [absolute] ↔
        ¬ Import.IsStranded m.package i.source) := by
  have hspelled := Import.isSpelled_of_isStated (isStated_of_read hread)
  have habsolute := Import.absolutize_isAbsolute m.package i
  refine ⟨Import.bound?_absolutize m.package i, ?_, habsolute.absolutize, ?_⟩
  · rw [hspelled.source_absolutize]
    exact Import.head?_absolutePath m.package i.source
  · exact Import.readLine_absolutize_iff hspelled hkeywords fun c hc => hname c (m.subset_package hc)

/-- A member that stands one package further out. -/
theorem absolutized_reads_back_outward :
    let i : Import := .member "..b" "x" none
    let m := read "a.c.d" "a/c/d.py" false (i.render ++ "\n")
    i ∈ m.imports ∧ i.KeepsKeywords ∧ (∀ c ∈ m.name.toList, Import.isNameChar c = true) ∧
      m.package = "a.c" ∧ i.absolutize "a.c" = .member "a.b" "x" none ∧
      Import.readLine (i.absolutize m.package).render = .ok [i.absolutize m.package] := by
  intro i m
  have hread : i ∈ m.imports := by
    rw [imports_of_line (by decide)]
    exact List.mem_singleton_self i
  have hname : ∀ c ∈ m.name.toList, Import.isNameChar c = true := by
    rw [name_read]
    exact forall_mem_of_all (by decide)
  have hpackage : m.package = "a.c" := by
    rw [package_read]
    decide
  have hnot : ¬ Import.IsStranded m.package i.source := by
    rw [hpackage]
    decide
  have hback := (absolutized_reads_back_iff hread (by decide) hname).2.2.2.2 hnot
  exact ⟨hread, by decide, hname, hpackage, by decide, hback.2⟩

/-- **An import of the top-level package loses its source.**  Its one dot leads out of all packages. -/
theorem top_level_import_stranded :
    let i : Import := .member "." "x" none
    let m := read "n" "n.py" false (i.render ++ "\n")
    i ∈ m.imports ∧ i.KeepsKeywords ∧ m.package = "" ∧ (i.absolutize "").source = "" ∧
      (i.absolutize "").render = "from  import x" := by
  intro i m
  refine ⟨?_, by decide, ?_, by decide, by decide⟩
  · rw [imports_of_line (by decide)]
    exact List.mem_singleton_self i
  · rw [package_read]
    decide

end SourceModule
end TypedStubs
