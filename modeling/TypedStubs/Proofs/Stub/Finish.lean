import TypedStubs.Proofs.Stub.Scope
import TypedStubs.Proofs.Text.Pieces

/-! # The imports of a finished stub

The imports of a stub are taken from those it had, those of its module, and those that were added
(`Scope.candidates`).  Of the imports that bind one mentioned name the first stays, so an import that may
go stays exactly if it is this first one (`Scope.mem_finish_iff`).  Imports of several modules in one
package bind the name of the package alike, and all but the first of them are lost
(`Scope.submodule_import_survives_iff`).

A stub that is finished once more, on top of its finished imports, gets the star imports among the added
ones a second time, and nothing else (`Scope.finish_onto_finished`).
-/
namespace TypedStubs.Scope

open Dotted (head)

variable {scope : Scope} {added : List Import} {used : List String} {body name path : String}

/-! ## What stays -/

theorem mem_withCopied {present : List Import} {i : Import} (h : i ∈ present) (imports : List Import) :
    i ∈ withCopied used present imports := by
  induction imports generalizing present with
  | nil => exact h
  | cons j rest ih =>
    rw [withCopied]
    refine ih ?_
    split
    · exact List.mem_append_left _ h
    · exact h

/-- When all are copied, a star import of the module or one that turns on a feature is there. -/
theorem mem_withCopied_of_mem {present imports : List Import} {i : Import} (hi : i ∈ imports)
    (hkind : i.bound? = none ∨ i.isFuture = true) : i ∈ withCopied used present imports := by
  induction imports generalizing present with
  | nil => cases hi
  | cons j rest ih =>
    rw [withCopied]
    rcases List.mem_cons.1 hi with rfl | hi
    · refine mem_withCopied ?_ rest
      split
      · exact List.mem_append_right _ (List.mem_singleton_self i)
      · next hcopied =>
        cases hname : i.bound? with
        | none => simpa [isCopied, hname] using hcopied
        | some name =>
          have hfuture := hkind.resolve_left (by simp [hname])
          simpa [isCopied, hname, hfuture] using hcopied
    · exact ih hi

/-- **An import that may go stays exactly if it is the first to bind a mentioned name.** -/
theorem mem_finish_iff {i : Import} (hplain : i.isPlain = true) :
    i ∈ scope.finish added body ↔ ∃ name ∈ Import.mentioned body, i.bound? = some name ∧
      (scope.candidates added).find? (·.bound? == some name) = some i := by
  constructor
  · intro hi
    obtain ⟨name, hused, hname, -⟩ := Import.bound?_of_mem_keepNeeded hplain hi
    exact ⟨name, hused, hname, find?_finish hused ▸ Import.find?_of_mem_keepNeeded hplain hname hi⟩
  · rintro ⟨name, hused, -, hfirst⟩
    exact List.mem_of_find?_eq_some ((find?_finish hused).trans hfirst)

/-- An import that turns on a feature stays. -/
theorem mem_finish_of_isFuture {i : Import} (hi : i ∈ scope.existing ++ scope.module.imports)
    (hfuture : i.isFuture = true) : i ∈ scope.finish added body := by
  have hplain : i.isPlain = false := by simp [Import.isPlain, Import.isRequired, hfuture]
  rw [finish, Import.mem_needed_iff hplain]
  refine List.mem_append_left _ ?_
  rcases List.mem_append.1 hi with hi | hi
  · exact mem_withCopied ((Import.mem_needed_iff hplain _).2 hi) _
  · exact mem_withCopied_of_mem hi (.inr hfuture)

theorem mem_of_mem_withCopied {present imports : List Import} {i : Import}
    (h : i ∈ withCopied used present imports) : i ∈ present ++ imports := by
  induction imports generalizing present with
  | nil => simpa [withCopied] using h
  | cons j rest ih =>
    rw [withCopied] at h
    have hmem := ih h
    split at hmem
    · simpa using hmem
    · exact (List.sublist_cons_self j rest).append_left present |>.mem hmem

/-- No import is made up. -/
theorem mem_candidates {i : Import} (hi : i ∈ scope.finish added body) : i ∈ scope.candidates added := by
  have hneeded {imports : List Import} (h : i ∈ Import.needed (Import.mentioned body) imports) :
      i ∈ imports := (Import.keepNeeded_sublist _ [] [] imports).mem h
  rcases List.mem_append.1 (hneeded hi) with hi | hi
  · rcases List.mem_append.1 (mem_of_mem_withCopied hi) with hi | hi
    · exact List.mem_append_left _ (List.mem_append_left _ (hneeded hi))
    · exact List.mem_append_left _ (List.mem_append_right _ hi)
  · exact List.mem_append_right _ (hneeded hi)

/-! ## Imports of submodules -/

/-- Whether a body refers to something inside the module that `path` leads to: a dotted name in it starts
with `path` and a dot. -/
def RefersInto (body path : String) : Prop :=
  ∃ before after, body.toList = before ++ (path.toList ++ '.' :: after) ∧
    ∀ c ∈ before.getLast?, Text.continuesWord c = false ∧ c ≠ '.'

/-- A word with nothing around it that goes on with it is mentioned. -/
theorem mem_mentioned {word before after : List Char} (hword : Text.isWordChars word = true)
    (hbefore : ∀ c ∈ before.getLast?, Text.continuesWord c = false)
    (hafter : ∀ c ∈ after.head?, Text.continuesWord c = false)
    (hbody : body.toList = before ++ (word ++ after)) : String.ofList word ∈ Import.mentioned body := by
  obtain ⟨c, cs, rfl⟩ : ∃ c cs, word = c :: cs := by
    cases word with
    | nil => cases hword
    | cons c cs => exact ⟨c, cs, rfl⟩
  simp only [Text.isWordChars, Bool.and_eq_true] at hword
  have hpiece : c :: cs ∈ Text.splitWhere (fun c => !Text.continuesWord c) body.toList := by
    rw [hbody]
    refine Text.mem_splitWhere (fun d hd => ?_) (fun d hd => ?_) (fun d hd => ?_)
    · simp [List.all_eq_true.1 hword.2 d hd]
    · simp [hbefore d hd]
    · simp [hafter d hd]
  rw [Import.mentioned, (Import.sortedOnce_spec _).2]
  exact List.mem_map_of_mem (List.mem_filter.2 ⟨hpiece, hword.1⟩)

/-- A body that refers to something inside a module mentions the name that an import of it binds. -/
theorem RefersInto.head_mem (h : RefersInto body path) (hword : Text.isWord (head path) = true) :
    head path ∈ Import.mentioned body := by
  obtain ⟨before, after, hbody, hbefore⟩ := h
  rw [Text.isWord, head, String.toList_ofList] at hword
  rw [← List.takeWhile_append_dropWhile (p := (· != '.')) (l := path.toList), List.append_assoc] at hbody
  refine mem_mentioned hword (fun c hc => (hbefore c hc).1) (fun c hc => ?_) hbody
  -- the head of a path ends at a dot, in the path or behind it
  obtain rfl : c = '.' := by
    cases hdrop : path.toList.dropWhile (· != '.') with
    | nil => simpa [hdrop, eq_comm] using hc
    | cons d rest =>
      have hd : d = '.' := by simpa [hdrop] using List.head?_dropWhile_not (· != '.') path.toList
      simpa [hdrop, hd, eq_comm] using hc
  decide

/-- **An import of a module stays only if it is the first to bind the name of its package.**  What
binds the top-level name of `path` first is there when the stub is finished.  An import of the module
without an alias, be it one the stub had or one of its module, is there exactly if it is that first one,
or if it turns on a feature; when another module of the package is imported before it, it is lost,
although the body refers to something inside it. -/
theorem submodule_import_survives_iff (scope : Scope) (added : List Import) {body path : String}
    (hword : Text.isWord (head path) = true) (hrefers : RefersInto body path)
    (hthere : Import.module path none ∈ scope.existing ++ scope.module.imports) :
    (∃ first ∈ scope.finish added body,
      (scope.candidates added).find? (·.bound? == some (head path)) = some first) ∧
    (Import.module path none ∈ scope.finish added body ↔ path = "__future__" ∨
      (scope.candidates added).find? (·.bound? == some (head path)) = some (.module path none)) := by
  have hused := hrefers.head_mem hword
  have hname : (Import.module path none).bound? = some (head path) := rfl
  have hbinds : Import.Binds (scope.candidates added) (head path) :=
    ⟨_, List.mem_append_left _ hthere, hname⟩
  obtain ⟨first, hfirst⟩ := Option.isSome_iff_exists.1 (Import.binds_iff_find?.1 hbinds)
  refine ⟨⟨first, List.mem_of_find?_eq_some ((find?_finish hused).trans hfirst), hfirst⟩, ?_⟩
  by_cases hfuture : path = "__future__"
  · subst hfuture
    exact iff_of_true (mem_finish_of_isFuture hthere rfl) (.inl rfl)
  · have hplain : (Import.module path none).isPlain = true := by
      simp [Import.isPlain, Import.isStar, Import.isRequired, Import.isFuture, Import.source,
        Import.isReexport, hfuture]
    rw [mem_finish_iff hplain, hname]
    constructor
    · rintro ⟨name, -, hhead, hfind⟩
      obtain rfl := Option.some.inj hhead
      exact .inr hfind
    · intro h
      exact ⟨head path, hused, rfl, h.resolve_left hfuture⟩

/-- A module that imports two modules of one package. -/
def siblings : Scope where
  settings := .standard
  index := ⟨[]⟩
  module := ⟨"m", "m.py", false, none, [.module "pkg.lines" none, .module "pkg.colors" none], []⟩
  existing := []
  existingNames := []

/-- A stub that refers to something in both of them. -/
def siblingsBody : String := "x: pkg.lines.Line\ny: pkg.colors.Color"

theorem siblingsBody_lines : RefersInto siblingsBody "pkg.lines" :=
  ⟨"x: ".toList, "Line\ny: pkg.colors.Color".toList, by decide, forall_mem_of_option_all (by decide)⟩

theorem siblingsBody_colors : RefersInto siblingsBody "pkg.colors" :=
  ⟨"x: pkg.lines.Line\ny: ".toList, "Color".toList, by decide, forall_mem_of_option_all (by decide)⟩

theorem submodule_import_survives_siblings :
    Text.isWord (head "pkg.lines") = true ∧ RefersInto siblingsBody "pkg.lines" ∧
      Import.module "pkg.lines" none ∈ siblings.existing ++ siblings.module.imports ∧
      Import.module "pkg.lines" none ∈ siblings.finish [] siblingsBody := by
  have hword : Text.isWord (head "pkg.lines") = true := by decide
  have hthere : Import.module "pkg.lines" none ∈ siblings.existing ++ siblings.module.imports := by
    decide
  have hiff := (submodule_import_survives_iff siblings [] hword siblingsBody_lines hthere).2
  exact ⟨hword, siblingsBody_lines, hthere, hiff.2 (.inr (by decide +kernel))⟩

/-- An import of a module that the body refers into is lost. -/
theorem sibling_import_lost :
    Import.module "pkg.colors" none ∈ siblings.module.imports ∧ RefersInto siblingsBody "pkg.colors" ∧
      ∀ i ∈ siblings.finish [] siblingsBody, i.source ≠ "pkg.colors" := by
  refine ⟨by decide, siblingsBody_colors, fun i hi hsource => ?_⟩
  have hcandidates : siblings.candidates [] = [.module "pkg.lines" none, .module "pkg.colors" none] := by
    decide +kernel
  have hmem := mem_candidates hi
  rw [hcandidates] at hmem
  obtain rfl : i = .module "pkg.colors" none := by
    simp only [List.mem_cons, List.not_mem_nil, or_false] at hmem
    rcases hmem with rfl | rfl
    · exact absurd hsource (by decide)
    · rfl
  -- the other import of the package is the first that binds its name
  obtain ⟨name, -, hname, hfirst⟩ := (mem_finish_iff (by decide)).1 hi
  obtain rfl : name = "pkg" := (Option.some.inj hname).symm.trans (by decide)
  rw [hcandidates] at hfirst
  exact absurd hfirst (by decide)

/-! ## Finishing once more -/

/-- Nothing is copied of imports that are present already. -/
theorem withCopied_eq_self {present imports : List Import}
    (h : ∀ i ∈ imports, isCopied used present i = false) : withCopied used present imports = present := by
  induction imports with
  | nil => rfl
  | cons i rest ih =>
    obtain ⟨hi, hrest⟩ := List.forall_mem_cons.1 h
    rw [withCopied, if_neg (by simp [hi]), ih hrest]

/-- No import of the module is copied behind finished imports. -/
theorem isCopied_finish {i : Import} (hi : i ∈ scope.module.imports) :
    isCopied (Import.mentioned body) (scope.finish added body) i = false := by
  have hthere : i ∈ scope.existing ++ scope.module.imports := List.mem_append_right _ hi
  cases hname : i.bound? with
  | none =>
    have hplain : i.isPlain = false := by simp [Import.isPlain, Import.bound?_eq_none_iff.1 hname]
    have hmem : i ∈ scope.finish added body := by
      rw [finish, Import.mem_needed_iff hplain]
      exact List.mem_append_left _ (mem_withCopied_of_mem hi (.inl hname))
    simp [isCopied, hname, hmem]
  | some name =>
    by_cases hfuture : i.isFuture = true
    · simp [isCopied, hname, hfuture, mem_finish_of_isFuture hthere hfuture]
    · by_cases hused : name ∈ Import.mentioned body
      · have hbinds : Import.Binds (scope.finish added body) name :=
          (finish_binds_iff hused).2 ⟨i, List.mem_append_left _ hthere, hname⟩
        simpa [isCopied, hname, hfuture, hused, Import.Binds] using hbinds
      · simp [isCopied, hname, hfuture, hused]

/-- The module has nothing to copy behind finished imports. -/
theorem withCopied_finish (scope : Scope) (added : List Import) (body : String) :
    withCopied (Import.mentioned body) (scope.finish added body) scope.module.imports =
      scope.finish added body :=
  withCopied_eq_self fun _ hi => isCopied_finish hi

theorem needed_finish (scope : Scope) (added : List Import) (body : String) :
    Import.needed (Import.mentioned body) (scope.finish added body) = scope.finish added body :=
  Import.keepNeeded_again (fun _ h => h) (fun _ h => h) _

/-- What was added is among the finished imports, or may go because its name is bound there; only the star
imports are not told from new ones. -/
theorem known_of_mem_needed {i : Import}
    (hi : i ∈ Import.needed (Import.mentioned body) (added ++ scope.baseline)) (hname : i.bound? = some name) :
    i ∈ scope.finish added body ∨ i.isRequired = false ∧ Import.Binds (scope.finish added body) name := by
  have hthere : i ∈ scope.candidates added :=
    List.mem_append_right _ ((Import.keepNeeded_sublist _ [] [] _).mem hi)
  have hplain := Import.isPlain_of_bound? hname
  by_cases hrequired : i.isRequired = true
  · left
    rw [finish, Import.mem_needed_iff (by simp [hplain, hrequired])]
    exact List.mem_append_right _ hi
  · right
    rw [Bool.not_eq_true] at hrequired
    obtain ⟨name', hused, hname', -⟩ := Import.bound?_of_mem_keepNeeded (by simp [hplain, hrequired]) hi
    obtain rfl := Option.some.inj (hname.symm.trans hname')
    exact ⟨hrequired, (finish_binds_iff hused).2 ⟨i, hthere, hname⟩⟩

/-- **A stub that is finished on top of its finished imports gets the added star imports once more.** -/
theorem finish_onto_finished (scope : Scope) (added : List Import) (body : String) (names : List String) :
    ({ scope with existing := scope.finish added body, existingNames := names }).finish added body =
      scope.finish added body ++ (added ++ scope.baseline).filter Import.isStar := by
  have hmore := @Import.filter_isStar_keepNeeded (Import.mentioned body) [] [] (added ++ scope.baseline)
  rw [finish]
  show Import.needed _ (withCopied _ (Import.needed _ (scope.finish added body)) scope.module.imports ++
    Import.needed _ (added ++ scope.baseline)) = _
  rw [needed_finish, withCopied_finish,
    Import.needed_append_of_known (needed_finish scope added body) fun i hi name => known_of_mem_needed hi,
    Import.needed, hmore]

/-- **Finishing is a fixed point but for star imports.**  When the finished imports of a stub are its
imports before it is finished again, with the same module, settings, added imports and body, they stay as
they are and behind them come the star imports among the added ones and those that every stub gets.  So
nothing changes exactly if there is no star import among these. -/
theorem finish_fixed_iff (scope : Scope) (added : List Import) (body : String) (names : List String) :
    let finished := scope.finish added body
    let again := ({ scope with existing := finished, existingNames := names }).finish added body
    again = finished ++ (added ++ scope.baseline).filter Import.isStar ∧
      (again = finished ↔ ∀ i ∈ added ++ scope.baseline, i.isStar = false) := by
  intro finished again
  have hagain : again = finished ++ (added ++ scope.baseline).filter Import.isStar :=
    finish_onto_finished scope added body names
  refine ⟨hagain, ?_⟩
  rw [hagain, List.append_right_eq_self, List.filter_eq_nil_iff]
  simp only [Bool.not_eq_true]

/-- Settings under which every stub gets everything from one module. -/
def starring : Scope where
  settings := { Settings.standard with baselineImports := ["from typing import *"] }
  index := ⟨[]⟩
  module := ⟨"m", "m.py", false, none, [], []⟩
  existing := []
  existingNames := []

/-- A star import that every stub gets is there once more each time. -/
theorem star_import_repeated :
    ({ starring with existing := starring.finish [] "x: int" }).finish [] "x: int" ≠
      starring.finish [] "x: int" := by
  have hagain := finish_onto_finished starring [] "x: int" starring.existingNames
  have hstars : ([] ++ starring.baseline).filter Import.isStar = [.star "typing"] := by decide +kernel
  rw [hstars] at hagain
  intro h
  rw [h] at hagain
  simp at hagain

end TypedStubs.Scope
