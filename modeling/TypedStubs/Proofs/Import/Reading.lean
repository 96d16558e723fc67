import TypedStubs.Proofs.Import.Line
import TypedStubs.Proofs.Syntax.ImportLine

/-! # Import lines are read again as they were written

An import is made of words when its paths are words with dots between them, perhaps with more dots
before the source of members, and its alias is a word (`isReadable`).  The line of a group of such
imports is read as that group (`stretch_group`), so such an import is determined by how it is written
(`render_injective`).  It is read off a single line, too, unless `as` stands for its name
(`legible_of_isReadable`).
-/
namespace TypedStubs.Import

open Syntax

/-! ## Imports of words -/

/-- Whether a text is a path of words. -/
def isPath (path : String) : Bool := (Text.splitOn '.' path).all Text.isWord

/-- Whether members can be drawn from what a text says: a path of words, or dots and perhaps a path
behind them that does not start with the word `import`. -/
def isOrigin (source : String) : Bool :=
  let dots := source.toList.takeWhile (· == '.')
  let words := Text.splitOn '.' (String.ofList (source.toList.dropWhile (· == '.')))
  if words = [""] then !dots.isEmpty
  else words.all Text.isWord && (dots.isEmpty || words.head? != some "import")

/-- Whether an import is made of words. -/
def isReadable : Import → Bool
  | .module path asName => isPath path && asName.all Text.isWord
  | .member source name asName => isOrigin source && isPath name && asName.all Text.isWord
  | .star source => isOrigin source

example : (Import.member "..a.b" "c" (some "d")).isReadable = true := by decide

theorem exists_imported {path : String} {asName : Option String} (h : isPath path = true)
    (ha : asName.all Text.isWord = true) :
    ∃ i : Imported, i.WellFormed ∧ i.path = path ∧ i.asName = asName := by
  refine ⟨⟨Text.splitOn '.' path, asName⟩, ⟨⟨Text.splitOn_ne_nil _ _, List.all_eq_true.1 h⟩, ?_⟩, ?_, rfl⟩
  · intro w hw
    obtain rfl : asName = some w := hw
    simpa using ha
  · exact Text.join_splitOn '.' path

theorem exists_source {source : String} (h : isOrigin source = true) :
    ∃ k words, IsSource k words ∧ String.ofList (sourceChars k words) = source := by
  have hdots : source.toList.takeWhile (· == '.') =
      List.replicate (source.toList.takeWhile (· == '.')).length '.' :=
    List.eq_replicate_iff.2 ⟨rfl, fun c hc => by simpa using List.mem_takeWhile_imp hc⟩
  have hsplit := List.takeWhile_append_dropWhile (p := (· == '.')) (l := source.toList)
  have hjoin : pathChars (Text.splitOn '.' (String.ofList (source.toList.dropWhile (· == '.')))) =
      source.toList.dropWhile (· == '.') :=
    (congrArg String.toList (Text.join_splitOn '.' _)).trans String.toList_ofList
  have hne := Text.splitOn_ne_nil '.' (String.ofList (source.toList.dropWhile (· == '.')))
  unfold isOrigin at h
  generalize source.toList.takeWhile (· == '.') = dots at *
  generalize Text.splitOn '.' (String.ofList (source.toList.dropWhile (· == '.'))) = words at *
  have hsource : ∀ words', pathChars words' = pathChars words →
      String.ofList (sourceChars dots.length words') = source := by
    intro words' hsame
    rw [sourceChars, ← hdots, hsame, hjoin, hsplit, String.ofList_toList]
  by_cases hempty : words = [""]
  · subst hempty
    refine ⟨dots.length, [], ⟨.inl ?_, by simp, by simp⟩, hsource [] rfl⟩
    simpa [List.length_pos_iff] using h
  · simp only [if_neg hempty, Bool.and_eq_true, List.all_eq_true, Bool.or_eq_true,
      List.isEmpty_iff, bne_iff_ne] at h
    obtain ⟨hwords, hfirst⟩ := h
    refine ⟨dots.length, words, ⟨.inr hne, hwords, fun hk => hfirst.resolve_left ?_⟩, hsource words rfl⟩
    exact List.length_pos_iff.1 hk

/-! ## Lines -/

theorem stretch_module_line {path : String} {asName : Option String}
    (h : (Import.module path asName).isReadable = true) :
    ∃ place, Stretch 0 ((Import.module path asName).render.toList ++ ['\n'])
      [.importing place [.module path asName]] := by
  simp only [isReadable, Bool.and_eq_true] at h
  obtain ⟨i, hi, rfl, rfl⟩ := exists_imported h.1 h.2
  obtain ⟨place, hstretch⟩ := stretch_module hi 0
  refine ⟨place, ?_⟩
  simpa [render, namesChars, listedChars, Imported.chars] using hstretch

theorem stretch_star_line {source : String} (h : (Import.star source).isReadable = true) :
    ∃ place, Stretch 0 ((Import.star source).render.toList ++ ['\n'])
      [.importing place [.star source]] := by
  obtain ⟨k, words, hsource, rfl⟩ := exists_source h
  obtain ⟨place, hstretch⟩ := Drawn.stretch_line (d := .everything) hsource trivial 0
  refine ⟨place, ?_⟩
  simpa [render, Drawn.chars, Drawn.imports] using hstretch

/-- The members of one source that are read off their line. -/
theorem exists_members {source : String} {items : List Import}
    (hall : ∀ i ∈ items, (listedFrom source i).isSome = true)
    (h : ∀ i ∈ items, i.isReadable = true) :
    ∃ named : List Imported, (∀ i ∈ named, i.WellFormed) ∧
      named.map (fun i => .member source i.path i.asName) = items ∧
      named.map (·.chars) = (items.filterMap (listedFrom source)).map String.toList := by
  induction items with
  | nil => exact ⟨[], by simp, rfl, rfl⟩
  | cons i items ih =>
    obtain ⟨named, hnamed, rfl, htexts⟩ := ih (fun j hj => hall j (List.mem_cons_of_mem _ hj))
      fun j hj => h j (List.mem_cons_of_mem _ hj)
    obtain ⟨text, htext⟩ := Option.isSome_iff_exists.1 (hall i List.mem_cons_self)
    obtain ⟨name, asName, rfl, rfl⟩ := listedFrom_eq_some.1 htext
    have hreadable := h _ List.mem_cons_self
    simp only [isReadable, Bool.and_eq_true] at hreadable
    obtain ⟨i, hi, rfl, rfl⟩ := exists_imported hreadable.1.2 hreadable.2
    refine ⟨i :: named, List.forall_mem_cons.2 ⟨hi, hnamed⟩, rfl, ?_⟩
    rw [List.map_cons, htexts, List.filterMap_cons_some htext]
    rfl

theorem stretch_members_line {source : String} {items : List Import} (hne : items ≠ [])
    (hall : ∀ i ∈ items, (listedFrom source i).isSome = true) (h : ∀ i ∈ items, i.isReadable = true) :
    ∃ place, Stretch 0 (("from " ++ source ++ " import " ++
        Text.join ", " (items.filterMap (listedFrom source))).toList ++ ['\n'])
      [.importing place items] := by
  obtain ⟨named, hnamed, hitems, htexts⟩ := exists_members hall h
  have horigin : isOrigin source = true := by
    obtain ⟨i, items, rfl⟩ := List.exists_cons_of_ne_nil hne
    obtain ⟨text, htext⟩ := Option.isSome_iff_exists.1 (hall i List.mem_cons_self)
    obtain ⟨name, asName, rfl, -⟩ := listedFrom_eq_some.1 htext
    have hreadable := h _ List.mem_cons_self
    simp only [isReadable, Bool.and_eq_true] at hreadable
    exact hreadable.1.1
  obtain ⟨k, words, hsource, rfl⟩ := exists_source horigin
  have hnamedNe : named ≠ [] := by
    rintro rfl
    exact hne (by rw [← hitems]; rfl)
  have htextsNe : items.filterMap (listedFrom (String.ofList (sourceChars k words))) ≠ [] := by
    intro hnil
    rw [hnil, List.map_nil, List.map_eq_nil_iff] at htexts
    exact hnamedNe htexts
  obtain ⟨place, hstretch⟩ := Drawn.stretch_line (d := .members named) hsource ⟨hnamedNe, hnamed⟩ 0
  have hjoin := toList_join (show (", " : String).toList = [] ++ ',' :: [' '] by decide) [' '] htextsNe
  refine ⟨place, ?_⟩
  rw [Drawn.imports, hitems, Drawn.chars, namesChars, htexts, ← hjoin] at hstretch
  simpa using hstretch

/-- **The line of a group of imports of words is read as that group.** -/
theorem stretch_group {group : List Import} {line : String} (hgroup : IsGroup group line)
    (h : ∀ i ∈ group, i.isReadable = true) :
    ∃ place, Stretch 0 (line.toList ++ ['\n']) [.importing place group] := by
  cases hgroup with
  | @single i hsingle =>
    have hi := h i List.mem_cons_self
    cases i with
    | module path asName => exact stretch_module_line hi
    | star source => exact stretch_star_line hi
    | member source name asName =>
      have := hsingle source
      simp [listedFrom] at this
  | members hne hall hordered => exact stretch_members_line hne hall h

/-- An import of words is read from its own line. -/
theorem stretch_render {i : Import} (h : i.isReadable = true) :
    ∃ place, Stretch 0 (i.render.toList ++ ['\n']) [.importing place [i]] := by
  have hi : ∀ j ∈ [i], j.isReadable = true := fun j hj => by
    obtain rfl := List.mem_singleton.1 hj
    exact h
  exact stretch_group (isGroup_render i) hi

/-! ## Words on a line -/

/-- The characters of what words and the dots between them make. -/
theorem isNameChar_of_words {path : String} (h : ∀ w ∈ Text.splitOn '.' path, Text.isWord w = true) :
    ∀ c ∈ path.toList, isNameChar c = true := by
  have hjoin : Text.join "." (Text.splitOn '.' path) = path := Text.join_splitOn '.' path
  have hchars := isNameChar_join h
  rwa [hjoin] at hchars

theorem isListable_of_isPath {path : String} (h : isPath path = true) : isListable path = true := by
  have hne : path ≠ "" := by
    rintro rfl
    cases h
  have hchars := isNameChar_of_words (List.all_eq_true.1 h)
  simpa [isListable, hne] using hchars

theorem isListable_of_isOrigin {source : String} (h : isOrigin source = true) :
    isListable source = true := by
  have hsplit := List.takeWhile_append_dropWhile (p := (· == '.')) (l := source.toList)
  have hdots : ∀ c ∈ source.toList.takeWhile (· == '.'), isNameChar c = true := fun c hc => by
    obtain rfl : c = '.' := by simpa using List.all_eq_true.1 List.all_takeWhile c hc
    decide
  have hrest : ∀ c ∈ source.toList.dropWhile (· == '.'), isNameChar c = true := by
    have hjoin := Text.join_splitOn '.' (String.ofList (source.toList.dropWhile (· == '.')))
    simp only [isOrigin] at h
    split at h
    · next hnone =>
      rw [hnone] at hjoin
      have hempty : source.toList.dropWhile (· == '.') = [] := by
        simpa [Text.join] using hjoin
      simp [hempty]
    · have hwords := List.all_eq_true.1 (Bool.and_eq_true_iff.1 h).1
      simpa using isNameChar_of_words hwords
  have hne : source ≠ "" := by
    rintro rfl
    cases h
  have hchars : ∀ c ∈ source.toList, isNameChar c = true := by
    rw [← hsplit]
    exact List.forall_mem_append.2 ⟨hdots, hrest⟩
  simpa [isListable, hne] using hchars

/-- An import of words is read off its line, unless it imports something under the name `as`. -/
theorem legible_of_isReadable {i : Import} (h : i.isReadable = true)
    (has : ∀ source asName, i ≠ .member source "as" asName) : i.Legible := by
  have halias : ∀ {asName : Option String}, asName.all Text.isWord = true →
      ∀ a ∈ asName, isListable a = true := by
    intro asName ha a hmem
    have hword : Text.isWord a = true := (Option.all_eq_true _ _).1 ha a hmem
    have hne : a ≠ "" := by
      rintro rfl
      cases hword
    simpa [isListable, hne] using isNameChar_of_isWord hword
  cases i with
  | module path asName =>
    obtain ⟨hpath, ha⟩ := Bool.and_eq_true_iff.1 h
    have hlistable := isListable_of_isPath hpath
    have hne : path ≠ "" := by
      rintro rfl
      cases hpath
    exact ⟨hne, isLegiblePath_of_isListable "as" hlistable, not_mem_of_isListable hlistable (by decide),
      halias ha⟩
  | member source name asName =>
    obtain ⟨hnames, ha⟩ := Bool.and_eq_true_iff.1 h
    obtain ⟨hsource, hname⟩ := Bool.and_eq_true_iff.1 hnames
    refine ⟨isLegiblePath_of_isListable "import" (isListable_of_isOrigin hsource),
      isListable_of_isPath hname, ?_, halias ha⟩
    rintro rfl
    exact has source asName rfl
  | star source => exact isLegiblePath_of_isListable "import" (isListable_of_isOrigin h)

/-- **How an import of words is written says which one it is.** -/
theorem render_injective {i j : Import} (hi : i.isReadable = true) (hj : j.isReadable = true)
    (h : i.render = j.render) : i = j := by
  obtain ⟨place, hreadi⟩ := stretch_render hi
  obtain ⟨place', hreadj⟩ := stretch_render hj
  have hparse := hreadi.parse.symm.trans ((congrArg _ (by rw [h])).trans hreadj.parse)
  obtain ⟨-, heq⟩ : place = place' ∧ i = j := by simpa using hparse
  exact heq

end TypedStubs.Import
