import TypedStubs.Import.Basic
import TypedStubs.Proofs.Text.Pieces

/-! # Sources made absolute

Whatever package the dots of a relative source are counted from, the source that comes out does not start
with a dot, so it is the same in every package (`absolutize_isAbsolute`, `IsAbsolute.absolutize`).  It is
what stood behind the dots with the packages around it in front (`absolutePath_of_relative`): nothing, if
the dots lead out of all packages and nothing stands behind them.
-/
namespace TypedStubs

/-- Whether the source of an import does not depend on the module that holds the import. -/
def Import.IsAbsolute : Import → Prop
  | .module _ _ => True
  | .member source _ _ | .star source => source.toList.head? ≠ some '.'

namespace Import

@[simp] theorem bound?_absolutize (package : String) (i : Import) :
    (i.absolutize package).bound? = i.bound? := by
  cases i with
  | module path asName => rfl
  | member source name asName => cases asName <;> rfl
  | star source => rfl

theorem absolutePath_of_head? {path : String} (h : path.toList.head? ≠ some '.') (package : String) :
    absolutePath package path = path := by
  have hdots : path.toList.takeWhile (· == '.') = [] := by
    cases hpath : path.toList with
    | nil => rfl
    | cons c cs =>
      have hc : c ≠ '.' := by simpa [hpath] using h
      simp [hc]
  simp [absolutePath, hdots]

theorem IsAbsolute.absolutize {i : Import} (h : i.IsAbsolute) (package : String) :
    i.absolutize package = i := by
  cases i with
  | module path asName => rfl
  | member source name asName => exact congrArg (member · name asName) (absolutePath_of_head? h package)
  | star source => exact congrArg star (absolutePath_of_head? h package)

/-! ## Packages around -/

/-- How many dots a path starts with. -/
def leadingDots (path : String) : Nat := (path.toList.takeWhile (· == '.')).length

/-- What stands behind the dots that a path starts with. -/
def behindDots (path : String) : String := String.ofList (path.toList.drop (leadingDots path))

/-- The packages that a package is inside, the outermost first, and itself. -/
def packages (package : String) : List String := (Text.splitOn '.' package).filter (!·.isEmpty)

/-- The packages of `package` that are left when the dots of a path lead out of the others. -/
def packagesAround (package path : String) : List String :=
  (packages package).take ((packages package).length - (leadingDots path - 1))

theorem absolutePath_eq (package path : String) :
    absolutePath package path =
      if leadingDots path = 0 then path
      else Text.join "." (if (behindDots path).isEmpty then packagesAround package path
        else packagesAround package path ++ [behindDots path]) := rfl

theorem packagesAround_eq_nil {package path : String} (h : leadingDots path ≠ 0) :
    packagesAround package path = [] ↔ (packages package).length < leadingDots path := by
  rw [packagesAround, ← List.length_eq_zero_iff, List.length_take]
  omega

theorem drop_leadingDots (path : String) :
    path.toList.drop (leadingDots path) = path.toList.dropWhile (· == '.') := by
  have hsplit := List.takeWhile_append_dropWhile (p := (· == '.')) (l := path.toList)
  have hdrop : (path.toList.takeWhile (· == '.') ++ path.toList.dropWhile (· == '.')).drop
      (leadingDots path) = path.toList.dropWhile (· == '.') := List.drop_left
  rwa [hsplit] at hdrop

theorem head?_behindDots (path : String) : (behindDots path).toList.head? ≠ some '.' := by
  rw [behindDots, String.toList_ofList, drop_leadingDots]
  intro hdot
  simpa using forall_head?_dropWhile (· == '.') path.toList '.' hdot

/-- The dots and what stands behind them. -/
theorem replicate_behindDots (path : String) :
    path.toList = List.replicate (leadingDots path) '.' ++ (behindDots path).toList := by
  have hdots : path.toList.takeWhile (· == '.') = List.replicate (leadingDots path) '.' :=
    List.eq_replicate_iff.2 ⟨rfl, fun c hc => by
      simpa using List.all_eq_true.1 List.all_takeWhile c hc⟩
  rw [behindDots, String.toList_ofList, drop_leadingDots, ← hdots, List.takeWhile_append_dropWhile]

theorem leadingDots_eq_zero {path : String} (h : leadingDots path = 0) : path.toList.head? ≠ some '.' := by
  have hpath := replicate_behindDots path
  rw [h, List.replicate_zero, List.nil_append] at hpath
  rw [hpath]
  exact head?_behindDots path

/-- A package around is a component of the package. -/
theorem mem_packagesAround {package path component : String} (h : component ∈ packagesAround package path) :
    component ≠ "" ∧ '.' ∉ component.toList ∧ component.toList ⊆ package.toList := by
  obtain ⟨hpiece, hne⟩ := List.mem_filter.1 (List.mem_of_mem_take h)
  refine ⟨by simpa using hne, Text.not_mem_of_mem_splitOn hpiece, ?_⟩
  exact Text.subset_of_mem_splitOn hpiece

theorem toList_joined {package path : String} {c : Char}
    (h : c ∈ (Text.join "." (packagesAround package path)).toList) : c = '.' ∨ c ∈ package.toList := by
  rcases Text.mem_join h with h | ⟨component, hmem, hc⟩
  · exact .inl (by simpa using h)
  · exact .inr ((mem_packagesAround hmem).2.2 hc)

/-- Packages joined by dots do not start with one. -/
theorem head?_joined {package path : String} (h : packagesAround package path ≠ []) :
    ∃ c, (Text.join "." (packagesAround package path)).toList.head? = some c ∧ c ≠ '.' := by
  obtain ⟨first, rest, hpackages⟩ := List.exists_cons_of_ne_nil h
  have hfirst : first ∈ packagesAround package path := by simp [hpackages]
  obtain ⟨hne, hdot, -⟩ := mem_packagesAround hfirst
  obtain ⟨c, cs, hchars⟩ := List.exists_cons_of_ne_nil (mt String.toList_eq_nil_iff.1 hne)
  obtain ⟨more, hmore⟩ := Text.exists_join_cons "." first rest
  refine ⟨c, by simp [hpackages, hmore, hchars], fun heq => ?_⟩
  simp [hchars, heq] at hdot

/-- **A relative source made absolute** is what stood behind its dots with the packages around it in
front. -/
theorem absolutePath_of_relative (package : String) {path : String} (h : leadingDots path ≠ 0) :
    ∃ front : String, absolutePath package path = front ++ behindDots path ∧
      (∀ c ∈ front.toList, c = '.' ∨ c ∈ package.toList) ∧ front.toList.head? ≠ some '.' ∧
      (front = "" ↔ (packages package).length < leadingDots path) := by
  rw [absolutePath_eq, if_neg h, ← packagesAround_eq_nil h]
  rcases Classical.em (packagesAround package path = []) with hnone | hsome
  · refine ⟨"", ?_, by simp, by simp, by simp [hnone]⟩
    by_cases hrest : behindDots path = "" <;> simp [hnone, hrest, Text.join]
  · obtain ⟨c, hfirst, hc⟩ := head?_joined hsome
    have hjoined : Text.join "." (packagesAround package path) ≠ "" := fun hempty => by
      simp [hempty] at hfirst
    by_cases hrest : behindDots path = ""
    · refine ⟨Text.join "." (packagesAround package path), by simp [hrest], fun d hd => toList_joined hd,
        by simpa [hfirst] using hc, by simp [hsome, hjoined]⟩
    · refine ⟨Text.join "." (packagesAround package path) ++ ".", ?_, fun d hd => ?_, ?_, by simp [hsome]⟩
      · simp [hrest, Text.join_concat "." hsome]
      · rcases List.mem_append.1 (String.toList_append ▸ hd) with hd | hd
        · exact toList_joined hd
        · exact .inl (by simpa using hd)
      · simpa [hfirst] using hc

/-- Whatever package the dots are counted from, none are left. -/
theorem head?_absolutePath (package path : String) : (absolutePath package path).toList.head? ≠ some '.' := by
  by_cases hdots : leadingDots path = 0
  · rw [absolutePath_eq, if_pos hdots]
    exact leadingDots_eq_zero hdots
  · obtain ⟨front, heq, -, hfront, -⟩ := absolutePath_of_relative package hdots
    rw [heq, String.toList_append]
    cases hchars : front.toList with
    | nil =>
      rw [List.nil_append]
      exact head?_behindDots path
    | cons c cs => simpa [hchars] using hfront

theorem absolutize_isAbsolute (package : String) (i : Import) : (i.absolutize package).IsAbsolute := by
  cases i with
  | module path asName => trivial
  | member source name asName => exact head?_absolutePath package source
  | star source => exact head?_absolutePath package source

end Import
end TypedStubs
