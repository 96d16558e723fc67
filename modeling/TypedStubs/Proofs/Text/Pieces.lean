import TypedStubs.Text.Cut

/-! # Pieces and what they are pieces of

A text is taken apart at a separator piece by piece (`splitOn_append`), no piece holds the separator
(`not_mem_of_mem_splitOn`), and pieces without it that were joined come out again (`splitOn_join`).
-/
namespace TypedStubs

/-- What is checked of the members of a list one by one. -/
theorem forall_mem_of_all {α : Type} {p : α → Prop} [DecidablePred p] {l : List α}
    (h : l.all (fun a => decide (p a)) = true) : ∀ a ∈ l, p a := by
  simpa using h

/-- What is checked of the one thing there is, if there is one. -/
theorem forall_mem_of_option_all {α : Type} {p : α → Prop} [DecidablePred p] {o : Option α}
    (h : o.all (fun a => decide (p a)) = true) : ∀ a ∈ o, p a := by
  cases o <;> simp_all

/-- What is left behind the longest front that satisfies `p`. -/
theorem forall_head?_dropWhile {α : Type} (p : α → Bool) (as : List α) :
    ∀ a ∈ (as.dropWhile p).head?, p a = false := by
  intro a ha
  have hnot := List.head?_dropWhile_not p as
  rw [Option.mem_def.1 ha] at hnot
  exact hnot

namespace Text

theorem splitWhere_append {p : Char → Bool} {c : Char} (hc : p c = true) (before after : List Char) :
    splitWhere p (before ++ c :: after) = splitWhere p before ++ splitWhere p after := by
  induction before with
  | nil =>
    obtain ⟨piece, pieces, h⟩ := List.exists_cons_of_ne_nil (splitWhere_ne_nil p after)
    simp [splitWhere, h, hc]
  | cons d before ih =>
    obtain ⟨piece, pieces, h⟩ := List.exists_cons_of_ne_nil (splitWhere_ne_nil p before)
    rw [List.cons_append, splitWhere, ih, splitWhere, h]
    by_cases hd : p d = true <;> simp [hd]

theorem splitWhere_of_forall {p : Char → Bool} {cs : List Char} (h : ∀ c ∈ cs, p c = false) :
    splitWhere p cs = [cs] := by
  induction cs with
  | nil => rfl
  | cons c cs ih =>
    have hrest := ih fun d hd => h d (List.mem_cons_of_mem c hd)
    simp [splitWhere, hrest, h c List.mem_cons_self]

theorem forall_of_mem_splitWhere {p : Char → Bool} {cs piece : List Char}
    (h : piece ∈ splitWhere p cs) : ∀ c ∈ piece, p c = false := by
  induction cs generalizing piece with
  | nil => simp_all [splitWhere]
  | cons c cs ih =>
    obtain ⟨first, pieces, hsplit⟩ := List.exists_cons_of_ne_nil (splitWhere_ne_nil p cs)
    rw [hsplit] at ih
    simp only [splitWhere, hsplit] at h
    split at h
    · rcases List.mem_cons.1 h with rfl | h
      · simp
      · exact ih h
    · next hc =>
      rcases List.mem_cons.1 h with rfl | h
      · simpa [hc] using ih List.mem_cons_self
      · exact ih (List.mem_cons_of_mem first h)

/-- A piece with separators, or the ends of the text, around it. -/
theorem mem_splitWhere {p : Char → Bool} {before piece after : List Char}
    (hpiece : ∀ c ∈ piece, p c = false) (hbefore : ∀ c ∈ before.getLast?, p c = true)
    (hafter : ∀ c ∈ after.head?, p c = true) : piece ∈ splitWhere p (before ++ (piece ++ after)) := by
  have hfront : piece ∈ splitWhere p (piece ++ after) := by
    cases after with
    | nil => simp [splitWhere_of_forall hpiece]
    | cons c after => simp [splitWhere_append (hafter c rfl), splitWhere_of_forall hpiece]
  rcases List.eq_nil_or_concat before with rfl | ⟨front, c, rfl⟩
  · exact hfront
  · have hc : p c = true := hbefore c (by simp)
    rw [List.concat_eq_append, List.append_assoc, List.singleton_append, splitWhere_append hc]
    exact List.mem_append_right _ hfront

theorem after?_append (lead s : String) : after? lead (lead ++ s) = some s := by
  simp [after?]

theorem splitOn_ne_nil (sep : Char) (s : String) : splitOn sep s ≠ [] := by
  simp [splitOn, splitWhere_ne_nil]

theorem splitOn_append (sep : Char) (a b : String) :
    splitOn sep (a ++ String.singleton sep ++ b) = splitOn sep a ++ splitOn sep b := by
  simp [splitOn, splitWhere_append (p := (· == sep)) (c := sep) (by simp)]

theorem splitOn_empty (sep : Char) : splitOn sep "" = [""] := rfl

theorem splitOn_of_not_mem {sep : Char} {s : String} (h : sep ∉ s.toList) : splitOn sep s = [s] := by
  have hnone : ∀ c ∈ s.toList, (c == sep) = false := by
    intro c hc
    have hne : c ≠ sep := fun heq => h (heq ▸ hc)
    simpa using hne
  simp [splitOn, splitWhere_of_forall hnone]

theorem not_mem_of_mem_splitOn {sep : Char} {s piece : String} (h : piece ∈ splitOn sep s) :
    sep ∉ piece.toList := by
  obtain ⟨cs, hcs, rfl⟩ := List.mem_map.1 h
  intro hmem
  simpa using forall_of_mem_splitWhere hcs sep (by simpa using hmem)

theorem join_cons_cons (sep first second : String) (rest : List String) :
    join sep (first :: second :: rest) = first ++ sep ++ join sep (second :: rest) := by
  simp [join, String.append_assoc]

theorem join_append (sep : String) {front rest : List String} (hfront : front ≠ []) (hrest : rest ≠ []) :
    join sep (front ++ rest) = join sep front ++ sep ++ join sep rest := by
  induction front with
  | nil => exact absurd rfl hfront
  | cons first front ih =>
    cases front with
    | nil =>
      obtain ⟨second, rest, rfl⟩ := List.exists_cons_of_ne_nil hrest
      exact join_cons_cons sep first second rest
    | cons second front =>
      rw [List.cons_append, List.cons_append, join_cons_cons, ← List.cons_append,
        ih (List.cons_ne_nil second front), join_cons_cons]
      simp only [String.append_assoc]

theorem join_concat (sep : String) {front : List String} (hne : front ≠ []) (last : String) :
    join sep (front ++ [last]) = join sep front ++ sep ++ last :=
  join_append sep hne (List.cons_ne_nil last [])

theorem join_append_cons (sep lead first : String) (rest : List String) :
    join sep ((lead ++ first) :: rest) = lead ++ join sep (first :: rest) := by
  cases rest with
  | nil => simp [join]
  | cons second rest => simp only [join_cons_cons, String.append_assoc]

theorem exists_join_cons (sep first : String) (rest : List String) :
    ∃ more, join sep (first :: rest) = first ++ more := by
  cases rest with
  | nil => exact ⟨"", by simp [join]⟩
  | cons second rest => exact ⟨sep ++ join sep (second :: rest), by
      rw [join_cons_cons, String.append_assoc]⟩

/-- Where the characters of joined pieces come from. -/
theorem mem_join {sep : String} {texts : List String} {c : Char} (h : c ∈ (join sep texts).toList) :
    c ∈ sep.toList ∨ ∃ text ∈ texts, c ∈ text.toList := by
  induction texts with
  | nil => simp [join] at h
  | cons first rest ih =>
    cases rest with
    | nil => exact .inr ⟨first, List.mem_cons_self, by simpa [join] using h⟩
    | cons second rest =>
      rw [join_cons_cons, String.toList_append, String.toList_append] at h
      rcases List.mem_append.1 h with h | h
      · exact (List.mem_append.1 h).elim (fun h => .inr ⟨first, List.mem_cons_self, h⟩) .inl
      · exact (ih h).imp_right fun ⟨text, htext, hc⟩ => ⟨text, List.mem_cons_of_mem first htext, hc⟩

theorem subset_join (sep : String) {texts : List String} {text : String} (h : text ∈ texts) :
    text.toList ⊆ (join sep texts).toList := by
  obtain ⟨front, back, rfl⟩ := List.append_of_mem h
  obtain ⟨more, hmore⟩ := exists_join_cons sep text back
  cases front with
  | nil => simp [hmore]
  | cons first front =>
    have hjoin := join_append sep (List.cons_ne_nil first front) (List.cons_ne_nil text back)
    intro c hc
    rw [hjoin, hmore]
    simp [hc]

/-- What stands behind each separator can be counted to the piece behind it. -/
theorem join_append_sep (sep lead first : String) (rest : List String) :
    join (sep ++ lead) (first :: rest) = join sep (first :: rest.map (lead ++ ·)) := by
  induction rest generalizing first with
  | nil => rfl
  | cons second rest ih =>
    rw [join_cons_cons, ih, List.map_cons, join_cons_cons, join_append_cons]
    simp only [String.append_assoc]

/-- The pieces of a text are joined to it again. -/
theorem join_splitOn (sep : Char) (s : String) : join (String.singleton sep) (splitOn sep s) = s := by
  have hchars : ∀ cs : List Char,
      join (String.singleton sep) ((splitWhere (· == sep) cs).map String.ofList) = String.ofList cs := by
    intro cs
    induction cs with
    | nil => rfl
    | cons c cs ih =>
      obtain ⟨piece, pieces, h⟩ := List.exists_cons_of_ne_nil (splitWhere_ne_nil (· == sep) cs)
      rw [h, List.map_cons] at ih
      have hsplit : splitWhere (· == sep) (c :: cs) =
          if c == sep then [] :: piece :: pieces else (c :: piece) :: pieces := by
        rw [splitWhere, h]
      rw [hsplit]
      by_cases hc : (c == sep) = true
      · obtain rfl : c = sep := by simpa using hc
        rw [if_pos hc, List.map_cons, List.map_cons, join_cons_cons, ih, ← String.toList_inj]
        simp
      · have hcons : String.ofList (c :: piece) = String.singleton c ++ String.ofList piece := by
          rw [← String.toList_inj]
          simp
        rw [if_neg hc, List.map_cons, hcons, join_append_cons, ih, ← String.toList_inj]
        simp
  simpa [splitOn] using hchars s.toList

theorem subset_of_mem_splitOn {sep : Char} {s piece : String} (h : piece ∈ splitOn sep s) :
    piece.toList ⊆ s.toList := by
  have hjoin := subset_join (String.singleton sep) h
  rwa [join_splitOn] at hjoin

theorem splitOn_join {sep : Char} {pieces : List String} (hne : pieces ≠ [])
    (h : ∀ piece ∈ pieces, sep ∉ piece.toList) :
    splitOn sep (join (String.singleton sep) pieces) = pieces := by
  induction pieces with
  | nil => exact absurd rfl hne
  | cons first rest ih =>
    have hfirst := splitOn_of_not_mem (h first List.mem_cons_self)
    cases rest with
    | nil => simpa [join] using hfirst
    | cons second rest =>
      have hrest := ih (List.cons_ne_nil second rest) fun piece hmem =>
        h piece (List.mem_cons_of_mem first hmem)
      rw [join_cons_cons, splitOn_append, hfirst, hrest, List.singleton_append]

/-- The pieces of a text are the last ones of another text just if it is the end of that text and stands there
behind a separator or alone. -/
theorem splitOn_suffix_iff {sep : Char} {ending s : String} :
    splitOn sep ending <:+ splitOn sep s ↔
      s = ending ∨ ∃ front, s = front ++ String.singleton sep ++ ending := by
  constructor
  · rintro ⟨front, hfront⟩
    have hjoin := congrArg (join (String.singleton sep)) hfront
    rw [join_splitOn] at hjoin
    by_cases hnil : front = []
    · subst hnil
      exact .inl (by rw [← hjoin, List.nil_append, join_splitOn])
    · refine .inr ⟨join (String.singleton sep) front, ?_⟩
      rw [← hjoin, join_append _ hnil (splitOn_ne_nil sep ending), join_splitOn]
  · rintro (rfl | ⟨front, rfl⟩)
    · exact List.suffix_rfl
    · rw [splitOn_append]
      exact List.suffix_append _ _

end Text
end TypedStubs
