import Mathlib.Data.List.TakeWhile
import TypedStubs.Proofs.Text.Pieces
import TypedStubs.Text.Blank

/-! # Words between spaces

A text is cut at a word with spaces around it where the word stands behind a space for the first time, so
a text in which it does not stand behind a space is not cut at all (`cut_spaced`, `cut_spaced_none`).  A
text whose ends are no blanks is not changed when it is trimmed (`trim_eq_self`).
-/
namespace TypedStubs.Text

/-! ## Ends -/

/-- Characters with no blank at either end. -/
structure IsTrimmed (cs : List Char) : Prop where
  /-- They do not start with one. -/
  front : ∀ c ∈ cs.head?, isBlank c = false
  /-- They do not end with one. -/
  back : ∀ c ∈ cs.getLast?, isBlank c = false

instance (cs : List Char) : Decidable (IsTrimmed cs) :=
  decidable_of_iff ((cs.head?.all (!isBlank ·)) = true ∧ (cs.getLast?.all (!isBlank ·)) = true) <| by
    simp only [Option.all_eq_true, Bool.not_eq_true']
    exact ⟨fun h => ⟨h.1, h.2⟩, fun h => ⟨h.front, h.back⟩⟩

theorem dropWhile_eq_self {p : Char → Bool} {cs : List Char} (h : ∀ c ∈ cs.head?, p c = false) :
    cs.dropWhile p = cs := by
  cases cs with
  | nil => rfl
  | cons c cs => simp [h c rfl]

theorem dropEndWhile_eq_self {p : Char → Bool} {cs : List Char} (h : ∀ c ∈ cs.getLast?, p c = false) :
    dropEndWhile p cs = cs := by
  rw [dropEndWhile, dropWhile_eq_self (by simpa using h), List.reverse_reverse]

theorem IsTrimmed.trimChars {cs : List Char} (h : IsTrimmed cs) : trimChars cs = cs := by
  rw [Text.trimChars, trimStartChars, dropWhile_eq_self h.front, trimEndChars, dropEndWhile_eq_self h.back]

theorem IsTrimmed.trim {s : String} (h : IsTrimmed s.toList) : trim s = s := by
  rw [Text.trim, h.trimChars, String.ofList_toList]

section Ends

variable {α : Type} (p : α → Bool) (as : List α)

theorem forall_getLast?_dropWhile : ∀ a ∈ (as.reverse.dropWhile p).reverse.getLast?, p a = false := by
  simpa using forall_head?_dropWhile p as.reverse

/-- A list without what satisfies `p` at its ends starts with something that does not. -/
theorem forall_head?_dropWhile_dropWhile :
    ∀ a ∈ ((as.dropWhile p).reverse.dropWhile p).reverse.head?, p a = false := by
  intro a ha
  have hprefix : ((as.dropWhile p).reverse.dropWhile p).reverse <+: as.dropWhile p := by
    rw [← List.reverse_suffix, List.reverse_reverse]
    exact List.dropWhile_suffix _
  obtain ⟨bs, hbs⟩ := hprefix
  refine forall_head?_dropWhile p as a ?_
  rw [← hbs, List.head?_append, Option.mem_def.1 ha]
  rfl

end Ends

/-- What is left of a text when it is trimmed. -/
theorem isTrimmed_trimChars (cs : List Char) : IsTrimmed (trimChars cs) :=
  ⟨forall_head?_dropWhile_dropWhile isBlank cs, forall_getLast?_dropWhile isBlank (trimStartChars cs)⟩

theorem isTrimmed_trim (s : String) : IsTrimmed (trim s).toList := by
  rw [trim, String.toList_ofList]
  exact isTrimmed_trimChars s.toList

/-- What is left of a text when the blanks at its end are taken away, and these blanks. -/
theorem trimEndChars_append (cs : List Char) :
    ∃ trail, cs = trimEndChars cs ++ trail ∧ ∀ c ∈ trail, isBlank c = true := by
  refine ⟨(cs.reverse.takeWhile isBlank).reverse, ?_, fun c hc =>
    List.mem_takeWhile_imp (List.mem_reverse.1 hc)⟩
  rw [trimEndChars, dropEndWhile, ← List.reverse_append, List.takeWhile_append_dropWhile, List.reverse_reverse]

/-- A text is what is left of it when it is trimmed, between blanks. -/
theorem trimChars_around (cs : List Char) :
    ∃ lead trail, cs = lead ++ (trimChars cs ++ trail) ∧ (∀ c ∈ lead, isBlank c = true) ∧
      ∀ c ∈ trail, isBlank c = true := by
  obtain ⟨trail, hback, htrail⟩ := trimEndChars_append (trimStartChars cs)
  refine ⟨cs.takeWhile isBlank, trail, ?_, fun c hc => List.mem_takeWhile_imp hc, htrail⟩
  rw [trimChars, ← hback]
  exact (List.takeWhile_append_dropWhile).symm

/-- Of two texts, one behind the other, the ends count. -/
theorem IsTrimmed.append {a b : List Char} (ha : a ≠ []) (hfront : ∀ c ∈ a.head?, isBlank c = false)
    (hb : b ≠ []) (hback : ∀ c ∈ b.getLast?, isBlank c = false) : IsTrimmed (a ++ b) where
  front := by simpa [ha] using hfront
  back := by simpa [hb] using hback

/-- In front of a text that does not end with a blank stands one that holds none. -/
theorem isTrimmed_append {a b : List Char} (ha : a ≠ []) (hfront : ∀ c ∈ a, isBlank c = false)
    (hback : ∀ c ∈ b.getLast?, isBlank c = false) : IsTrimmed (a ++ b) where
  front := by
    obtain ⟨c, cs, rfl⟩ := List.exists_cons_of_ne_nil ha
    simpa using hfront c List.mem_cons_self
  back := by
    intro c hc
    rw [List.getLast?_append] at hc
    rcases Option.or_eq_some_iff.1 hc with hc | ⟨-, hc⟩
    · exact hback c hc
    · exact hfront c (List.mem_of_getLast? hc)

/-- A text that does not end with a blank either starts with a character that is none or with nothing. -/
theorem isTrimmed_iff_of_back {cs : List Char} (hback : ∀ c ∈ cs.getLast?, isBlank c = false) :
    cs ≠ [] ∧ IsTrimmed cs ↔ ¬ ∀ c ∈ cs.head?, isBlank c = true := by
  cases cs with
  | nil => simp
  | cons c cs =>
    constructor
    · rintro ⟨-, htrimmed⟩ hblank
      have hc := htrimmed.front c rfl
      rw [hblank c rfl] at hc
      cases hc
    · intro h
      have hc : isBlank c = false := by simpa using h
      exact ⟨List.cons_ne_nil c cs, by simpa using hc, hback⟩

theorem isAllBlank_iff {s : String} : isAllBlank s = true ↔ ∀ c ∈ s.toList, isBlank c = true :=
  List.all_eq_true

theorem isAllBlank_append (a b : String) : isAllBlank (a ++ b) = (isAllBlank a && isAllBlank b) := by
  simp [isAllBlank]

theorem trim_space (s : String) : trim (" " ++ s) = trim s := by
  have hspace : isBlank ' ' = true := by decide
  simp [trim, trimChars, trimStartChars, hspace]

/-! ## Cuts at a word -/

section Cuts

variable {w s t : List Char}

theorem splitWhere_cons {p : Char → Bool} {c : Char} (hc : p c = true) (cs : List Char) :
    splitWhere p (c :: cs) = [] :: splitWhere p cs := splitWhere_append hc [] cs

theorem tail_splitWhere_cons {p : Char → Bool} {c : Char} (hc : p c = false) (cs : List Char) :
    (splitWhere p (c :: cs)).tail = (splitWhere p cs).tail := by
  obtain ⟨piece, pieces, h⟩ := List.exists_cons_of_ne_nil (splitWhere_ne_nil p cs)
  simp [splitWhere, h, hc]

/-- What stands before the first space is the first piece. -/
theorem head?_splitWhere_of_prefix (hw : ' ' ∉ w) (h : w ++ [' '] <+: s) :
    (splitWhere (· == ' ') s).head? = some w := by
  obtain ⟨rest, rfl⟩ := h
  have hnone : ∀ c ∈ w, (c == ' ') = false := fun c hc => by
    simpa using fun heq : c = ' ' => hw (heq ▸ hc)
  rw [List.append_assoc, List.singleton_append, splitWhere_append (p := (· == ' ')) (by simp),
    splitWhere_of_forall hnone]
  rfl

/-- A word that stands behind a space. -/
def Spaced (w s : List Char) : Prop := w ∈ (splitWhere (· == ' ') s).tail

instance (w s : List Char) : Decidable (Spaced w s) :=
  inferInstanceAs (Decidable (w ∈ (splitWhere (· == ' ') s).tail))

theorem not_spaced_of_not_mem (h : ' ' ∉ s) : ¬ Spaced w s := by
  have hnone : ∀ c ∈ s, (c == ' ') = false := fun c hc => by
    simpa using fun heq : c = ' ' => h (heq ▸ hc)
  simp [Spaced, splitWhere_of_forall hnone]

/-- What stands behind a space in front of a text stands in the text, if the front holds no space. -/
theorem spaced_append {front : List Char} (h : ' ' ∉ front) : Spaced w (front ++ s) ↔ Spaced w s := by
  induction front with
  | nil => rfl
  | cons c front ih =>
    obtain ⟨hc, hfront⟩ := not_or.1 (mt List.mem_cons.2 h)
    rw [List.cons_append, Spaced, tail_splitWhere_cons (p := (· == ' ')) (by simpa using Ne.symm hc)]
    exact ih hfront

/-- A word with spaces around it is no front of a text in which it does not stand behind a space. -/
theorem not_prefix_of_not_spaced (hw : ' ' ∉ w) {c : Char} (h : ¬ Spaced w (c :: s)) {more : List Char}
    (hmore : (splitWhere (· == ' ') (s ++ more)).head? = (splitWhere (· == ' ') s).head?) :
    (' ' :: (w ++ [' '])).isPrefixOf (c :: (s ++ more)) = false := by
  by_cases hc : ' ' = c
  · subst hc
    rw [Spaced, splitWhere_cons (p := (· == ' ')) (by simp), List.tail_cons] at h
    refine Bool.eq_false_iff.2 fun hprefix => ?_
    have hfront : w ++ [' '] <+: s ++ more := by simpa [List.isPrefixOf] using hprefix
    have hhead := hmore ▸ head?_splitWhere_of_prefix hw hfront
    exact h (List.mem_of_head? hhead)
  · simp [List.isPrefixOf, hc]

theorem not_spaced_tail {c : Char} (h : ¬ Spaced w (c :: s)) : ¬ Spaced w s := by
  by_cases hc : (c == ' ') = true
  · rw [Spaced, splitWhere_cons (p := (· == ' ')) hc, List.tail_cons] at h
    exact fun hs => h (List.mem_of_mem_tail hs)
  · rwa [Spaced, tail_splitWhere_cons (p := (· == ' ')) (by simpa using hc)] at h

theorem head?_splitWhere_append (s rest : List Char) :
    (splitWhere (· == ' ') (s ++ ' ' :: rest)).head? = (splitWhere (· == ' ') s).head? := by
  obtain ⟨piece, pieces, h⟩ := List.exists_cons_of_ne_nil (splitWhere_ne_nil (· == ' ') s)
  rw [splitWhere_append (p := (· == ' ')) (by simp), h]
  rfl

theorem cutChars_spaced (hw : ' ' ∉ w) (h : ¬ Spaced w s) (t : List Char) :
    cutChars (' ' :: (w ++ [' '])) (s ++ ' ' :: (w ++ ' ' :: t)) = some (s, t) := by
  induction s with
  | nil => simp [cutChars, List.isPrefixOf, List.isPrefixOf_iff_prefix]
  | cons c s ih =>
    have hprefix := not_prefix_of_not_spaced hw h (head?_splitWhere_append s (w ++ ' ' :: t))
    rw [List.cons_append, cutChars, hprefix, ih (not_spaced_tail h)]
    rfl

theorem cutChars_spaced_none (hw : ' ' ∉ w) (h : ¬ Spaced w s) :
    cutChars (' ' :: (w ++ [' '])) s = none := by
  induction s with
  | nil => rfl
  | cons c s ih =>
    have hprefix : (' ' :: (w ++ [' '])).isPrefixOf (c :: (s ++ [])) = false :=
      not_prefix_of_not_spaced hw h (by rw [List.append_nil])
    rw [List.append_nil] at hprefix
    rw [cutChars, hprefix, ih (not_spaced_tail h)]
    rfl

end Cuts

theorem cut_spaced {word s : String} (hw : ' ' ∉ word.toList) (h : ¬ Spaced word.toList s.toList)
    (t : String) : cut (" " ++ word ++ " ") (s ++ (" " ++ word ++ " ") ++ t) = some (s, t) := by
  have hcut := cutChars_spaced hw h t.toList
  simp only [cut, String.toList_append, List.append_assoc]
  rw [show (" " : String).toList = [' '] from rfl]
  simp only [List.cons_append] at hcut ⊢
  simp [hcut]

theorem cut_spaced_none {word s : String} (hw : ' ' ∉ word.toList) (h : ¬ Spaced word.toList s.toList) :
    cut (" " ++ word ++ " ") s = none := by
  have hcut := cutChars_spaced_none hw h
  simp only [cut, String.toList_append]
  rw [show (" " : String).toList = [' '] from rfl, List.singleton_append, List.cons_append, hcut]
  rfl

end TypedStubs.Text
