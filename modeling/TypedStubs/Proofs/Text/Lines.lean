import Mathlib.Data.List.Basic
import TypedStubs.Proofs.Text.Pieces
import TypedStubs.Text.Blank

/-! # Lines and the pieces between line feeds

The lines of a text are its pieces between line feeds, each but the last without the carriage return at its end, and
the last one only if it is not empty (`lines_eq_pieceLines`, `lines_join`).  Each stands in the text where a line
feed ends the one before it (`isInfix_feed_cons`).
-/
namespace TypedStubs.Text

variable {cs : List Char} {pieces : List String}

/-- Characters without the carriage return at their end, if there is one. -/
def dropReturn (cs : List Char) : List Char := if cs.getLast? = some '\r' then cs.dropLast else cs

/-- The lines that pieces between line feeds make. -/
def pieceLines : List String → List String
  | [] => []
  | [last] => if last = "" then [] else [last]
  | piece :: rest => String.ofList (dropReturn piece.toList) :: pieceLines rest

theorem lineChars_cons {c d : Char} (hc : c ≠ '\n') (hd : d ≠ '\n') {line : List Char}
    {more : List (List Char)} (h : lineChars (d :: cs) = line :: more) :
    lineChars (c :: d :: cs) = (c :: line) :: more := by
  rw [lineChars, h]
  · exact hc
  · exact fun _ _ heq => hd (List.cons.inj heq).1

/-- A line feed ends the first line. -/
theorem lineChars_append (h : '\n' ∉ cs) (rest : List Char) :
    lineChars (cs ++ '\n' :: rest) = dropReturn cs :: lineChars rest := by
  induction cs with
  | nil => rfl
  | cons c cs ih =>
    obtain ⟨hc, hcs⟩ := not_or.1 (mt List.mem_cons.2 h)
    cases cs with
    | nil =>
      by_cases hreturn : c = '\r'
      · subst hreturn
        rfl
      · have hlast : dropReturn [c] = [c] := if_neg (by simpa using hreturn)
        rw [hlast, List.singleton_append, lineChars, lineChars]
        · exact Ne.symm hc
        · exact fun _ heq _ => hreturn heq
    | cons d cs =>
      have hd : d ≠ '\n' := fun heq => hcs (heq ▸ List.mem_cons_self)
      have hdrop : dropReturn (c :: d :: cs) = c :: dropReturn (d :: cs) := by
        simp only [dropReturn, List.getLast?_cons_cons, List.dropLast_cons_cons]
        split <;> rfl
      rw [hdrop]
      exact lineChars_cons (Ne.symm hc) hd (ih hcs)

theorem lineChars_of_not_mem (h : '\n' ∉ cs) : lineChars cs = if cs = [] then [] else [cs] := by
  induction cs with
  | nil => rfl
  | cons c cs ih =>
    obtain ⟨hc, hcs⟩ := not_or.1 (mt List.mem_cons.2 h)
    have hrest := ih hcs
    cases cs with
    | nil =>
      rw [lineChars, hrest]
      · rfl
      · exact Ne.symm hc
      · simp
    | cons d cs =>
      have hd : d ≠ '\n' := fun heq => hcs (heq ▸ List.mem_cons_self)
      exact lineChars_cons (Ne.symm hc) hd hrest

theorem lines_join (h : ∀ piece ∈ pieces, '\n' ∉ piece.toList) :
    lines (join "\n" pieces) = pieceLines pieces := by
  induction pieces with
  | nil => rfl
  | cons piece rest ih =>
    obtain ⟨hpiece, hrest⟩ := List.forall_mem_cons.1 h
    cases rest with
    | nil =>
      have hjoin : join "\n" [piece] = piece := by simp [join]
      rw [hjoin, lines, lineChars_of_not_mem hpiece, pieceLines]
      by_cases hempty : piece = "" <;> simp [hempty]
    | cons second rest =>
      rw [join_cons_cons, lines, String.toList_append, String.toList_append, List.append_assoc]
      rw [show ("\n" : String).toList = ['\n'] from rfl, List.singleton_append, lineChars_append hpiece,
        List.map_cons, pieceLines]
      · exact congrArg (_ :: ·) (ih hrest)
      · simp

theorem lines_eq_pieceLines (s : String) : lines s = pieceLines (splitOn '\n' s) := by
  have hlines : lines (join "\n" (splitOn '\n' s)) = pieceLines (splitOn '\n' s) :=
    lines_join fun piece hpiece => not_mem_of_mem_splitOn hpiece
  rwa [show ("\n" : String) = String.singleton '\n' from rfl, join_splitOn] at hlines

theorem isAllBlank_dropReturn (s : String) :
    isAllBlank (String.ofList (dropReturn s.toList)) = isAllBlank s := by
  have hreturn : isBlank '\r' = true := by decide
  rw [dropReturn]
  split
  · next hlast =>
    obtain ⟨front, hfront⟩ := List.getLast?_eq_some_iff.1 hlast
    simp [isAllBlank, hfront, hreturn]
  · rw [String.ofList_toList]

/-- What stands in front of a text that is not empty does not change its end. -/
theorem dropReturn_append (front : List Char) {cs : List Char} (h : cs ≠ []) :
    dropReturn (front ++ cs) = front ++ dropReturn cs := by
  rw [dropReturn, dropReturn, List.getLast?_append_of_ne_nil front h, List.dropLast_append_of_ne_nil h]
  split <;> rfl

theorem subset_dropReturn (cs : List Char) : dropReturn cs ⊆ cs := by
  rw [dropReturn]
  split
  · exact List.dropLast_subset cs
  · exact List.Subset.refl cs

theorem forall_mem_pieceLines {c : Char} (h : ∀ piece ∈ pieces, c ∉ piece.toList) :
    ∀ line ∈ pieceLines pieces, c ∉ line.toList := by
  fun_induction pieceLines pieces with
  | case1 => exact h
  | case2 => simp
  | case3 last => exact h
  | case4 piece rest _ ih =>
    obtain ⟨hpiece, hrest⟩ := List.forall_mem_cons.1 h
    refine List.forall_mem_cons.2 ⟨fun hmem => hpiece (subset_dropReturn _ ?_), ih hrest⟩
    rwa [String.toList_ofList] at hmem

/-- A line holds no line feed. -/
theorem not_mem_of_mem_lines {s line : String} (h : line ∈ lines s) : '\n' ∉ line.toList := by
  rw [lines_eq_pieceLines] at h
  exact forall_mem_pieceLines (fun piece hpiece => not_mem_of_mem_splitOn hpiece) line h

/-! ### One line -/

theorem lineChars_ne_nil (h : cs ≠ []) : lineChars cs ≠ [] := by
  fun_cases lineChars cs with
  | case1 => exact absurd rfl h
  | _ => simp

/-- A text without line feeds is its only line. -/
theorem lines_of_not_mem {s : String} (h : '\n' ∉ s.toList) (hne : s ≠ "") : lines s = [s] := by
  rw [lines, lineChars_of_not_mem h, if_neg (by simpa using hne)]
  simp

/-- A text that is one line is that line if it does not end with a line feed. -/
theorem eq_of_lines {s line : String} (h : lines s = [line]) (hlast : s.toList.getLast? ≠ some '\n') :
    s = line := by
  have hfeed : '\n' ∉ s.toList := by
    intro hmem
    obtain ⟨piece, rest, hsplit, hpiece⟩ := List.eq_append_cons_of_mem hmem
    rw [lines, hsplit, lineChars_append hpiece, List.map_cons] at h
    have hnone : lineChars rest = [] := List.map_eq_nil_iff.1 (List.cons.inj h).2
    by_cases hrest : rest = []
    · exact hlast (by simp [hsplit, hrest])
    · exact lineChars_ne_nil hrest hnone
  have hne : s ≠ "" := by
    rintro rfl
    cases h
  rw [lines_of_not_mem hfeed hne] at h
  exact (List.cons.inj h).1

/-! ### Where lines stand -/

theorem isPrefix_of_lineChars {line : List Char} {more : List (List Char)} (h : lineChars cs = line :: more) :
    line <+: cs := by
  fun_induction lineChars cs generalizing line more with
  | case1 => cases h
  | case2 cs ih | case3 cs ih =>
    obtain ⟨rfl, -⟩ := List.cons.inj h
    exact List.nil_prefix
  | case4 c cs hfeed hreturn hnone ih =>
    obtain ⟨rfl, -⟩ := List.cons.inj h
    exact ⟨cs, rfl⟩
  | case5 c cs hfeed hreturn first rest hrest ih =>
    obtain ⟨rfl, -⟩ := List.cons.inj h
    exact (List.prefix_cons_inj c).2 (ih hrest)

/-- Every line but the first stands behind a line feed. -/
theorem isInfix_feed_cons (cs : List Char) : ∀ line ∈ (lineChars cs).tail, '\n' :: line <:+: cs := by
  have hbelow : ∀ cs : List Char, (∀ line ∈ (lineChars cs).tail, '\n' :: line <:+: cs) →
      ∀ line ∈ lineChars cs, '\n' :: line <:+: '\n' :: cs := by
    intro cs ih line hline
    cases hcs : lineChars cs with
    | nil => simp [hcs] at hline
    | cons first more =>
      rw [hcs] at hline ih
      rcases List.mem_cons.1 hline with rfl | hline
      · exact ((List.prefix_cons_inj '\n').2 (isPrefix_of_lineChars hcs)).isInfix
      · exact (ih line hline).trans (List.suffix_cons _ _).isInfix
  fun_induction lineChars cs with
  | case1 => simp
  | case2 cs ih => exact hbelow cs ih
  | case3 cs ih =>
    exact fun line hline => (hbelow cs ih line hline).trans (List.suffix_cons _ _).isInfix
  | case4 => simp
  | case5 c cs hfeed hreturn first rest hrest ih =>
    rw [hrest] at ih
    exact fun line hline => (ih line hline).trans (List.suffix_cons _ _).isInfix

end TypedStubs.Text
