import Mathlib.Data.List.Forall2
import Mathlib.Data.List.TakeWhile
import TypedStubs.Docstring.Margin
import TypedStubs.Proofs.Text.Lines
import TypedStubs.Proofs.Text.Spaced

/-! # What cleaning a docstring keeps

Cleaning looks at the lines after the first only as far as they differ: blanks that are put in front of all of them
are taken away again (`clean_deepen`).  Of the lines that are not blank it keeps everything but the indentation that
they have in common and the blanks at their ends, and it leaves no blank line at either end (`clean_ignores_depth`).
-/
namespace TypedStubs.Docstring

variable {w line : String} {ls : List String} {width : Nat}

/-! ### Deeper blocks -/

/-- Whether lines can be indented by `w`. -/
structure IsIndentation (w : String) : Prop where
  /-- It is made of blanks. -/
  blank : ∀ c ∈ w.toList, Text.isBlank c = true
  /-- It ends no line. -/
  no_feed : '\n' ∉ w.toList

/-- A line with `w` in front of it, unless it is blank. -/
def deepenLine (w line : String) : String := if Text.isAllBlank line then line else w ++ line

/-- A text with `w` in front of each line after the first that is not blank. -/
def deepen (w text : String) : String :=
  match Text.splitOn '\n' text with
  | [] => ""
  | first :: rest => Text.join "\n" (first :: rest.map (deepenLine w))

theorem deepenLine_of_blank (h : Text.isAllBlank line = true) : deepenLine w line = line := if_pos h

theorem deepenLine_of_not_blank (h : Text.isAllBlank line = false) : deepenLine w line = w ++ line :=
  if_neg (by simp [h])

theorem isAllBlank_deepenLine (w line : String) :
    Text.isAllBlank (deepenLine w line) = Text.isAllBlank line := by
  cases h : Text.isAllBlank line with
  | true => rw [deepenLine_of_blank h, h]
  | false => rw [deepenLine_of_not_blank h, Text.isAllBlank_append, h, Bool.and_false]

/-- A carriage return that ends a line with its line feed stands behind what is put in front of the line. -/
theorem pieceLines_deepen (w : String) (pieces : List String) :
    Text.pieceLines (pieces.map (deepenLine w)) = (Text.pieceLines pieces).map (deepenLine w) := by
  have hempty : deepenLine w "" = "" := deepenLine_of_blank rfl
  fun_induction Text.pieceLines pieces with
  | case1 => rfl
  | case2 => simp [Text.pieceLines, hempty]
  | case3 last hlast =>
    have hne : deepenLine w last ≠ "" := by
      cases hblank : Text.isAllBlank last with
      | true => rwa [deepenLine_of_blank hblank]
      | false => simp [deepenLine_of_not_blank hblank, hlast]
    simp [Text.pieceLines, hne]
  | case4 piece rest hrest ih =>
    have hpiece : String.ofList (Text.dropReturn (deepenLine w piece).toList) =
        deepenLine w (String.ofList (Text.dropReturn piece.toList)) := by
      have hsame := Text.isAllBlank_dropReturn piece
      cases hblank : Text.isAllBlank piece with
      | true => rw [deepenLine_of_blank hblank, deepenLine_of_blank (hsame.trans hblank)]
      | false =>
        have hne : piece.toList ≠ [] := fun hnil => by simp [Text.isAllBlank, hnil] at hblank
        rw [deepenLine_of_not_blank hblank, deepenLine_of_not_blank (hsame.trans hblank),
          String.toList_append, Text.dropReturn_append _ hne, String.ofList_append, String.ofList_toList]
    rw [List.map_cons, List.map_cons, Text.pieceLines, ih, hpiece]
    simpa using hrest

theorem indentOf_append (hw : ∀ c ∈ w.toList, Text.isBlank c = true) (line : String) :
    indentOf (w ++ line) = w.length + indentOf line := by
  rw [indentOf, String.toList_append, List.takeWhile_append_of_pos hw, List.length_append,
    String.length_toList, indentOf]

theorem dedent_append (hw : ∀ c ∈ w.toList, Text.isBlank c = true) (width : Nat) (line : String) :
    dedent (w.length + width) (w ++ line) = dedent width line := by
  rw [dedent, indentOf_append hw, Nat.add_min_add_left, String.toList_append, ← String.length_toList,
    List.drop_length_add_append, dedent]

/-! ### The margin -/

/-- The lines that are not blank. -/
def filled (ls : List String) : List String := ls.filter (!Text.isAllBlank ·)

theorem mem_filled : line ∈ filled ls ↔ line ∈ ls ∧ Text.isAllBlank line = false := by
  simp [filled]

theorem filled_append (front rest : List String) : filled (front ++ rest) = filled front ++ filled rest :=
  List.filter_append front rest

/-- What makes no line blank, and no blank line another one, keeps the other lines in their places. -/
theorem filled_map {f : String → String} (hf : ∀ line, Text.isAllBlank (f line) = Text.isAllBlank line)
    (ls : List String) : filled (ls.map f) = (filled ls).map f := by
  rw [filled, filled, List.filter_map]
  exact congrArg (List.map f) (List.filter_congr fun line _ => congrArg not (hf line))

/-- Whether a number is the least indentation of the lines that are not blank. -/
structure IsMargin (width : Nat) (ls : List String) : Prop where
  /-- All these lines have it. -/
  le : ∀ line ∈ filled ls, width ≤ indentOf line
  /-- One of them has no more. -/
  attained : ∃ line ∈ filled ls, indentOf line = width

theorem isMargin_iff : IsMargin width ls ↔ ((filled ls).map indentOf).min? = some width := by
  rw [List.min?_eq_some_iff, List.forall_mem_map, List.mem_map]
  exact ⟨fun h => ⟨h.attained, h.le⟩, fun h => ⟨h.2, h.1⟩⟩

theorem IsMargin.margin_eq (h : IsMargin width ls) : margin ls = width := by
  rw [margin, ← filled, isMargin_iff.1 h, Option.getD_some]

theorem isMargin_margin (h : filled ls ≠ []) : IsMargin (margin ls) ls := by
  rw [isMargin_iff, margin, ← filled]
  cases hmin : ((filled ls).map indentOf).min? with
  | none => exact absurd (List.map_eq_nil_iff.1 (List.min?_eq_none_iff.1 hmin)) h
  | some width => rfl

theorem filled_deepen (w : String) (ls : List String) :
    filled (ls.map (deepenLine w)) = (filled ls).map (w ++ ·) := by
  rw [filled_map (isAllBlank_deepenLine w)]
  exact List.map_congr_left fun line hmem => deepenLine_of_not_blank (mem_filled.1 hmem).2

theorem IsMargin.deepen (hw : ∀ c ∈ w.toList, Text.isBlank c = true) (h : IsMargin width ls) :
    IsMargin (w.length + width) (ls.map (deepenLine w)) where
  le := by
    rw [filled_deepen]
    refine List.forall_mem_map.2 fun line hmem => ?_
    rw [indentOf_append hw]
    exact Nat.add_le_add_left (h.le line hmem) _
  attained := by
    obtain ⟨line, hmem, hindent⟩ := h.attained
    rw [filled_deepen]
    exact ⟨_, List.mem_map_of_mem hmem, by rw [indentOf_append hw, hindent]⟩

/-- A margin that is deeper by `w` takes just `w` more away. -/
theorem cleanLine_deepen (hw : ∀ c ∈ w.toList, Text.isBlank c = true) (hmem : line ∈ ls) :
    cleanLine (margin (ls.map (deepenLine w))) (deepenLine w line) = cleanLine (margin ls) line := by
  cases hblank : Text.isAllBlank line with
  | true => simp [cleanLine, deepenLine_of_blank hblank, hblank]
  | false =>
    have hfilled : filled ls ≠ [] := List.ne_nil_of_mem (mem_filled.2 ⟨hmem, hblank⟩)
    rw [((isMargin_margin hfilled).deepen hw).margin_eq, cleanLine, cleanLine, isAllBlank_deepenLine,
      deepenLine_of_not_blank hblank, dedent_append hw]

theorem cleanLines_deepen (hw : ∀ c ∈ w.toList, Text.isBlank c = true) (first : String) (rest : List String) :
    cleanLines (first :: rest.map (deepenLine w)) = cleanLines (first :: rest) := by
  rw [cleanLines, cleanLines, List.map_map]
  refine congrArg (fun lines => trimLines (_ :: lines)) (List.map_congr_left fun line hmem => ?_)
  exact cleanLine_deepen hw hmem

/-- **The depth of the block around a docstring is taken away.** -/
theorem clean_deepen (hw : IsIndentation w) (raw : String) : clean (deepen w raw) = clean raw := by
  obtain ⟨first, rest, hsplit⟩ := List.exists_cons_of_ne_nil (Text.splitOn_ne_nil '\n' raw)
  have hpieces : ∀ piece ∈ first :: rest, '\n' ∉ piece.toList := fun piece hpiece =>
    Text.not_mem_of_mem_splitOn (hsplit ▸ hpiece)
  have hdeeper : ∀ piece ∈ first :: rest.map (deepenLine w), '\n' ∉ piece.toList := by
    obtain ⟨hfirst, hrest⟩ := List.forall_mem_cons.1 hpieces
    refine List.forall_mem_cons.2 ⟨hfirst, List.forall_mem_map.2 fun piece hpiece => ?_⟩
    rw [deepenLine]
    split
    · exact hrest piece hpiece
    · simpa using ⟨hw.no_feed, hrest piece hpiece⟩
  rw [clean, clean, Text.lines_eq_pieceLines raw, deepen, hsplit]
  simp only [Text.lines_join hdeeper]
  cases rest with
  | nil => rfl
  | cons second rest =>
    have hlines := pieceLines_deepen w (second :: rest)
    simp only [List.map_cons, Text.pieceLines] at hlines ⊢
    rw [hlines, cleanLines_deepen hw.blank]

/-! ### What is kept -/

/-- Whether `kept` is what a line is without its first `width` characters, which are blank, and without the blanks
at its end. -/
structure Keeps (width : Nat) (line kept : String) : Prop where
  /-- Nothing else is taken away. -/
  around : ∃ lead trail, line = lead ++ kept ++ trail ∧ lead.length = width ∧
    Text.isAllBlank lead = true ∧ Text.isAllBlank trail = true
  /-- No blank is left at the end. -/
  back : ∀ c ∈ kept.toList.getLast?, Text.isBlank c = false
  /-- The indentation is less by `width`. -/
  indent : indentOf line = width + indentOf kept

theorem indentOf_append_of_not_blank (h : Text.isAllBlank line = false) (trail : String) :
    indentOf (line ++ trail) = indentOf line := by
  have hlength : (line.toList.takeWhile Text.isBlank).length ≠ line.toList.length := fun heq => by
    have hall := List.takeWhile_eq_self_iff.1 ((List.takeWhile_prefix Text.isBlank).eq_of_length heq)
    exact absurd (Text.isAllBlank_iff.2 hall) (by simp [h])
  rw [indentOf, String.toList_append, List.takeWhile_append, if_neg hlength, indentOf]

/-- A line is the blanks that are taken from its front, and what is left. -/
theorem append_dedent (width : Nat) (line : String) : ∃ lead, line = lead ++ dedent width line ∧
    lead.length = min width (indentOf line) ∧ Text.isAllBlank lead = true := by
  have htake : line.toList.take (min width (indentOf line)) =
      (line.toList.takeWhile Text.isBlank).take (min width (indentOf line)) := by
    conv_lhs => rw [← List.takeWhile_append_dropWhile (p := Text.isBlank) (l := line.toList)]
    exact List.take_append_of_le_length (Nat.min_le_right _ _)
  refine ⟨String.ofList (line.toList.take (min width (indentOf line))), ?_, ?_,
    Text.isAllBlank_iff.2 fun c hc => ?_⟩
  · rw [dedent, ← String.ofList_append, List.take_append_drop, String.ofList_toList]
  · rw [String.length_ofList, htake, List.length_take]
    exact Nat.min_eq_left (Nat.min_le_right _ _)
  · rw [String.toList_ofList, htake] at hc
    exact List.mem_takeWhile_imp (List.mem_of_mem_take hc)

theorem cleanLine_of_blank (h : Text.isAllBlank line = true) : cleanLine width line = "" := if_pos h

theorem cleanLine_of_not_blank (h : Text.isAllBlank line = false) :
    cleanLine width line = Text.trimEnd (dedent width line) :=
  if_neg (by simp [h])

theorem keeps_cleanLine (width : Nat) (h : Text.isAllBlank line = false) :
    Keeps (min width (indentOf line)) line (cleanLine width line) := by
  rw [cleanLine_of_not_blank h]
  obtain ⟨lead, hline, hlength, hlead⟩ := append_dedent width line
  obtain ⟨trail, hdedent, htrail⟩ := Text.trimEndChars_append (dedent width line).toList
  have htrail : Text.isAllBlank (String.ofList trail) = true :=
    Text.isAllBlank_iff.2 (by simpa using htrail)
  have hdedent : dedent width line = Text.trimEnd (dedent width line) ++ String.ofList trail := by
    rw [← String.toList_inj]
    simpa using hdedent
  have hkept : Text.isAllBlank (Text.trimEnd (dedent width line)) = false := by
    rw [hline, hdedent, Text.isAllBlank_append, Text.isAllBlank_append, hlead, htrail] at h
    simpa using h
  refine ⟨⟨lead, String.ofList trail, ?_, hlength, hlead, htrail⟩, ?_, ?_⟩
  · rw [String.append_assoc, ← hdedent, ← hline]
  · rw [Text.toList_trimEnd]
    exact Text.forall_getLast?_dropWhile Text.isBlank _
  · conv_lhs => rw [hline, hdedent]
    rw [indentOf_append (Text.isAllBlank_iff.1 hlead), hlength, indentOf_append_of_not_blank hkept]

theorem Keeps.isAllBlank_eq {kept : String} (h : Keeps width line kept) :
    Text.isAllBlank kept = Text.isAllBlank line := by
  obtain ⟨lead, trail, rfl, -, hlead, htrail⟩ := h.around
  simp [Text.isAllBlank_append, hlead, htrail]

theorem isAllBlank_cleanLine (width : Nat) (line : String) :
    Text.isAllBlank (cleanLine width line) = Text.isAllBlank line := by
  cases h : Text.isAllBlank line with
  | true => rw [cleanLine_of_blank h]; rfl
  | false => rw [(keeps_cleanLine width h).isAllBlank_eq, h]

theorem isAllBlank_trimStart (line : String) :
    Text.isAllBlank (Text.trimStart line) = Text.isAllBlank line := by
  have hfront : (line.toList.takeWhile Text.isBlank).all Text.isBlank = true :=
    List.all_eq_true.2 fun c hc => List.mem_takeWhile_imp hc
  rw [Text.isAllBlank, Text.isAllBlank, Text.toList_trimStart, Text.trimStartChars,
    ← List.takeWhile_append_dropWhile (p := Text.isBlank) (l := line.toList), List.all_append, hfront]
  simp

theorem filled_dropWhile (ls : List String) : filled (ls.dropWhile Text.isAllBlank) = filled ls := by
  have hfront : filled (ls.takeWhile Text.isAllBlank) = [] :=
    List.filter_eq_nil_iff.2 fun line hmem => by simp [List.mem_takeWhile_imp hmem]
  conv_rhs => rw [← List.takeWhile_append_dropWhile (p := Text.isAllBlank) (l := ls)]
  rw [filled_append, hfront, List.nil_append]

theorem filled_reverse (ls : List String) : filled ls.reverse = (filled ls).reverse :=
  List.filter_reverse

theorem filled_trimLines (ls : List String) : filled (trimLines ls) = filled ls := by
  rw [trimLines, filled_reverse, filled_dropWhile, filled_reverse, filled_dropWhile, List.reverse_reverse]

theorem filled_cleanLines (ls : List String) : filled (cleanLines ls) =
    (filled (ls.take 1)).map Text.trimStart ++ (filled (ls.drop 1)).map (cleanLine (margin (ls.drop 1))) := by
  cases ls with
  | nil => rfl
  | cons first rest =>
    rw [cleanLines, filled_trimLines, ← List.singleton_append, filled_append,
      filled_map (isAllBlank_cleanLine _), ← List.map_singleton (f := Text.trimStart),
      filled_map isAllBlank_trimStart]
    rfl

theorem not_mem_cleanLine {c : Char} (h : c ∉ line.toList) : c ∉ (cleanLine width line).toList := by
  cases hblank : Text.isAllBlank line with
  | true => simp [cleanLine_of_blank hblank]
  | false =>
    obtain ⟨lead, trail, hline, -⟩ := (keeps_cleanLine width hblank).around
    rw [hline] at h
    simp at h
    exact h.2.1

theorem mem_of_mem_trimLines (h : line ∈ trimLines ls) : line ∈ ls :=
  (List.dropWhile_suffix _).subset (List.mem_reverse.1 ((List.dropWhile_suffix _).subset (List.mem_reverse.1 h)))

/-- A cleaned line holds no line feed. -/
theorem no_feed_of_mem_cleanLines {raw : String} (h : line ∈ cleanLines (Text.lines raw)) :
    '\n' ∉ line.toList := by
  have hlines : ∀ line ∈ Text.lines raw, '\n' ∉ line.toList := fun _ => Text.not_mem_of_mem_lines
  cases hraw : Text.lines raw with
  | nil =>
    rw [hraw] at h
    cases h
  | cons first rest =>
    rw [hraw] at h hlines
    obtain ⟨hfirst, hrest⟩ := List.forall_mem_cons.1 hlines
    obtain rfl | hmem := List.mem_cons.1 (mem_of_mem_trimLines h)
    · rw [Text.toList_trimStart]
      exact fun hfeed => hfirst ((List.dropWhile_suffix _).subset hfeed)
    · obtain ⟨other, hother, rfl⟩ := List.mem_map.1 hmem
      exact not_mem_cleanLine (hrest other hother)

/-- What is cleaned is nothing, or its pieces between line feeds are the cleaned lines. -/
theorem splitOn_clean (raw : String) : cleanLines (Text.lines raw) = [] ∧ clean raw = "" ∨
    Text.splitOn '\n' (clean raw) = cleanLines (Text.lines raw) := by
  by_cases hnil : cleanLines (Text.lines raw) = []
  · exact .inl ⟨hnil, by rw [clean, hnil]; rfl⟩
  · exact .inr (Text.splitOn_join hnil fun line hmem => no_feed_of_mem_cleanLines hmem)

theorem filled_splitOn_clean (raw : String) :
    filled (Text.splitOn '\n' (clean raw)) = filled (cleanLines (Text.lines raw)) := by
  obtain ⟨hnil, hclean⟩ | hsplit := splitOn_clean raw
  · rw [hnil, hclean]
    rfl
  · rw [hsplit]

/-- Cleaned lines neither begin nor end with a blank one. -/
theorem ends_cleanLines (ls : List String) : (∀ line ∈ (cleanLines ls).head?, Text.isAllBlank line = false) ∧
    ∀ line ∈ (cleanLines ls).getLast?, Text.isAllBlank line = false := by
  cases ls with
  | nil => exact ⟨by simp [cleanLines], by simp [cleanLines]⟩
  | cons first rest =>
    exact ⟨Text.forall_head?_dropWhile_dropWhile _ _, Text.forall_getLast?_dropWhile _ _⟩

theorem filled_eq_nil_of_cleanLines (h : cleanLines ls = []) : filled ls = [] := by
  have hfilled := filled_cleanLines ls
  rw [h] at hfilled
  obtain ⟨hfirst, hrest⟩ := List.append_eq_nil_iff.1 hfilled.symm
  rw [← List.take_append_drop 1 ls, filled_append, List.map_eq_nil_iff.1 hfirst, List.map_eq_nil_iff.1 hrest]
  rfl

/-- **Cleaning does not see how deep the block around a docstring is indented.**  However much is put in front of the
lines after the first, the result is the same.  Its lines that are not blank are those of the docstring in order: the
first line without the blanks in front, and each other one without the indentation that all these have in common
and without the blanks at its end.  Neither the first nor the last line of the result is blank, unless there is
nothing else. -/
theorem clean_ignores_depth (raw : String) :
    (∀ w, IsIndentation w → clean (deepen w raw) = clean raw) ∧
      (∃ width kept, filled (Text.splitOn '\n' (clean raw)) =
          (filled ((Text.lines raw).take 1)).map Text.trimStart ++ kept ∧
        List.Forall₂ (Keeps width) (filled ((Text.lines raw).drop 1)) kept ∧
        (kept = [] ∨ IsMargin width ((Text.lines raw).drop 1))) ∧
      (clean raw = "" ∧ filled (Text.lines raw) = [] ∨
        (∀ line ∈ (Text.splitOn '\n' (clean raw)).head?, Text.isAllBlank line = false) ∧
          ∀ line ∈ (Text.splitOn '\n' (clean raw)).getLast?, Text.isAllBlank line = false) := by
  refine ⟨fun w hw => clean_deepen hw raw, ?_, ?_⟩
  · let rest := (Text.lines raw).drop 1
    refine ⟨margin rest, _, (filled_splitOn_clean raw).trans (filled_cleanLines _), ?_, ?_⟩
    · rw [List.forall₂_map_right_iff, List.forall₂_same]
      intro line hmem
      have hle := (isMargin_margin (List.ne_nil_of_mem hmem)).le line hmem
      have hkeeps := keeps_cleanLine (margin rest) (mem_filled.1 hmem).2
      rwa [Nat.min_eq_left hle] at hkeeps
    · exact (eq_or_ne (filled rest) []).imp (fun hnil => by rw [hnil]; rfl) isMargin_margin
  · obtain ⟨hnil, hclean⟩ | hsplit := splitOn_clean raw
    · exact .inl ⟨hclean, filled_eq_nil_of_cleanLines hnil⟩
    · rw [hsplit]
      exact .inr (ends_cleanLines _)

/-- A tab and a wide space in front of lines that are indented by a no-break space. -/
theorem clean_ignores_depth_mixed : IsIndentation "\u2003\t" ∧
    clean "Sum.\n\u2003\t  \u00a0x\n\n\u2003\t  y " = clean "Sum.\n  \u00a0x\n\n  y " := by
  have hw : IsIndentation "\u2003\t" := ⟨forall_mem_of_all (by decide), by decide⟩
  have hdeeper : deepen "\u2003\t" "Sum.\n  \u00a0x\n\n  y " =
      "Sum.\n\u2003\t  \u00a0x\n\n\u2003\t  y " := by decide +kernel
  exact ⟨hw, hdeeper ▸ (clean_ignores_depth "Sum.\n  \u00a0x\n\n  y ").1 _ hw⟩

end TypedStubs.Docstring
