import TypedStubs.Proofs.Dotted
import TypedStubs.Proofs.Hint.RoundTrip
import TypedStubs.Proofs.Import.Reading
import TypedStubs.Proofs.Signature.EqualsSign
import TypedStubs.Proofs.Stub.Place
import TypedStubs.Proofs.Syntax.Operand
import TypedStubs.Proofs.Syntax.Parameter

/-! # Hints that are written as expressions

The reader of hints takes more than an expression may be: a generic without arguments, names that are keywords,
strings of any contents.  A hint is writable if its names are paths that start with no keyword, its generics have
arguments and its literals are values (`Hint.isWritable`).  Then its text is operands with bars between them, so it
is read as an expression wherever an annotation, a base class or a named argument is read (`spells_hint`,
`spells_argument`, `spells_given`).  With brackets and quotation marks in pairs, it hides no default
(`balanced_of_isWritable`).
-/
namespace TypedStubs

open Syntax

namespace Hint

/-! ### Writable hints -/

/-- Whether a text is a path that an expression may start with. -/
def isReference (path : String) : Bool := Import.isPath path && !reservedWords.contains (Dotted.head path)

/-- The kind of the one token that characters make. -/
def tokenKind? : List Char → Option TokenKind
  | [] => none
  | c :: u =>
    match lexeme c u with
    | some (kind, []) => if startsToken c then some kind else none
    | _ => none

/-- Whether characters are one number. -/
def isNumber (cs : List Char) : Bool := tokenKind? cs == some .integer || tokenKind? cs == some .float

/-- Whether a literal is a value: three dots, a number, perhaps with a sign, or a string that ends where its
quotation mark stands again. -/
def isValue (text : String) : Bool :=
  match text.toList with
  | [] => false
  | c :: rest =>
    if c == '\'' || c == '"' then
      tokenKind? (c :: rest) == some (.string []) && rest.getLast? == some c && !rest.dropLast.contains c
    else
      (c :: rest).all (!ParamText.signs.contains ·) &&
        (text == "..." || isNumber (c :: rest) || c == '-' && rest.head?.any (·.isDigit) && isNumber rest)

mutual
/-- Whether a hint is written as an expression. -/
def isWritable : Hint → Bool
  | .name path => isReference path
  | .subscript head args => isReference head && !args.isEmpty && areWritable args
  | .list items => areWritable items
  | .union members => !members.isEmpty && areWritable members
  | .literal text => isValue text

/-- Whether all hints of a list are written as expressions. -/
def areWritable : List Hint → Bool
  | [] => true
  | h :: hs => isWritable h && areWritable hs
end

theorem areWritable_iff {hs : List Hint} : areWritable hs = true ↔ ∀ h ∈ hs, h.isWritable = true := by
  induction hs with
  | nil => simp [areWritable]
  | cons h hs ih => simp [areWritable, ih]

/-! ### Tokens of literals -/

theorem isLexeme_of_tokenKind? {cs : List Char} {kind : TokenKind} (h : tokenKind? cs = some kind) :
    IsLexeme kind cs := by
  unfold tokenKind? at h
  split at h
  · cases h
  · next c u =>
    split at h
    · next kind' hread =>
      obtain ⟨hstart, heq⟩ := Option.ite_none_right_eq_some.1 h
      obtain rfl := Option.some.inj heq
      exact ⟨c, u, rfl, hstart, hread⟩
    · cases h

theorem exists_isLexeme_of_isNumber {cs : List Char} (h : isNumber cs = true) :
    ∃ kind, IsValue kind ∧ IsLexeme kind cs := by
  simp only [isNumber, Bool.or_eq_true, beq_iff_eq] at h
  rcases h with h | h
  · exact ⟨_, .inl rfl, isLexeme_of_tokenKind? h⟩
  · exact ⟨_, .inr (.inl rfl), isLexeme_of_tokenKind? h⟩

/-- The ways in which a literal is a value. -/
theorem isValue_cases {text : String} (h : isValue text = true) :
    (∃ kind, IsValue kind ∧ IsLexeme kind text.toList) ∨ text = "..." ∨
      ∃ kind d rest, IsValue kind ∧ text.toList = '-' :: d :: rest ∧ d.isDigit = true ∧ IsLexeme kind (d :: rest) := by
  unfold isValue at h
  split at h
  · cases h
  · next c rest htext =>
    rw [htext]
    split at h
    · simp only [Bool.and_eq_true, beq_iff_eq] at h
      exact .inl ⟨_, .inr (.inr rfl), isLexeme_of_tokenKind? h.1.1⟩
    · simp only [Bool.and_eq_true, Bool.or_eq_true, beq_iff_eq] at h
      rcases h.2 with (rfl | hnumber) | ⟨⟨rfl, hdigit⟩, hnumber⟩
      · exact .inr (.inl rfl)
      · exact .inl (exists_isLexeme_of_isNumber hnumber)
      · obtain ⟨kind, hkind, hlexeme⟩ := exists_isLexeme_of_isNumber hnumber
        cases rest with
        | nil => cases hdigit
        | cons d rest => exact .inr (.inr ⟨kind, d, rest, hkind, rfl, hdigit, hlexeme⟩)

end Hint

namespace Syntax

theorem piece_value {kind : TokenKind} {cs : List Char} (h : IsLexeme kind cs) (hkind : IsValue kind) (depth : Nat) :
    Piece depth cs [⟨⟨kind, cs⟩, []⟩] := by
  refine piece_lexeme h ?_ depth
  rcases hkind with rfl | rfl | rfl <;> exact ⟨rfl, fun _ => rfl⟩

theorem lexeme_minus {d : Char} (hd : d.isDigit = true) (n : List Char) :
    lexeme '-' (d :: n) = some (.symbol, d :: n) := by
  refine lexeme_sign (by decide) (by decide) (by decide) (find_symbol (by decide) fun s hs hc => ?_)
  have hlonger : ∀ s ∈ symbols, s.head? = some '-' → s = ['-'] ∨ s[1]? = some '=' ∨ s[1]? = some '>' := by decide
  refine (hlonger s hs hc).imp_right fun hsecond => ?_
  -- no digit is a sign
  rcases hsecond with hsecond | hsecond
  · exact ⟨_, hsecond, by rintro ⟨⟩; exact absurd hd (by decide)⟩
  · exact ⟨_, hsecond, by rintro ⟨⟩; exact absurd hd (by decide)⟩

/-- A number behind a minus sign. -/
theorem piece_negative {kind : TokenKind} {d : Char} {cs : List Char} (h : IsLexeme kind (d :: cs))
    (hkind : IsValue kind) (hd : d.isDigit = true) (depth : Nat) :
    Piece depth ('-' :: d :: cs) [sign "-" [], ⟨⟨kind, d :: cs⟩, []⟩] where
  ne_nil := List.cons_ne_nil _ _
  chars := by simp [sign, spanChars]
  scans := fun _ hgap =>
    scans_lexeme (u := []) (by decide) hgap ((piece_value h hkind depth).scans (isGap_nil depth)) fun n _ =>
      lexeme_minus hd (cs ++ n)
  netting := (netting_sign (by decide) [] 0).append (piece_value h hkind depth).netting

/-! ### Operands with bars between them -/

/-- A text of operands with bars between them. -/
def IsBarred (text : String) : Prop :=
  ∃ uss, uss ≠ [] ∧ (∀ us ∈ uss, IsOperand us) ∧ ∀ depth, Piece depth text.toList (joined "|" [' '] uss)

theorem IsOperand.isBarred {us : List Token} {text : String} (h : IsOperand us)
    (hpiece : ∀ depth, Piece depth text.toList us) : IsBarred text :=
  ⟨[us], List.cons_ne_nil _ _, List.forall_mem_singleton.2 h, fun depth => by
    simpa [joined, eachBehind] using hpiece depth⟩

/-- Such a text is read as one expression. -/
theorem IsBarred.exists_isWhole {text : String} (h : IsBarred text) :
    ∃ us, IsWhole us ∧ ∀ depth, Piece depth text.toList us := by
  obtain ⟨uss, hne, hoperands, hpiece⟩ := h
  exact ⟨_, isWhole_joined hne hoperands, hpiece⟩

/-- Such texts with bars between them are one. -/
theorem isBarred_join {texts : List String} (hne : texts ≠ []) (h : ∀ text ∈ texts, IsBarred text) :
    IsBarred (Text.join " | " texts) := by
  induction texts with
  | nil => exact absurd rfl hne
  | cons first rest ih =>
    obtain ⟨hfirst, hrest⟩ := List.forall_mem_cons.1 h
    cases rest with
    | nil => simpa [Text.join] using hfirst
    | cons second rest =>
      obtain ⟨uss, huss, hoperands, hpiece⟩ := hfirst
      obtain ⟨vss, hvss, hmore, hbehind⟩ := ih (List.cons_ne_nil _ _) hrest
      refine ⟨uss ++ vss, List.append_ne_nil_of_left_ne_nil huss _, ?_, fun depth => ?_⟩
      · intro us hus
        exact (List.mem_append.1 hus).elim (hoperands us) (hmore us)
      · rw [joined_append _ _ huss (fun vs hvs => (hmore vs hvs).opens.ne_nil) hvss, Text.join_cons_cons]
        have htail := (hpiece depth).append_tail (separates_bar.tail (hbehind depth))
        simpa using htail

/-- Such texts as items with commas between them. -/
theorem exists_items {texts : List String} (hne : texts ≠ []) (h : ∀ text ∈ texts, IsBarred text) :
    ∃ uss, uss ≠ [] ∧ (∀ us ∈ uss, IsWhole us) ∧
      ∀ depth, Piece depth (Text.join ", " texts).toList (joined "," [] uss) := by
  obtain ⟨items, rfl, hwhole, hpiece⟩ : ∃ items : List (String × List Token), items.map (·.1) = texts ∧
      (∀ p ∈ items, IsWhole p.2) ∧ ∀ depth, ∀ p ∈ items, Piece depth p.1.toList p.2 := by
    clear hne
    induction texts with
    | nil => exact ⟨[], rfl, by simp, by simp⟩
    | cons text texts ih =>
      obtain ⟨htext, htexts⟩ := List.forall_mem_cons.1 h
      obtain ⟨us, hus, hpiece⟩ := htext.exists_isWhole
      obtain ⟨items, rfl, hwhole, hpieces⟩ := ih htexts
      exact ⟨(text, us) :: items, rfl, List.forall_mem_cons.2 ⟨hus, hwhole⟩, fun depth =>
        List.forall_mem_cons.2 ⟨hpiece depth, hpieces depth⟩⟩
  refine ⟨items.map (·.2), by simpa using hne, List.forall_mem_map.2 hwhole, fun depth => ?_⟩
  exact separates_comma.piece_joined rfl (by simpa using hne) (hpiece depth)

end Syntax

namespace Hint

/-! ### The text of a writable hint -/

theorem isBarred_value {text : String} (h : isValue text = true) : IsBarred text := by
  rcases isValue_cases h with ⟨kind, hkind, hlexeme⟩ | rfl | ⟨kind, d, rest, hkind, htext, hdigit, hlexeme⟩
  · exact (isOperand_value hkind _).isBarred (piece_value hlexeme hkind)
  · have hdots : IsSource 3 [] := ⟨.inl (by decide), by simp, by simp⟩
    exact isOperand_dots.isBarred (piece_source hdots)
  · refine (isOperand_negative hkind (d :: rest)).isBarred fun depth => ?_
    rw [htext]
    exact piece_negative hlexeme hkind hdigit depth

/-- The words of a path. -/
theorem exists_words {path : String} (h : isReference path = true) :
    ∃ w words, w ∉ reservedWords ∧ IsPath (w :: words) ∧ path.toList = pathChars (w :: words) := by
  simp only [isReference, Bool.and_eq_true, Bool.not_eq_true'] at h
  obtain ⟨hpath, hhead⟩ := h
  have hjoin := Text.join_splitOn '.' path
  obtain ⟨w, words, hsplit⟩ := List.exists_cons_of_ne_nil (Text.splitOn_ne_nil '.' path)
  have hw : Dotted.IsSimple w := Text.not_mem_of_mem_splitOn (hsplit ▸ List.mem_cons_self)
  rw [Import.isPath, hsplit] at hpath
  rw [hsplit] at hjoin
  have hcons : ∃ rest, path = Dotted.cons w rest := by
    cases words with
    | nil => exact ⟨none, by rw [← hjoin]; simp [Text.join, Dotted.cons]⟩
    | cons v words => exact ⟨some (Text.join "." (v :: words)), by rw [← hjoin, Text.join_cons_cons]; rfl⟩
  obtain ⟨rest, hrest⟩ := hcons
  rw [hrest, Dotted.head_cons hw] at hhead
  refine ⟨w, words, by simpa using hhead, ⟨List.cons_ne_nil _ _, List.all_eq_true.1 hpath⟩, ?_⟩
  rw [pathChars, ← hjoin]
  rfl

theorem isBarred_reference {path : String} (h : isReference path = true) : IsBarred path := by
  obtain ⟨w, words, hw, hpath, htext⟩ := exists_words h
  exact (isOperand_path hw words).isBarred fun depth => htext ▸ piece_path hpath depth

theorem isBarred_subscript {head : String} {texts : List String} (hhead : isReference head = true)
    (hne : texts ≠ []) (h : ∀ text ∈ texts, IsBarred text) : IsBarred (head ++ "[" ++ Text.join ", " texts ++ "]") := by
  obtain ⟨w, words, hw, hpath, htext⟩ := exists_words hhead
  obtain ⟨uss, huss, hwhole, hpiece⟩ := exists_items hne h
  refine (isOperand_subscript hw words huss hwhole).isBarred fun depth => ?_
  have htail := (piece_path hpath depth).append_tail (tail_bracketed (hpiece (depth + 1)))
  simpa [htext, inBrackets] using htail

theorem isBarred_list {texts : List String} (h : ∀ text ∈ texts, IsBarred text) :
    IsBarred ("[" ++ Text.join ", " texts ++ "]") := by
  by_cases hne : texts = []
  · subst hne
    exact isOperand_brackets.isBarred piece_brackets
  · obtain ⟨uss, huss, hwhole, hpiece⟩ := exists_items hne h
    refine (isOperand_list huss hwhole).isBarred fun depth => ?_
    have hbracketed := piece_bracketed (hpiece (depth + 1))
    simpa [inBrackets] using hbracketed

mutual
/-- **The text of a writable hint is operands with bars between them.** -/
theorem isBarred_render : ∀ {h : Hint}, h.isWritable = true → IsBarred h.render
  | .name path, h => isBarred_reference h
  | .subscript head args, h => by
    simp only [isWritable, Bool.and_eq_true, Bool.not_eq_true', List.isEmpty_eq_false_iff] at h
    exact isBarred_subscript h.1.1 (renderAll_ne_nil h.1.2) (isBarred_renderAll h.2)
  | .list items, h => isBarred_list (isBarred_renderAll h)
  | .union members, h => by
    simp only [isWritable, Bool.and_eq_true, Bool.not_eq_true', List.isEmpty_eq_false_iff] at h
    exact isBarred_join (renderAll_ne_nil h.1) (isBarred_renderAll h.2)
  | .literal text, h => isBarred_value h

theorem isBarred_renderAll : ∀ {hs : List Hint}, areWritable hs = true → ∀ text ∈ renderAll hs, IsBarred text
  | [], _ => by simp [renderAll]
  | h :: hs, hall => by
    simp only [areWritable, Bool.and_eq_true] at hall
    rw [renderAll, List.forall_mem_cons]
    exact ⟨isBarred_render hall.1, isBarred_renderAll hall.2⟩
end

end Hint

/-! ### Readings -/

namespace Syntax.IsBarred

open Rule

variable {text : String} {depth : Nat}

/-- Operands with bars between them are read to their end. -/
theorem exists_read (h : IsBarred text) (depth : Nat) {g : List Token} (hg : EndsAt (isEnd hintEnds) g) :
    ∃ us e, StartsOperand us ∧ Piece depth text.toList us ∧ (Rule.inner .full).read (fromGap [] us ++ g) = some (e, g) ∧
      textSince (fromGap [] us ++ g) g = text := by
  obtain ⟨us, hwhole, hpiece⟩ := h.exists_isWhole
  obtain ⟨e, he⟩ := hwhole.reads [] hg
  refine ⟨us, e, hwhole.opens, hpiece depth, he, ?_⟩
  rw [textSince_append_right, spanChars_fromGap, (hpiece depth).chars, String.ofList_toList]

theorem spells_expression (h : IsBarred text) (depth : Nat) : Spells (EndsAt isStop) depth (.inner .full) text := by
  obtain ⟨us, e, -, hpiece, hread, htext⟩ := h.exists_read depth (.nil _)
  rw [List.append_nil] at hread htext
  have hspelled := (expression_spelled .full hread).trans htext
  exact ⟨e, hspelled ▸ reads_expression hpiece.scanned (.nil _) hread, hspelled⟩

theorem spells_hint (h : IsBarred text) (depth : Nat) : Spells (EndsAt isStop) depth hintExpr text := by
  obtain ⟨us, e, hopens, hpiece, hread, htext⟩ := h.exists_read depth (.nil _)
  have hhint : hintExpr.read (fromGap [] us ++ []) = some (e, []) := by
    refine read_bind_eq_some.2 ⟨_, _, read_ahead _ _, ?_⟩
    rw [if_neg (by simpa using hopens.not_symbol (by decide) [] [])]
    exact hread
  rw [List.append_nil] at hhint htext
  have hspelled := (hintExpr_spelled hhint).trans htext
  exact ⟨e, hspelled ▸ reads_hint hpiece.scanned (.nil _) hhint, hspelled⟩

theorem spells_argument (h : IsBarred text) : Spells EndsArgument 1 argument text := by
  have hg : EndsAt (isEnd hintEnds) [sign ")" []] := endsAt_sign (by decide) [] []
  obtain ⟨us, e, hopens, hpiece, hread, htext⟩ := h.exists_read 1 hg
  have hkey : (fromGap [] us ++ [sign ")" []])[1]?.any (·.isSymbol "=") = false := by
    obtain ⟨t, more, rfl, -⟩ := hopens.starts
    cases more with
    | nil => rfl
    | cons u more => exact hopens.plain u (by simp)
  have hargument : argument.read (fromGap [] us ++ [sign ")" []]) = some (e, [sign ")" []]) := by
    refine read_bind_eq_some.2 ⟨_, _, read_ahead _ _, ?_⟩
    rw [if_neg (by simpa using hopens.not_symbol (by decide) [] [sign ")" []])]
    refine read_bind_eq_some.2 ⟨_, _, read_ahead _ _, ?_⟩
    rw [if_neg (by simpa using hopens.not_symbol (by decide) [] [sign ")" []])]
    refine read_byName (if_neg (by simp [hkey])).symm hread ?_
    obtain ⟨t, more, rfl, -⟩ := hopens.starts
    simp [fromGap]
  have hspelled := (argument_spelled hargument).trans htext
  exact ⟨e, hspelled ▸ reads_argument hpiece.scanned_closed ⟨_, _, rfl, rfl⟩ hargument, hspelled⟩

/-- A key with such a text behind it is read as an argument. -/
theorem spells_given {key : String} (h : IsBarred text) (hkey : IsLexeme .word key.toList) :
    Spells EndsArgument 1 argument (key ++ "=" ++ text) := by
  obtain ⟨e, ⟨us, hpiece, -, hread⟩, rfl⟩ := h.spells_expression 1
  have hgiven := reads_namedArgument hkey hpiece hread
  have htext : (key ++ "=" ++ e.text).toList = key.toList ++ '=' :: e.text.toList := by simp
  refine ⟨_, htext ▸ hgiven, ?_⟩
  rw [← String.toList_inj, htext]
  exact String.toList_ofList

end Syntax.IsBarred

/-! ### Brackets and quotation marks in pairs -/

namespace Hint

open ParamText (Balanced)

theorem balanced_reference {path : String} (h : isReference path = true) : Balanced path.toList := by
  obtain ⟨w, words, -, hpath, htext⟩ := exists_words h
  rw [htext]
  refine ParamText.balanced_of_plain fun c hc => ?_
  rcases Text.mem_join hc with hdot | ⟨v, hv, hc⟩
  · obtain rfl : c = '.' := by simpa using hdot
    decide
  · have hname := (isLexeme_of_isWord (hpath.isWord v hv)).continuesName c hc
    exact not_mem_signs (p := Text.continuesName) (by decide +kernel) hname

theorem balanced_value {text : String} (h : isValue text = true) : Balanced text.toList := by
  unfold isValue at h
  split at h
  · cases h
  · next c rest htext =>
    rw [htext]
    split at h
    · next hmark =>
      simp only [Bool.and_eq_true, beq_iff_eq, Bool.not_eq_true'] at h
      obtain ⟨front, rfl⟩ := List.getLast?_eq_some_iff.1 h.1.2
      have hnot : c ∉ front := by simpa using h.2
      exact ParamText.balanced_marked (by simpa using hmark) hnot
    · simp only [Bool.and_eq_true] at h
      exact ParamText.balanced_of_plain fun d hd => by simpa using List.all_eq_true.1 h.1 d hd

mutual
/-- **The text of a writable hint has its brackets and quotation marks in pairs**, and no equals sign outside
them. -/
theorem balanced_of_isWritable : ∀ {h : Hint}, h.isWritable = true → Balanced h.render.toList
  | .name path, h => balanced_reference h
  | .subscript head args, h => by
    simp only [isWritable, Bool.and_eq_true] at h
    have hargs := ParamText.balanced_join balanced_comma (balanced_of_areWritable h.2)
    simpa [render] using (balanced_reference h.1.1).append hargs.bracketed
  | .list items, h => by
    have hitems := ParamText.balanced_join balanced_comma (balanced_of_areWritable h)
    simpa [render] using hitems.bracketed
  | .union members, h => by
    simp only [isWritable, Bool.and_eq_true] at h
    exact ParamText.balanced_join balanced_bar (balanced_of_areWritable h.2)
  | .literal text, h => balanced_value h

theorem balanced_of_areWritable : ∀ {hs : List Hint}, areWritable hs = true →
    ∀ text ∈ renderAll hs, Balanced text.toList
  | [], _ => by simp [renderAll]
  | h :: hs, hall => by
    simp only [areWritable, Bool.and_eq_true] at hall
    rw [renderAll, List.forall_mem_cons]
    exact ⟨balanced_of_isWritable hall.1, balanced_of_areWritable hall.2⟩
end

end Hint

end TypedStubs
