import Mathlib.Data.Bool.AllAny
import TypedStubs.Proofs.Import.Line
import TypedStubs.Proofs.Syntax.Links
import TypedStubs.Proofs.Syntax.Standalone
import TypedStubs.Signature.Default

/-! # What the defaults in stubs name

A default is repeated in a stub as it is written, so a name in it has to be known there.  A constant or a number
has no names but those of members, and neither has a string between its marks (`isLiteral_namesMembersOnly`).
But a text that starts and ends with the same mark need not be one string (`name_between_strings_repeated`).

A number is looked at as a stretch of word characters and points, behind blanks and minus signs and before
blanks (`HasCore`).  So a word in it stands right behind a character of the stretch (`word_in_core`), and what
ends there is a number or a point.  Behind a number no name stands, so the word is a connective or the name of a
member (`behind_point`).
-/
namespace TypedStubs.Signature

open Syntax

variable {text : String} {ts us vs : List Token} {t p : Token} {e : Expr} {lead core trail front more : List Char}

/-! ## Names -/

/-- The words that are no names. -/
def keywords : List String :=
  ["False", "None", "True", "and", "as", "assert", "async", "await", "break", "class", "continue", "def", "del",
    "elif", "else", "except", "finally", "for", "from", "global", "if", "import", "in", "is", "lambda", "nonlocal",
    "not", "or", "pass", "raise", "return", "try", "while", "with", "yield"]

/-- Whether a token is a name. -/
def isIdentifier (t : Token) : Bool := t.kind == .word && !keywords.contains t.text

/-- Every name among some tokens is that of a member: it stands right behind a point. -/
def NamesMembersOnly (ts : List Token) : Prop :=
  ∀ us t vs, ts = us ++ t :: vs → isIdentifier t = true →
    ∃ front p, us = front ++ [p] ∧ p.isSymbol "." = true

/-- No string among some tokens has expressions in it. -/
def EmbedsNothing (ts : List Token) : Prop := ∀ t ∈ ts, ∀ embedded, t.kind = .string embedded → embedded = []

/-! ## The stretch of a number -/

/-- Whether a character may stand in a number or a constant as a default is looked at. -/
def isCore (c : Char) : Bool := c.isAlphanum || c == '.' || c == '_'

/-- A text is a stretch of word characters and points behind blanks and minus signs, and before blanks. -/
structure HasCore (text lead core trail : List Char) : Prop where
  /-- The stretch and what is around it. -/
  text : text = lead ++ (core ++ trail)
  /-- What is before it. -/
  lead : ∀ c ∈ lead, c = '-' ∨ Text.isBlank c = true
  /-- Its characters. -/
  core : ∀ c ∈ core, isCore c = true
  /-- What is behind it. -/
  trail : ∀ c ∈ trail, Text.isBlank c = true

theorem HasCore.mem_cases {text : List Char} (h : HasCore text lead core trail) {c : Char} (hc : c ∈ text) :
    c = '-' ∨ Text.isBlank c = true ∨ isCore c = true := by
  rw [h.text] at hc
  simp only [List.mem_append] at hc
  rcases hc with hc | hc | hc
  · exact (h.lead c hc).imp_right .inl
  · exact .inr (.inr (h.core c hc))
  · exact .inr (.inl (h.trail c hc))

/-- The words that are constants. -/
def constants : List String := ["None", "True", "False"]

/-- A stretch is a constant, or it starts as a number does. -/
def StartsLiteral (core : List Char) : Prop :=
  String.ofList core ∈ constants ∨ ∃ c cs, core = c :: cs ∧ (c.isDigit = true ∨ c = '.')

/-- A constant is a stretch of letters or points. -/
theorem startsLiteral_of_constant {bare : String} (h : bare ∈ ["None", "True", "False", "..."]) :
    (∀ c ∈ bare.toList, isCore c = true) ∧ StartsLiteral bare.toList := by
  simp only [List.mem_cons, List.not_mem_nil, or_false] at h
  rcases h with rfl | rfl | rfl | rfl
  · exact ⟨List.all_eq_true.1 (by decide), .inl (by decide)⟩
  · exact ⟨List.all_eq_true.1 (by decide), .inl (by decide)⟩
  · exact ⟨List.all_eq_true.1 (by decide), .inl (by decide)⟩
  · exact ⟨List.all_eq_true.1 (by decide), .inr ⟨'.', ['.', '.'], rfl, .inr rfl⟩⟩

/-- A number is a stretch of word characters and points behind minus signs. -/
theorem isCore_of_isNumber {cs : List Char} (h : isNumber cs = true) :
    ∃ c core, cs.dropWhile (· == '-') = c :: core ∧ (c.isDigit = true ∨ c = '.') ∧
      ∀ d ∈ c :: core, isCore d = true := by
  unfold isNumber at h
  split at h
  · cases h
  · next c core hdrop =>
    simp only [Bool.and_eq_true, Bool.or_eq_true, beq_iff_eq] at h
    exact ⟨c, core, hdrop, h.1, List.all_eq_true.1 h.2⟩

/-- A default that is repeated is between quotation marks, or it is such a stretch. -/
theorem isLiteral_cases (h : isLiteral text = true) :
    isQuoted (Text.trim text).toList = true ∨
      ∃ lead core trail, HasCore text.toList lead core trail ∧ StartsLiteral core := by
  obtain ⟨lead, trail, htext, hlead, htrail⟩ := Text.trimChars_around text.toList
  rw [← Text.toList_trim] at htext
  simp only [isLiteral, Bool.or_eq_true, Bool.and_eq_true, List.contains_iff_mem] at h
  rcases h with (hconstant | hnumber) | hquoted
  · obtain ⟨hcore, hstart⟩ := startsLiteral_of_constant hconstant
    exact .inr ⟨lead, _, trail, ⟨htext, fun c hc => .inr (hlead c hc), hcore, htrail⟩, hstart⟩
  · obtain ⟨c, core, hdrop, hstart, hcore⟩ := isCore_of_isNumber hnumber
    let dashes := (Text.trim text).toList.takeWhile (· == '-')
    refine .inr ⟨lead ++ dashes, c :: core, trail, ?_, .inr ⟨c, core, rfl, hstart⟩⟩
    refine ⟨?_, fun d hd => ?_, hcore, htrail⟩
    · rw [← hdrop, List.append_assoc, ← List.append_assoc _ _ trail, List.takeWhile_append_dropWhile]
      exact htext
    · rcases List.mem_append.1 hd with hd | hd
      · exact .inr (hlead d hd)
      · exact .inl (by simpa using List.mem_takeWhile_imp hd)
  · exact .inl hquoted.1.1

/-- Where a character is that is neither before the stretch nor behind it. -/
theorem split_core {c : Char} (h : front ++ c :: more = lead ++ (core ++ trail)) (hlead : c ∉ lead)
    (htrail : c ∉ trail) : ∃ before behind, front = lead ++ before ∧ core = before ++ c :: behind := by
  obtain ⟨before, rfl, hrest⟩ : ∃ before, front = lead ++ before ∧ core ++ trail = before ++ c :: more := by
    rcases List.append_eq_append_iff.1 h with ⟨x, rfl, hx⟩ | ⟨before, rfl, hrest⟩
    · cases x with
      | nil => exact ⟨[], by simp, hx.symm⟩
      | cons d x =>
        obtain ⟨rfl, -⟩ := List.cons.inj hx
        simp at hlead
    · exact ⟨before, rfl, hrest⟩
  rcases List.append_eq_append_iff.1 hrest with ⟨x, rfl, hx⟩ | ⟨x, rfl, hx⟩
  · -- the character would be behind the stretch
    rw [hx] at htrail
    simp at htrail
  · cases x with
    | nil =>
      rw [List.nil_append] at hx
      rw [← hx] at htrail
      simp at htrail
    | cons d x =>
      obtain ⟨rfl, -⟩ := List.cons.inj hx
      exact ⟨before, x, rfl, rfl⟩

/-! ## Words in the stretch -/

theorem isCore_of_gap {c : Char} (h : isGap c = true ∨ c = '\n' ∨ c = '\\') : isCore c = false := by
  have hgaps : ∀ c ∈ [' ', '\t', '\r', '\x0b', '\x0c', '\uFEFF', '\u2060', '\u200B'], isCore c = false :=
    List.all_iff_forall_prop.1 (by decide)
  rcases h with h | rfl | rfl
  · exact hgaps c (List.contains_iff_mem.1 h)
  · decide
  · decide

theorem isBlank_of_startsWord {c : Char} (h : Text.startsWord c = true) : Text.isBlank c = false :=
  Import.isBlank_of_isNameChar (Import.isNameChar_of_continuesName (continuesName_of_startsWord h))

/-- No name goes on with a blank. -/
theorem endsName_of_blank {cs : List Char} (h : ∀ c ∈ cs, Text.isBlank c = true) : EndsName cs := by
  intro c hc
  refine Bool.eq_false_iff.2 fun hname => ?_
  have hblank := h c (List.mem_of_head? hc)
  rw [Import.isBlank_of_isNameChar (Import.isNameChar_of_continuesName hname)] at hblank
  cases hblank

/-- A gap holds no character of the stretch, so there is none behind one. -/
theorem before_eq_nil (hcore : HasCore text.toList lead core trail) {rest : List Char}
    (hstands : StandsAt text.toList front t rest) {d : Char} (hend : (front ++ t.before).getLast? = some d)
    (hd : isCore d = true) : t.before = [] := by
  have hcomment : '#' ∉ t.before := by
    intro hmem
    have hcases := hcore.mem_cases (c := '#') (by rw [hstands.source]; simp [hmem])
    revert hcases
    decide
  refine List.getLast?_eq_none_iff.1 (Option.eq_none_iff_forall_ne_some.2 fun g hg => ?_)
  obtain rfl : g = d := by simpa [List.getLast?_append, hg] using hend
  have hnot := isCore_of_gap (hstands.blank hcomment g (List.mem_of_getLast? hg))
  rw [hd] at hnot
  cases hnot

/-- A word starts the stretch, or it stands right behind a token that ends in it. -/
theorem word_in_core (h : IsExpression text ts e) (hcore : HasCore text.toList lead core trail)
    (hts : ts = us ++ t :: vs) (hword : t.kind = .word) :
    (∃ rest, core ++ trail = t.chars ++ rest ∧ EndsName rest) ∨
      ∃ front p c, us = front ++ [p] ∧ t.before = [] ∧ p.chars.getLast? = some c ∧ isCore c = true := by
  obtain ⟨n, hstands⟩ := h.stands us hts
  obtain ⟨hends, c, u, hchars, hstart⟩ := hstands.word hword
  have hsource : (written us ++ t.before) ++ c :: (u ++ (written vs ++ n)) = lead ++ (core ++ trail) := by
    rw [← hcore.text, hstands.source, hchars]
    simp
  have hblank := isBlank_of_startsWord hstart
  have hlead : c ∉ lead := by
    intro hc
    rcases hcore.lead c hc with rfl | hc
    · revert hstart
      decide
    · rw [hblank] at hc
      cases hc
  have htrail : c ∉ trail := fun hc => by
    rw [hcore.trail c hc] at hblank
    cases hblank
  obtain ⟨before, behind, hfront, hsplit⟩ := split_core hsource hlead htrail
  cases hlast : before.getLast? with
  | none =>
    -- the word starts the stretch
    obtain rfl := List.getLast?_eq_none_iff.1 hlast
    left
    rw [List.append_nil] at hfront
    rw [hfront, List.append_cancel_left_eq] at hsource
    exact ⟨_, by rw [← hsource, hchars]; rfl, hends⟩
  | some d =>
    right
    have hd : isCore d = true := hcore.core d (by simp [hsplit, List.mem_of_getLast? hlast])
    have hend : (written us ++ t.before).getLast? = some d := by
      rw [hfront, List.getLast?_append, hlast, Option.some_or]
    have hgap := before_eq_nil hcore hstands hend hd
    rw [hgap, List.append_nil] at hend
    rcases List.eq_nil_or_concat us with rfl | ⟨front, p, rfl⟩
    · cases hend
    · refine ⟨front, p, d, List.concat_eq_append, hgap, ?_, hd⟩
      obtain ⟨c', u', hp, -⟩ := h.isLexeme (t := p) (by simp [hts])
      simpa [written, hp, List.getLast?_append, List.getLast?_cons] using hend

/-- Neighbours in an expression may stand where they do. -/
theorem joins_of_isExpression (h : IsExpression text ts e) (hts : ts = us ++ p :: t :: vs) : Joins p t := by
  obtain ⟨taken, htaken, hlink⟩ := expression_links _ h.read
  rw [List.append_nil] at htaken
  subst htaken
  have hchain := hlink.chain (sign "," []) fun _ => by decide
  rw [hts] at hchain
  exact List.isChain_iff_forall_rel_of_append_cons_cons.1 hchain (List.cons_append ..).symm

/-- There is no quotation mark in a default with a stretch. -/
theorem not_string_of_core {embedded : List (List Char)} (h : IsExpression text ts e)
    (hcore : HasCore text.toList lead core trail) (ht : t ∈ ts) : t.kind ≠ .string embedded := by
  intro hkind
  have hlexeme := h.isLexeme ht
  rw [hkind] at hlexeme
  obtain ⟨letters, mark, inside, hquote⟩ := hlexeme.quotation
  have hcases := hcore.mem_cases (h.chars_subset ht (a := mark) (by simp [hquote.chars]))
  revert hcases
  rcases hquote.quotes with rfl | rfl <;> decide

/-- A word behind a token that ends in the stretch is a connective, or it stands behind a point. -/
theorem behind_point (h : IsExpression text ts e) (hcore : HasCore text.toList lead core trail)
    (hts : ts = us ++ p :: t :: vs) (hword : t.kind = .word) (hgap : t.before = []) {c : Char}
    (hlast : p.chars.getLast? = some c) (hc : isCore c = true) :
    p.isSymbol "." = true ∨ t.text ∈ connectives := by
  have hp : p ∈ ts := by simp [hts]
  have hlexeme := h.isLexeme hp
  have hjoins := joins_of_isExpression h hts
  cases hkind : p.kind with
  | word =>
    -- it would go on with the word behind it
    obtain ⟨m, hstands⟩ := h.stands us hts
    obtain ⟨n, hbehind⟩ := h.stands (us ++ [p]) (by simpa using hts)
    obtain ⟨-, d, u, hchars, hstart⟩ := hbehind.word hword
    have hends := (hstands.word hkind).1 d (by simp [hgap, hchars])
    rw [continuesName_of_startsWord hstart] at hends
    cases hends
  | integer => exact .inr (hjoins (by simp [Lexeme.endsOperand, hkind]) hword)
  | float => exact .inr (hjoins (by simp [Lexeme.endsOperand, hkind]) hword)
  | string embedded => exact absurd hkind (not_string_of_core h hcore hp)
  | comment =>
    have hno := h.not_comment hp
    rw [Lexeme.isComment, hkind] at hno
    cases hno
  | symbol =>
    rw [hkind] at hlexeme
    have hpoints : ∀ s ∈ symbols, s.getLast?.any isCore = true → s = "...".toList ∨ s = ".".toList := by
      decide
    rcases hpoints _ hlexeme.mem_symbols (by simp [hlast, hc]) with hdots | hpoint
    · refine .inr (hjoins ?_ hword)
      simp [Lexeme.endsOperand, hkind, Lexeme.text, hdots, operandEnds]
    · left
      simp [Lexeme.isSymbol, hkind, Lexeme.text, hpoint]

/-- A word that starts a constant is all of it. -/
theorem text_eq_of_constant (hlexeme : IsLexeme .word t.chars) (hconstant : String.ofList core ∈ constants)
    (htrail : ∀ c ∈ trail, Text.isBlank c = true) {rest : List Char} (hrest : core ++ trail = t.chars ++ rest)
    (hends : EndsName rest) : t.text = String.ofList core := by
  have hletters : (constants.all fun w => w.toList.all Text.continuesName) = true := by decide
  have hcore : ∀ c ∈ core, Text.continuesName c = true := by
    simpa using List.all_eq_true.1 hletters _ hconstant
  have hfront := (takeWhile_dropWhile_append hcore fun c hc => endsName_of_blank htrail c hc).1
  have hback := (takeWhile_dropWhile_append hlexeme.continuesName hends).1
  rw [Lexeme.text, ← hback, ← hrest, hfront]

/-- A constant is no name, and no number starts with one. -/
theorem not_identifier_of_start (hlexeme : IsLexeme .word t.chars) (hcore : HasCore text.toList lead core trail)
    (hstart : StartsLiteral core) {rest : List Char} (hrest : core ++ trail = t.chars ++ rest)
    (hends : EndsName rest) : isIdentifier t = false := by
  rcases hstart with hconstant | ⟨d, cs, rfl, hd⟩
  · have hkeywords : ∀ w ∈ constants, w ∈ keywords := by decide
    have hsame := text_eq_of_constant hlexeme hconstant hcore.trail hrest hends
    simp [isIdentifier, hsame, hkeywords _ hconstant]
  · -- a word starts with no digit and no point
    obtain ⟨c, u, hchars, -, hread⟩ := hlexeme
    have hletter := (chars_of_word hread).1
    rw [hchars] at hrest
    obtain ⟨rfl, -⟩ := List.cons.inj hrest
    rcases hd with hd | rfl
    · rw [isDigit_of_startsWord hletter] at hd
      cases hd
    · exact absurd hletter (by decide)

/-- A default with a stretch names nothing but members. -/
theorem namesMembersOnly_of_core (h : IsExpression text ts e) (hcore : HasCore text.toList lead core trail)
    (hstart : StartsLiteral core) : NamesMembersOnly ts := by
  intro us t vs hts hname
  have hword : t.kind = .word := by
    simp only [isIdentifier, Bool.and_eq_true, beq_iff_eq] at hname
    exact hname.1
  rcases word_in_core h hcore hts hword with ⟨rest, hrest, hends⟩ | ⟨front, p, c, rfl, hgap, hlast, hc⟩
  · have hlexeme := h.isLexeme (t := t) (by simp [hts])
    rw [hword] at hlexeme
    rw [not_identifier_of_start hlexeme hcore hstart hrest hends] at hname
    cases hname
  · refine ⟨front, p, rfl, ?_⟩
    refine (behind_point h hcore (by simpa using hts) hword hgap hlast hc).resolve_right fun hmem => ?_
    have hkeywords : ∀ w ∈ connectives, w ∈ keywords := by decide
    simp [isIdentifier, hkeywords _ hmem] at hname

/-! ## Strings -/

theorem exists_mark_of_isQuoted {cs : List Char} (h : isQuoted cs = true) :
    ∃ m more, cs = m :: more ∧ (m = '\'' ∨ m = '"') := by
  cases cs with
  | nil => cases h
  | cons m more =>
    simp only [isQuoted, Bool.and_eq_true, Bool.or_eq_true, List.head?_cons, beq_iff_eq, Option.some.injEq] at h
    exact ⟨m, more, rfl, h.2.imp And.left And.left⟩

/-- What is between quotation marks starts with a mark, blanks aside. -/
theorem starts_with_mark (h : IsExpression text (t :: ts) e) (hquoted : isQuoted (Text.trim text).toList = true)
    {c : Char} {u : List Char} (hchars : t.chars = c :: u) (hblank : Text.isBlank c = false) :
    c = '\'' ∨ c = '"' := by
  obtain ⟨n, hstands⟩ := h.stands [] rfl
  obtain ⟨lead, trail, htext, hlead, -⟩ := Text.trimChars_around text.toList
  rw [← Text.toList_trim] at htext
  obtain ⟨m, more, hbare, hm⟩ := exists_mark_of_isQuoted hquoted
  have hsame : t.before ++ c :: (u ++ (written ts ++ n)) = lead ++ m :: (more ++ trail) := by
    have hsource := hstands.source
    rw [htext, hbare, hchars] at hsource
    simpa using hsource.symm
  rcases List.append_eq_append_iff.1 hsame with ⟨x, rfl, hx⟩ | ⟨x, hx, hrest⟩
  · cases x with
    | nil =>
      obtain ⟨rfl, -⟩ := List.cons.inj hx
      exact hm
    | cons d x =>
      -- the token would start in the blanks
      obtain ⟨rfl, -⟩ := List.cons.inj hx
      rw [hlead c (by simp)] at hblank
      cases hblank
  · cases x with
    | nil =>
      obtain ⟨rfl, -⟩ := List.cons.inj hrest
      exact hm
    | cons d x =>
      -- the mark would be in the gap
      obtain ⟨rfl, -⟩ := List.cons.inj hrest
      have hblanks : ∀ c ∈ lead, (c != '#') = true := by
        intro c hc
        have hne : c ≠ '#' := fun heq => absurd (heq ▸ hlead c hc) (by decide)
        simpa using hne
      have hmark : (m != '#') = true := by rcases hm with rfl | rfl <;> decide
      have hmem : m ∈ t.before.takeWhile (· != '#') := by
        rw [hx, List.takeWhile_append_of_pos hblanks, List.takeWhile_cons, if_pos hmark]
        simp
      have hnot : ¬(isGap m = true ∨ m = '\n' ∨ m = '\\') := by rcases hm with rfl | rfl <;> decide
      exact absurd (hstands.gap m hmem) hnot

/-- Strings name nothing. -/
theorem namesMembersOnly_of_kind (h : IsExpression text ts e) (hkind : e.kind ∈ [.string, .adjacentStrings]) :
    NamesMembersOnly ts := by
  intro us t vs hts hname
  have hstring := h.isString hkind (t := t) (by simp [hts])
  simp only [isIdentifier, Bool.and_eq_true, beq_iff_eq] at hname
  rw [isString, hname.1] at hstring
  cases hstring

/-- A string between quotation marks has no expressions in it. -/
theorem embedsNothing_of_string (h : IsExpression text ts e) (hquoted : isQuoted (Text.trim text).toList = true)
    (hkind : e.kind = .string) : EmbedsNothing ts := by
  obtain ⟨t, rfl, -⟩ := expression_string h.read hkind
  intro u hu embedded hembedded
  obtain rfl : u = t := List.mem_singleton.1 hu
  have hlexeme := h.isLexeme hu
  rw [hembedded] at hlexeme
  obtain ⟨letters, mark, inside, hquote⟩ := hlexeme.quotation
  refine hquote.plain ?_
  cases letters with
  | nil => exact List.forall_mem_nil _
  | cons c letters =>
    -- the text would start with a letter
    have hletters : ∀ c ∈ ['b', 'B', 'f', 'F', 'r', 'R', 'u', 'U'],
        Text.isBlank c = false ∧ ¬(c = '\'' ∨ c = '"') := List.all_iff_forall_prop.1 (by decide)
    have hc := hletters c (List.contains_iff_mem.1 (List.all_eq_true.1 hquote.reading c List.mem_cons_self))
    exact absurd (starts_with_mark h hquoted hquote.chars hc.1) hc.2

/-! ## Defaults that are repeated -/

/-- **A default that is repeated names nothing but members**, if it is strings where it is between quotation
marks.  Unless these are several, no string in it has expressions in it. -/
theorem isLiteral_namesMembersOnly (h : IsExpression text ts e) (hliteral : isLiteral text = true)
    (hstrings : isQuoted (Text.trim text).toList = true → e.kind ∈ [.string, .adjacentStrings]) :
    NamesMembersOnly ts ∧ (e.kind ≠ .adjacentStrings → EmbedsNothing ts) := by
  rcases isLiteral_cases hliteral with hquoted | ⟨lead, core, trail, hcore, hstart⟩
  · refine ⟨namesMembersOnly_of_kind h (hstrings hquoted), fun hne => ?_⟩
    exact embedsNothing_of_string h hquoted (by simpa [hne] using hstrings hquoted)
  · refine ⟨namesMembersOnly_of_core h hcore hstart, fun _ t ht embedded hkind => ?_⟩
    exact absurd hkind (not_string_of_core h hcore ht)

/-- So does a string. -/
theorem namesMembersOnly_red :
    ∃ ts e, IsExpression "'red'" ts e ∧ isLiteral "'red'" = true ∧
      (isQuoted (Text.trim "'red'").toList = true → e.kind ∈ [.string, .adjacentStrings]) ∧
      NamesMembersOnly ts ∧ (e.kind ≠ .adjacentStrings → EmbedsNothing ts) := by
  let red : Expr := .node .string "'red'" []
  let ts : List Token := [⟨⟨.string [], "'red'".toList⟩, []⟩]
  have hread : IsExpression "'red'" ts red := ⟨by decide +kernel, by with_unfolding_all rfl⟩
  have hliteral : isLiteral "'red'" = true := by decide +kernel
  have hstrings : isQuoted (Text.trim "'red'").toList = true → red.kind ∈ [.string, .adjacentStrings] :=
    fun _ => by decide
  exact ⟨ts, red, hread, hliteral, hstrings, isLiteral_namesMembersOnly hread hliteral hstrings⟩

/-- A default that starts and ends with strings is repeated with the name between them. -/
theorem name_between_strings_repeated :
    ∃ ts e, IsExpression "'a' + y + 'b'" ts e ∧ isLiteral "'a' + y + 'b'" = true ∧ ¬ NamesMembersOnly ts := by
  let sum (text : String) (first second : Expr) : Expr := .node .binary text [first, second]
  let front := sum "'a' + y" (.node .string "'a'" []) (.node .name "y" [])
  let e := sum "'a' + y + 'b'" front (.node .string "'b'" [])
  let first : Token := ⟨⟨.string [], "'a'".toList⟩, []⟩
  let last : Token := ⟨⟨.string [], "'b'".toList⟩, [' ']⟩
  refine ⟨[first, sign "+" [' '], spelled "y" [' '], sign "+" [' '], last], e,
    ⟨by decide +kernel, by with_unfolding_all rfl⟩, by decide +kernel, fun hmembers => ?_⟩
  obtain ⟨front, p, hfront, hpoint⟩ := hmembers [first, sign "+" [' ']] _ _ rfl (by decide +kernel)
  obtain rfl : sign "+" [' '] = p := by simpa using congrArg List.getLast? hfront
  revert hpoint
  decide +kernel

end TypedStubs.Signature
