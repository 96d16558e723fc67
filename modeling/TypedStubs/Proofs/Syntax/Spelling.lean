import Mathlib.Data.List.TakeWhile
import TypedStubs.Proofs.Syntax.Piece

/-! # How tokens are spelled

The first character of a token says how it is scanned: as a string, as a word, as a number or as a symbol
(`scannedAs_of_lexeme`).  So the kind of a token that stands alone shows in its characters.  A word is
characters of names, and a symbol is one of the list.  A string is letters that say how it is read, and a
quotation mark; only a formatted one has expressions in it.  A number is a float if it has a point or an
exponent.
-/
namespace TypedStubs.Syntax

variable {c : Char} {u cs rest : List Char} {kind : TokenKind}

/-! ## How a token is scanned -/

/-- How the token at the front of `c :: cs` is scanned as one of a kind, with the source after it. -/
inductive ScannedAs (c : Char) (cs : List Char) : TokenKind → List Char → Prop where
  /-- Letters, a quotation mark, and the contents of a string. -/
  | string (letters : List Char) (mark : Char) (inside : List Char) {embedded : List (List Char)}
      {rest : List Char} (hchars : c :: cs = letters ++ mark :: inside)
      (hletters : isStringPrefix letters = true) (hmark : mark = '\'' ∨ mark = '"')
      (hread : readStringLiteral letters mark inside = some (embedded, rest)) :
      ScannedAs c cs (.string embedded) rest
  /-- As many characters of names as there are. -/
  | word (hstart : Text.startsWord c = true) : ScannedAs c cs .word (cs.dropWhile Text.continuesName)
  /-- A number. -/
  | number (hstart : startsNumber c cs = true) :
      ScannedAs c cs (if (numberRun c cs).1 then .float else .integer) (cs.drop (numberRun c cs).2)
  /-- The first symbol that fits. -/
  | symbol (s : List Char) (hmem : s ∈ symbols) (hfits : s <+: c :: cs) :
      ScannedAs c cs .symbol (cs.drop (s.length - 1))

/-- **Every token is scanned in one of four ways.** -/
theorem scannedAs_of_lexeme (h : lexeme c cs = some (kind, rest)) : ScannedAs c cs kind rest := by
  unfold lexeme at h
  split at h
  · next hmark =>
    obtain ⟨⟨embedded, rest⟩, hread, heq⟩ := Option.map_eq_some_iff.1 h
    obtain ⟨rfl, rfl⟩ := Prod.mk.inj heq
    exact .string [] c cs rfl rfl (by simpa using hmark) hread
  split at h
  · next hstart =>
    unfold afterWord at h
    split at h
    · next mark inside hdrop =>
      split at h
      · next hprefix =>
        obtain ⟨⟨embedded, rest⟩, hread, heq⟩ := Option.map_eq_some_iff.1 h
        obtain ⟨rfl, rfl⟩ := Prod.mk.inj heq
        simp only [Bool.and_eq_true, Bool.or_eq_true, beq_iff_eq] at hprefix
        refine .string _ mark inside ?_ hprefix.2 hprefix.1 hread
        rw [List.cons_append, ← hdrop, List.takeWhile_append_dropWhile]
      · obtain ⟨rfl, rfl⟩ := Prod.mk.inj (Option.some.inj h)
        rw [← hdrop]
        exact .word hstart
    · next hdrop =>
      obtain ⟨rfl, rfl⟩ := Prod.mk.inj (Option.some.inj h)
      rw [← hdrop]
      exact .word hstart
  split at h
  · next hstart =>
    obtain ⟨rfl, rfl⟩ := Prod.mk.inj (Option.some.inj h)
    exact .number hstart
  · obtain ⟨s, hfind, heq⟩ := Option.map_eq_some_iff.1 h
    obtain ⟨rfl, rfl⟩ := Prod.mk.inj heq
    have hfits := List.find?_some (p := fun s : List Char => s.isPrefixOf (c :: cs)) hfind
    exact .symbol s (List.mem_of_find?_eq_some hfind) (List.isPrefixOf_iff_prefix.1 hfits)

/-- A token that stands alone is scanned to its end. -/
theorem IsLexeme.scannedAs (h : IsLexeme kind cs) : ∃ c u, cs = c :: u ∧ ScannedAs c u kind [] := by
  obtain ⟨c, u, rfl, -, hread⟩ := h
  exact ⟨c, u, rfl, scannedAs_of_lexeme hread⟩

/-! ## Gaps -/

theorem forall_mem_takeWhile_cons {p : Char → Bool} {P : Char → Prop} (hc : P c)
    (hcs : ∀ x ∈ cs.takeWhile p, P x) : ∀ x ∈ (c :: cs).takeWhile p, P x := by
  intro x hx
  rw [List.takeWhile_cons] at hx
  split at hx
  · rcases List.mem_cons.1 hx with rfl | hx
    · exact hc
    · exact hcs x hx
  · cases hx

/-- Up to a comment a gap is blanks and line ends, and the backslashes that hide them. -/
theorem lineGap_chars {depth : Nat} {source gap : List Char} (h : lineGap depth false source = (gap, rest)) :
    ∀ x ∈ gap.takeWhile (· != '#'), isGap x = true ∨ x = '\n' ∨ x = '\\' := by
  generalize hcomment : false = inComment at h
  fun_induction lineGap depth inComment source generalizing gap with
  | case1 | case3 | case9 =>
    obtain ⟨rfl, -⟩ := Prod.mk.inj h
    simp
  | case2 => cases hcomment
  | case4 ds hd gap' rest heq ih =>
    obtain ⟨rfl, rfl⟩ := Prod.mk.inj h
    exact forall_mem_takeWhile_cons (.inr (.inl rfl)) (ih rfl heq)
  | case5 ds gap' rest heq ih =>
    obtain ⟨rfl, rfl⟩ := Prod.mk.inj h
    exact forall_mem_takeWhile_cons (.inr (.inr rfl))
      (forall_mem_takeWhile_cons (.inr (.inl rfl)) (ih rfl heq))
  | case6 ds gap' rest heq ih =>
    obtain ⟨rfl, rfl⟩ := Prod.mk.inj h
    exact forall_mem_takeWhile_cons (.inr (.inr rfl)) (forall_mem_takeWhile_cons (.inl rfl)
      (forall_mem_takeWhile_cons (.inr (.inl rfl)) (ih rfl heq)))
  | case7 d ds hn hb1 hb2 hgap gap' rest heq ih =>
    obtain ⟨rfl, rfl⟩ := Prod.mk.inj h
    exact forall_mem_takeWhile_cons (.inl hgap) (ih rfl heq)
  | case8 d ds hn hb1 hb2 hgap hd gap' rest heq ih =>
    -- a comment starts
    obtain ⟨rfl, rfl⟩ := Prod.mk.inj h
    rw [List.takeWhile_cons_of_neg (by simp [hd.1])]
    simp

/-! ## Words and symbols -/

theorem ne_of_startsWord {c d : Char} (h : Text.startsWord c = true) (hd : Text.startsWord d = false) :
    c ≠ d := by
  rintro rfl
  rw [hd] at h
  cases h

theorem continuesName_of_startsWord {c : Char} (h : Text.startsWord c = true) : Text.continuesName c = true := by
  rw [Text.continuesName, Text.continuesWord_of_startsWord h, Bool.true_or]

theorem isDigit_of_startsWord {c : Char} (h : Text.startsWord c = true) : c.isDigit = false := by
  have hno : ∀ n < 58, 48 ≤ n → Text.startsWord (Char.ofNat n) = false := by decide +kernel
  refine Bool.eq_false_iff.2 fun hd => ?_
  have hcode : c.toNat = c.val.toNat := rfl
  have hdigit : 48 ≤ c.toNat ∧ c.toNat ≤ 57 := by
    simpa [Char.isDigit, UInt32.le_iff_toNat_le] using hd
  have hc := hno c.toNat (by omega) hdigit.1
  rw [Char.ofNat_toNat, h] at hc
  cases hc

/-- The characters of a word. -/
theorem chars_of_word {c : Char} {u : List Char} (h : lexeme c u = some (.word, [])) :
    Text.startsWord c = true ∧ ∀ d ∈ u, Text.continuesName d = true := by
  have hscan := scannedAs_of_lexeme h
  generalize hkind : TokenKind.word = kind at hscan
  generalize hrest : ([] : List Char) = rest at hscan
  cases hscan with
  | word hstart => exact ⟨hstart, List.dropWhile_eq_nil_iff.1 hrest.symm⟩
  | number => split at hkind <;> cases hkind
  | string | symbol => cases hkind

/-- A word goes on through all of its characters. -/
theorem IsLexeme.continuesName (h : IsLexeme .word cs) : ∀ d ∈ cs, Text.continuesName d = true := by
  obtain ⟨c, u, rfl, -, hread⟩ := h
  obtain ⟨hstart, hname⟩ := chars_of_word hread
  exact List.forall_mem_cons.2 ⟨continuesName_of_startsWord hstart, hname⟩

/-- A symbol is one of the list. -/
theorem IsLexeme.mem_symbols (h : IsLexeme .symbol cs) : cs ∈ symbols := by
  obtain ⟨c, u, rfl, hscan⟩ := h.scannedAs
  generalize hkind : TokenKind.symbol = kind at hscan
  generalize hrest : ([] : List Char) = rest at hscan
  cases hscan with
  | symbol s hmem hfits =>
    have hlength := congrArg List.length hrest
    have hne := List.length_pos_iff.2 (symbols_ne_nil s hmem)
    rw [List.length_nil, List.length_drop] at hlength
    have hall : s = c :: u := hfits.eq_of_length_le (by rw [List.length_cons]; omega)
    rwa [← hall]
  | number => split at hkind <;> cases hkind
  | string | word => cases hkind

/-! ## Strings -/

/-- A string that is not formatted has no expressions in it. -/
theorem readString_plain {n : Nat} {style : StringStyle} {embedded : List (List Char)}
    (hplain : style.formatted = false) (h : readString n style cs = some (embedded, rest)) :
    embedded = [] := by
  induction n generalizing cs with
  | zero => simp [readString] at h
  | succ n ih =>
    cases cs with
    | nil => simp [readString] at h
    | cons c cs =>
      by_cases hc : c = '\\'
      · subst hc
        cases cs with
        | nil => simp [readString] at h
        | cons d cs =>
          by_cases hline : ∃ tail, d = '\r' ∧ cs = '\n' :: tail
          · obtain ⟨tail, rfl, rfl⟩ := hline
            rw [readString] at h
            exact ih h
          · rw [readString.eq_5 _ _ _ _ fun tail hd hcs => hline ⟨tail, hd, hcs⟩] at h
            simp only [hplain, Bool.false_and, Bool.false_eq_true, if_false] at h
            exact ih h
      · rw [readString.eq_6 _ _ _ _ hc] at h
        simp only [hplain, Bool.false_and, Bool.false_eq_true, if_false] at h
        split at h
        · split at h
          · exact (Prod.mk.inj (Option.some.inj h)).1.symm
          split at h
          · exact (Prod.mk.inj (Option.some.inj h)).1.symm
          · exact ih h
        split at h
        · cases h
        · exact ih h

/-- A string ends with its mark. -/
theorem readString_mark {n : Nat} {style : StringStyle} {embedded : List (List Char)}
    (h : readString n style cs = some (embedded, rest)) : ∃ u, cs = u ++ style.mark :: rest := by
  have more : ∀ {ds es : List Char}, (∃ u, ds = u ++ style.mark :: rest) → ds <:+ es →
      ∃ u, es = u ++ style.mark :: rest := by
    rintro _ _ ⟨u, rfl⟩ ⟨v, rfl⟩
    exact ⟨v ++ u, by simp⟩
  induction n generalizing cs embedded with
  | zero => simp [readString] at h
  | succ n ih =>
    cases cs with
    | nil => simp [readString] at h
    | cons c cs =>
      by_cases hc : c = '\\'
      · subst hc
        cases cs with
        | nil => simp [readString] at h
        | cons d cs =>
          by_cases hline : ∃ tail, d = '\r' ∧ cs = '\n' :: tail
          · obtain ⟨tail, rfl, rfl⟩ := hline
            rw [readString] at h
            exact more (ih h) ⟨['\\', '\r', '\n'], rfl⟩
          · rw [readString.eq_5 _ _ _ _ fun tail hd hcs => hline ⟨tail, hd, hcs⟩] at h
            split at h
            · exact more (ih h) ⟨['\\'], rfl⟩
            split at h
            · obtain ⟨u, hu⟩ := ih h
              exact more ⟨u, hu⟩ ((List.dropWhile_suffix _).trans ⟨['\\', d], rfl⟩)
            · exact more (ih h) ⟨['\\', d], rfl⟩
      · rw [readString.eq_6 _ _ _ _ hc] at h
        split at h
        · next hmark =>
          obtain rfl : c = style.mark := eq_of_beq hmark
          split at h
          · obtain ⟨-, rfl⟩ := Prod.mk.inj (Option.some.inj h)
            exact ⟨[], rfl⟩
          split at h
          · next htwo =>
            obtain ⟨-, rfl⟩ := Prod.mk.inj (Option.some.inj h)
            obtain ⟨tail, rfl⟩ := List.isPrefixOf_iff_prefix.1 htwo
            exact ⟨[style.mark, style.mark], rfl⟩
          · exact more (ih h) (List.suffix_cons _ _)
        split at h
        · cases h
        split at h
        · split at h
          · exact more (ih h) ((List.drop_suffix _ _).trans (List.suffix_cons _ _))
          · obtain ⟨⟨inner, mid⟩, hfield, h⟩ := Option.bind_eq_some_iff.1 h
            obtain ⟨⟨tail, last⟩, hstring, h⟩ := Option.bind_eq_some_iff.1 h
            obtain ⟨-, rfl⟩ := Prod.mk.inj (Option.some.inj h)
            obtain ⟨used, rfl, -⟩ := (stringReaders n).field hfield
            exact more (ih hstring) ((List.suffix_append _ _).trans (List.suffix_cons _ _))
        split at h
        · split at h
          · exact more (ih h) ((List.drop_suffix _ _).trans (List.suffix_cons _ _))
          · cases h
        · exact more (ih h) (List.suffix_cons _ _)

/-- How a string is spelled: letters, a quotation mark, and the rest. -/
structure IsQuotation (cs : List Char) (embedded : List (List Char)) (letters : List Char) (mark : Char)
    (inside : List Char) : Prop where
  /-- The letters and the mark come first. -/
  chars : cs = letters ++ mark :: inside
  /-- The letters say how the string is read. -/
  reading : isStringPrefix letters = true
  /-- The mark is a quotation mark. -/
  quotes : mark = '\'' ∨ mark = '"'
  /-- Only a formatted string has expressions in it. -/
  plain : (∀ c ∈ letters, c ≠ 'f' ∧ c ≠ 'F') → embedded = []

theorem IsLexeme.quotation {embedded : List (List Char)} (h : IsLexeme (.string embedded) cs) :
    ∃ letters mark inside, IsQuotation cs embedded letters mark inside := by
  obtain ⟨c, u, rfl, hscan⟩ := h.scannedAs
  generalize hkind : TokenKind.string embedded = kind at hscan
  generalize ([] : List Char) = rest at hscan
  cases hscan with
  | string letters mark inside hchars hletters hmark hread =>
    obtain rfl := TokenKind.string.inj hkind
    refine ⟨letters, mark, inside, hchars, hletters, hmark, fun hplain => ?_⟩
    have hformatted : (letters.any fun c => c == 'f' || c == 'F') = false := by
      simpa using hplain
    simp only [readStringLiteral, hformatted] at hread
    split at hread
    · exact readString_plain rfl hread
    · exact readString_plain rfl hread
  | number => split at hkind <;> cases hkind
  | word | symbol => cases hkind

/-! ## Numbers -/

/-- What is counted as digits is digits and underscores. -/
theorem mem_take_digitRun {isDigit : Char → Bool} {afterUnderscore : Bool} {x : Char}
    (hx : x ∈ cs.take (digitRun isDigit afterUnderscore cs)) : isDigit x = true ∨ x = '_' := by
  induction cs generalizing afterUnderscore with
  | nil => simp at hx
  | cons d cs ih =>
    rw [digitRun] at hx
    split at hx
    · next hd =>
      rw [List.take_succ_cons] at hx
      rcases List.mem_cons.1 hx with rfl | hx
      · exact .inl hd
      · exact ih hx
    split at hx
    · next hunder =>
      rw [List.take_succ_cons] at hx
      simp only [Bool.and_eq_true, beq_iff_eq] at hunder
      rcases List.mem_cons.1 hx with rfl | hx
      · exact .inr hunder.1
      · exact ih hx
    · simp at hx

/-- Letters and signs that no plain decimal number has: those of another base, and those that mark a number as
imaginary or long. -/
def otherLetters : List Char := ['x', 'X', 'o', 'O', 'b', 'B', 'j', 'J', 'l', 'L']

/-- The characters that make a number a float. -/
def floatMarks : List Char := ['.', 'e', 'E']

/-- A number of another base has the letter of the base. -/
theorem mem_of_basedNumber {n : Nat} (h : basedNumber c u = some n) : ∃ x ∈ u, x ∈ otherLetters := by
  cases u with
  | nil => cases h
  | cons letter u =>
    simp only [basedNumber, Option.ite_none_right_eq_some] at h
    obtain ⟨n, hbased, -⟩ := Option.map_eq_some_iff.1 h.2
    refine ⟨letter, List.mem_cons_self, ?_⟩
    unfold basedRun at hbased
    split at hbased
    · next hx => rcases Bool.or_eq_true_iff.1 hx with hx | hx <;> rw [eq_of_beq hx] <;> decide
    split at hbased
    · next hx => rcases Bool.or_eq_true_iff.1 hx with hx | hx <;> rw [eq_of_beq hx] <;> decide
    split at hbased
    · next hx => rcases Bool.or_eq_true_iff.1 hx with hx | hx <;> rw [eq_of_beq hx] <;> decide
    · cases hbased

theorem mem_of_pointRun {cs : List Char} (h : pointRun cs = 1) : '.' ∈ cs := by
  cases cs with
  | nil => cases h
  | cons d cs =>
    rw [pointRun] at h
    split at h
    · next hd => exact List.mem_cons.2 (.inl (eq_of_beq hd).symm)
    · cases h

theorem mem_of_exponentRun {cs : List Char} (h : exponentRun cs ≠ 0) : 'e' ∈ cs ∨ 'E' ∈ cs := by
  unfold exponentRun at h
  split at h
  · next e s cs =>
    split at h
    · next he =>
      rcases Bool.or_eq_true_iff.1 he with he | he
      · exact .inl (List.mem_cons.2 (.inl (eq_of_beq he).symm))
      · exact .inr (List.mem_cons.2 (.inl (eq_of_beq he).symm))
    · exact absurd rfl h
  · exact absurd rfl h

/-- A decimal number that is a float has a point or an exponent. -/
theorem mem_of_decimalNumber (h : (decimalNumber c u).1 = true) : ∃ x ∈ c :: u, x ∈ floatMarks := by
  simp only [decimalNumber, Bool.or_eq_true, beq_iff_eq, bne_iff_ne] at h
  rcases h with (rfl | hpoint) | hexponent
  · exact ⟨'.', List.mem_cons_self, by decide⟩
  · split at hpoint
    · cases hpoint
    · exact ⟨'.', List.mem_cons_of_mem _ (List.mem_of_mem_drop (mem_of_pointRun hpoint)), by decide⟩
  · rcases mem_of_exponentRun hexponent with he | he
    · exact ⟨'e', List.mem_cons_of_mem _ (List.mem_of_mem_drop he), by decide⟩
    · exact ⟨'E', List.mem_cons_of_mem _ (List.mem_of_mem_drop he), by decide⟩

theorem pointRun_le_one (cs : List Char) : pointRun cs ≤ 1 := by
  unfold pointRun
  split
  · split <;> decide
  · decide

/-- What is counted of a decimal number that is no float is digits and underscores. -/
theorem decimalNumber_whole (h : (decimalNumber c u).1 = false) :
    c ≠ '.' ∧ (decimalNumber c u).2 = digitRun Char.isDigit false u := by
  simp only [decimalNumber, Bool.or_eq_false_iff, beq_eq_false_iff_ne, bne_eq_false_iff_eq] at h ⊢
  obtain ⟨⟨hpoint, hrun⟩, hexponent⟩ := h
  have hdot : (c == '.') = false := beq_eq_false_iff_ne.2 hpoint
  simp only [hdot, Bool.false_eq_true, if_false, Bool.false_or] at hrun hexponent ⊢
  have hnone : pointRun (u.drop (digitRun Char.isDigit false u)) = 0 := by
    have hle := pointRun_le_one (u.drop (digitRun Char.isDigit false u))
    omega
  have hfalse : ((0 : Nat) == 1) = false := rfl
  simp only [hnone, hfalse, Bool.false_eq_true, if_false, Nat.add_zero] at hexponent ⊢
  exact ⟨hpoint, by rw [hexponent, Nat.add_zero]⟩

theorem startsNumber_cases (h : startsNumber c u = true) : c.isDigit = true ∨ c = '.' := by
  simp only [startsNumber, Bool.or_eq_true, Bool.and_eq_true, beq_iff_eq] at h
  exact h.imp_right And.left

/-- How a number that stands alone is scanned. -/
theorem scannedAs_number (isFloat : Bool) (h : IsLexeme (if isFloat then .float else .integer) cs) :
    ∃ c u, cs = c :: u ∧ startsNumber c u = true ∧ (numberRun c u).1 = isFloat ∧
      u.length ≤ (numberRun c u).2 := by
  obtain ⟨c, u, rfl, hscan⟩ := h.scannedAs
  refine ⟨c, u, rfl, ?_⟩
  generalize hkind : (if isFloat then TokenKind.float else .integer) = kind at hscan
  generalize hrest : ([] : List Char) = rest at hscan
  cases hscan with
  | number hstart =>
    refine ⟨hstart, ?_, List.drop_eq_nil_iff.1 hrest.symm⟩
    cases isFloat <;> cases hfloat : (numberRun c u).1 <;> simp_all
  | string | word | symbol => cases isFloat <;> cases hkind

/-- **A float has a point or an exponent.** -/
theorem IsLexeme.float_marked (h : IsLexeme .float cs) : ∃ x ∈ cs, x ∈ floatMarks := by
  obtain ⟨c, u, rfl, -, hfloat, -⟩ := scannedAs_number true h
  unfold numberRun at hfloat
  split at hfloat
  · cases hfloat
  · exact mem_of_decimalNumber hfloat

/-- What a letter may follow is the whole number but for that letter. -/
theorem mem_of_suffixRun {letters : List Char} {n : Nat} {x : Char}
    (hall : u.length ≤ n + suffixRun letters (u.drop n)) (hx : x ∈ u) :
    x ∈ u.take n ∨ x ∈ letters := by
  rw [← List.take_append_drop n u] at hx
  refine (List.mem_append.1 hx).imp_right fun hx => ?_
  have hlength := List.length_drop (l := u) (i := n)
  cases hdrop : u.drop n with
  | nil =>
    rw [hdrop] at hx
    cases hx
  | cons d more =>
    rw [hdrop] at hall hx hlength
    rw [suffixRun] at hall
    split at hall
    · next hd =>
      have hnil : more = [] := List.length_eq_zero_iff.1 (by rw [List.length_cons] at hlength; omega)
      rw [hnil, List.mem_singleton] at hx
      rw [hx]
      exact List.contains_iff_mem.1 hd
    · rw [List.length_cons] at hlength
      omega

/-- **A whole number has none**, unless it is of another base or marked as imaginary or long. -/
theorem IsLexeme.integer_unmarked (h : IsLexeme .integer cs) (hplain : ∀ x ∈ cs, x ∉ otherLetters) :
    ∀ x ∈ cs, x ∉ floatMarks := by
  obtain ⟨c, u, rfl, hstart, hfloat, hall⟩ := scannedAs_number false h
  unfold numberRun at hfloat hall
  split at hfloat
  · next n hbased =>
    obtain ⟨x, hmem, hother⟩ := mem_of_basedNumber hbased
    exact absurd hother (hplain x (List.mem_cons_of_mem _ hmem))
  · next hbased =>
    simp only [hbased] at hall
    obtain ⟨hpoint, hwhole⟩ := decimalNumber_whole hfloat
    rw [hwhole] at hall
    have hdigit : ∀ x, x.isDigit = true ∨ x = '_' → x ∉ floatMarks := by
      rintro x (hx | rfl)
      · intro hmark
        simp only [floatMarks, List.mem_cons, List.not_mem_nil, or_false] at hmark
        rcases hmark with rfl | rfl | rfl <;> cases hx
      · decide
    intro x hx
    rcases List.mem_cons.1 hx with rfl | hx
    · exact hdigit x (.inl ((startsNumber_cases hstart).resolve_right hpoint))
    · rcases mem_of_suffixRun hall hx with htake | hsuffix
      · exact hdigit x (mem_take_digitRun htake)
      · have hother : ∀ x ∈ ['l', 'L', 'j', 'J'], x ∈ otherLetters := by simp [otherLetters]
        exact absurd (hother x hsuffix) (hplain x (List.mem_cons_of_mem _ hx))

end TypedStubs.Syntax
