import TypedStubs.Proofs.Import.Line
import TypedStubs.Proofs.Syntax.Heads
import TypedStubs.Proofs.Syntax.Spelling

/-! # Tokens have no blanks at their ends

No token that stands alone starts or ends with a blank: a word is characters of names, a string has a quotation
mark at its end, and numbers and symbols are written in printable characters (`IsLexeme.isTrimmed`).  So there is
nothing to trim where tokens are written without what stands before the first of them (`Scanned.isTrimmed`).
-/
namespace TypedStubs.Syntax

open Text (IsTrimmed)

variable {kind : TokenKind} {c : Char} {cs u : List Char} {n m depth : Nat}

/-! ## The characters of numbers and symbols -/

/-- Whether a character is a letter, a digit or a sign of the smallest character set. -/
def IsPrintable (c : Char) : Prop := 0x20 < c.toNat ∧ c.toNat < 0x7F

instance : DecidablePred IsPrintable := fun c => inferInstanceAs (Decidable (0x20 < c.toNat ∧ c.toNat < 0x7F))

theorem IsPrintable.isBlank (h : IsPrintable c) : Text.isBlank c = false := by
  refine Bool.eq_false_iff.2 fun hblank => ?_
  have hcodes : ∀ n ∈ Import.blankCodes, ¬ (0x20 < n ∧ n < 0x7F) := by decide +kernel
  exact hcodes _ (Import.toNat_mem_blankCodes hblank) h

theorem isPrintable_of_between {a b : Char} (ha : IsPrintable a) (hb : IsPrintable b) (h : a ≤ c ∧ c ≤ b) :
    IsPrintable c := by
  obtain ⟨ha, -⟩ := ha
  obtain ⟨-, hb⟩ := hb
  exact ⟨Nat.lt_of_lt_of_le ha (UInt32.le_iff_toNat_le.1 h.1), Nat.lt_of_le_of_lt (UInt32.le_iff_toNat_le.1 h.2) hb⟩

theorem isPrintable_of_isDigit (h : c.isDigit = true) : IsPrintable c := by
  simp only [Char.isDigit, Bool.and_eq_true, decide_eq_true_eq] at h
  exact isPrintable_of_between (a := '0') (b := '9') (by decide) (by decide) ⟨h.1, h.2⟩

theorem isPrintable_of_either {a b : Char} (ha : IsPrintable a) (hb : IsPrintable b)
    (h : (c == a || c == b) = true) : IsPrintable c := by
  rcases Bool.or_eq_true_iff.1 h with h | h
  · exact eq_of_beq h ▸ ha
  · exact eq_of_beq h ▸ hb

/-- The characters at the front, up to the end of a second run behind a first one. -/
theorem forall_take_add {p : Char → Prop} (h : ∀ x ∈ cs.take n, p x) (h' : ∀ x ∈ (cs.drop n).take m, p x) :
    ∀ x ∈ cs.take (n + m), p x := by
  rw [List.take_add]
  exact List.forall_mem_append.2 ⟨h, h'⟩

theorem isPrintable_digitRun {isDigit : Char → Bool} (hdigit : ∀ x, isDigit x = true → IsPrintable x)
    (afterUnderscore : Bool) (cs : List Char) :
    ∀ x ∈ cs.take (digitRun isDigit afterUnderscore cs), IsPrintable x := by
  intro x hx
  rcases mem_take_digitRun hx with hx | rfl
  · exact hdigit x hx
  · decide

theorem isPrintable_basedNumber (h : basedNumber c u = some n) : ∀ x ∈ u.take n, IsPrintable x := by
  cases u with
  | nil => cases h
  | cons letter u =>
    simp only [basedNumber, Option.ite_none_right_eq_some] at h
    obtain ⟨n, hbased, rfl⟩ := Option.map_eq_some_iff.1 h.2
    have hdigits : ∀ {isDigit : Char → Bool}, (∀ x, isDigit x = true → IsPrintable x) →
        digits? isDigit u = some n → ∀ x ∈ u.take n, IsPrintable x := by
      intro isDigit hdigit hn
      simp only [digits?, Option.ite_none_left_eq_some] at hn
      obtain rfl := Option.some.inj hn.2
      exact isPrintable_digitRun hdigit false u
    rw [List.take_succ_cons, List.forall_mem_cons]
    unfold basedRun at hbased
    split at hbased
    · next hx =>
      refine ⟨isPrintable_of_either (by decide) (by decide) hx, hdigits (fun x hx => ?_) hbased⟩
      simp only [isHexDigit, Bool.or_eq_true, decide_eq_true_eq] at hx
      rcases hx with (hx | hx) | hx
      · exact isPrintable_of_isDigit hx
      · exact isPrintable_of_between (by decide) (by decide) hx
      · exact isPrintable_of_between (by decide) (by decide) hx
    split at hbased
    · next hx =>
      refine ⟨isPrintable_of_either (by decide) (by decide) hx, hdigits (fun x hx => ?_) hbased⟩
      exact isPrintable_of_between (by decide) (by decide) (of_decide_eq_true hx)
    split at hbased
    · next hx =>
      refine ⟨isPrintable_of_either (by decide) (by decide) hx, hdigits (fun x hx => ?_) hbased⟩
      exact isPrintable_of_either (by decide) (by decide) hx
    · cases hbased

theorem isPrintable_decimalRun (cs : List Char) : ∀ x ∈ cs.take (decimalRun cs), IsPrintable x := by
  cases cs with
  | nil => simp
  | cons d cs =>
    rw [decimalRun]
    split
    · next hd =>
      rw [List.take_succ_cons, List.forall_mem_cons]
      exact ⟨isPrintable_of_isDigit hd, isPrintable_digitRun (fun x => isPrintable_of_isDigit) false cs⟩
    · simp

theorem isPrintable_exponentRun (cs : List Char) : ∀ x ∈ cs.take (exponentRun cs), IsPrintable x := by
  match cs with
  | [] | [_] => simp [exponentRun]
  | e :: s :: cs =>
    rw [exponentRun]
    split
    · next he =>
      have hletter : IsPrintable e := isPrintable_of_either (by decide) (by decide) he
      dsimp only
      generalize hsign : (if s == '+' || s == '-' then 1 else 0) = sign
      have hfirst : ∀ x ∈ (s :: cs).take sign, IsPrintable x := by
        subst hsign
        split
        · next hs =>
          have hs : IsPrintable s := isPrintable_of_either (by decide) (by decide) hs
          simpa using hs
        · simp
      have hall := forall_take_add hfirst (isPrintable_decimalRun ((s :: cs).drop sign))
      split
      · simp
      · rw [Nat.add_comm _ sign, List.take_succ_cons, List.forall_mem_cons]
        exact ⟨hletter, hall⟩
    · simp

theorem isPrintable_pointRun (cs : List Char) : ∀ x ∈ cs.take (pointRun cs), IsPrintable x := by
  cases cs with
  | nil => simp
  | cons d cs =>
    rw [pointRun]
    split
    · next hd =>
      rw [eq_of_beq hd]
      simp
      decide
    · simp

theorem isPrintable_suffixRun {letters : List Char} (h : ∀ x ∈ letters, IsPrintable x) (cs : List Char) :
    ∀ x ∈ cs.take (suffixRun letters cs), IsPrintable x := by
  cases cs with
  | nil => simp
  | cons d cs =>
    rw [suffixRun]
    split
    · next hd => simpa using h d (List.contains_iff_mem.1 hd)
    · simp

theorem isPrintable_decimalNumber (c : Char) (u : List Char) :
    ∀ x ∈ u.take (decimalNumber c u).2, IsPrintable x := by
  unfold decimalNumber
  dsimp only
  have hwhole : ∀ x ∈ u.take (if c == '.' then 0 else digitRun Char.isDigit false u), IsPrintable x := by
    split
    · simp
    · exact isPrintable_digitRun (fun x => isPrintable_of_isDigit) false u
  generalize (if c == '.' then 0 else digitRun Char.isDigit false u) = whole at hwhole ⊢
  have hpoint : ∀ x ∈ (u.drop whole).take (if c == '.' then 0 else pointRun (u.drop whole)), IsPrintable x := by
    split
    · simp
    · exact isPrintable_pointRun _
  generalize (if c == '.' then 0 else pointRun (u.drop whole)) = point at hpoint ⊢
  have hfraction : ∀ x ∈ (u.drop (whole + point)).take
      (if (c == '.' || point == 1) = true then decimalRun (u.drop (whole + point)) else 0), IsPrintable x := by
    split
    · exact isPrintable_decimalRun _
    · simp
  exact forall_take_add (forall_take_add (forall_take_add hwhole hpoint) hfraction) (isPrintable_exponentRun _)

theorem isPrintable_numberRun (c : Char) (u : List Char) : ∀ x ∈ u.take (numberRun c u).2, IsPrintable x := by
  unfold numberRun
  split
  · next hbased =>
    exact forall_take_add (isPrintable_basedNumber hbased)
      (isPrintable_suffixRun (forall_mem_of_all (by decide)) _)
  · exact forall_take_add (isPrintable_decimalNumber c u)
      (isPrintable_suffixRun (forall_mem_of_all (by decide)) _)

/-! ## The ends of a token -/

theorem isTrimmed_of_forall (h : ∀ x ∈ cs, Text.isBlank x = false) : IsTrimmed cs where
  front := fun x hx => h x (List.mem_of_head? hx)
  back := fun x hx => h x (List.mem_of_getLast? hx)

/-- A string ends with its quotation mark. -/
theorem exists_of_readStringLiteral {letters inside : List Char} {mark : Char} {embedded : List (List Char)}
    (h : readStringLiteral letters mark inside = some (embedded, [])) : ∃ used, inside = used ++ [mark] := by
  unfold readStringLiteral at h
  simp only at h
  split at h
  · obtain ⟨used, hused⟩ := readString_mark h
    obtain ⟨tail, rfl⟩ := List.isPrefixOf_iff_prefix.1 ‹_›
    exact ⟨[mark, mark] ++ used, by simpa using hused⟩
  · exact readString_mark h

/-- **No token that stands alone starts or ends with a blank.** -/
theorem IsLexeme.isTrimmed (h : IsLexeme kind cs) : IsTrimmed cs := by
  obtain ⟨c, u, rfl, hscan⟩ := h.scannedAs
  generalize hrest : ([] : List Char) = rest at hscan
  cases hscan with
  | string letters mark inside hchars hletters hmark hread =>
    subst hrest
    obtain ⟨used, rfl⟩ := exists_of_readStringLiteral hread
    have hmark : Text.isBlank mark = false := by rcases hmark with rfl | rfl <;> decide
    have hletter : ∀ x ∈ ['b', 'B', 'f', 'F', 'r', 'R', 'u', 'U'], Text.isBlank x = false :=
      forall_mem_of_all (by decide)
    have hback : (letters ++ mark :: (used ++ [mark])).getLast? = some mark := by
      rw [List.getLast?_append, ← List.cons_append, List.getLast?_concat]
      rfl
    rw [hchars]
    refine ⟨fun x hx => ?_, fun x hx => Option.some.inj (hback.symm.trans hx) ▸ hmark⟩
    cases letters with
    | nil => exact Option.some.inj hx ▸ hmark
    | cons l letters =>
      obtain rfl := Option.some.inj hx
      exact hletter l (List.contains_iff_mem.1 (List.all_eq_true.1 hletters l List.mem_cons_self))
  | word hstart =>
    refine isTrimmed_of_forall fun x hx => ?_
    have hname := List.dropWhile_eq_nil_iff.1 hrest.symm
    rcases List.mem_cons.1 hx with rfl | hx
    · exact Import.isBlank_of_isNameChar (Import.isNameChar_of_continuesName (continuesName_of_startsWord hstart))
    · exact Import.isBlank_of_isNameChar (Import.isNameChar_of_continuesName (hname x hx))
  | number hstart =>
    have hall := isPrintable_numberRun c u
    rw [List.take_of_length_le (List.drop_eq_nil_iff.1 hrest.symm)] at hall
    have hc : IsPrintable c := by
      rcases startsNumber_cases hstart with hc | rfl
      · exact isPrintable_of_isDigit hc
      · decide
    exact isTrimmed_of_forall fun x hx => (List.forall_mem_cons.2 ⟨hc, hall⟩ x hx).isBlank
  | symbol s hmem hfits =>
    have hlength := congrArg List.length hrest
    have hne := List.length_pos_iff.2 (symbols_ne_nil s hmem)
    rw [List.length_nil, List.length_drop] at hlength
    have hwhole : s = c :: u := hfits.eq_of_length_le (by rw [List.length_cons]; omega)
    have hprintable : ∀ s ∈ symbols, (s.all fun x => decide (IsPrintable x)) = true := by decide
    exact isTrimmed_of_forall fun x hx => (forall_mem_of_all (hprintable s hmem) x (hwhole ▸ hx)).isBlank

/-- **Neither does the text of tokens on a line.** -/
theorem Scanned.isTrimmed {ts : List Token} (h : Scanned depth ts) (hne : ts ≠ [])
    (hcomment : ∀ t ∈ ts, t.isComment = false) : IsTrimmed (spanChars ts) where
  front := by
    obtain ⟨t, us, rfl⟩ := List.exists_cons_of_ne_nil hne
    have hlexeme := h.isLexeme (hcomment t List.mem_cons_self)
    obtain ⟨c, u, hchars, -⟩ := id hlexeme
    rw [spanChars_cons, List.head?_append_of_ne_nil _ (by simp [hchars])]
    exact hlexeme.isTrimmed.front
  back := by
    obtain ⟨front, t, rfl⟩ := List.eq_nil_or_concat ts |>.resolve_left hne
    rw [List.concat_eq_append] at h hcomment ⊢
    have hlexeme := h.drop.isLexeme (hcomment t (by simp))
    obtain ⟨c, u, hchars, -⟩ := id hlexeme
    have hsuffix : t.chars <:+ spanChars (front ++ [t]) := by
      cases front with
      | nil => simp [spanChars_cons]
      | cons u front => exact ⟨u.chars ++ (written front ++ t.before), by simp [spanChars_cons]⟩
    obtain ⟨x, hx⟩ := hsuffix
    rw [← hx, List.getLast?_append_of_ne_nil _ (by simp [hchars])]
    exact hlexeme.isTrimmed.back

/-- Nor does a piece. -/
theorem Piece.isTrimmed {ts : List Token} (h : Piece depth cs ts) : IsTrimmed cs := by
  have hcomment : ∀ t ∈ fromGap [] ts, t.isComment = false := fun t ht => by
    have hordinary := h.ordinary [] t ht
    simp only [Lexeme.isOrdinary, Bool.and_eq_true, Bool.not_eq_true'] at hordinary
    exact hordinary.1
  obtain ⟨t, us, rfl⟩ := List.exists_cons_of_ne_nil h.ne_nil
  rw [← h.chars, ← spanChars_fromGap []]
  exact h.scanned.isTrimmed (List.cons_ne_nil _ _) hcomment

end TypedStubs.Syntax
