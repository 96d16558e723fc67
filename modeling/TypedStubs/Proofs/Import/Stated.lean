import TypedStubs.Proofs.Import.Line
import TypedStubs.Proofs.Syntax.Path
import TypedStubs.Proofs.Syntax.Statements

/-! # What the imports of a source are made of

The paths, names and aliases of an import are read off tokens that are words and dots.  So a path starts
and ends with such a character, one of a module has no comma in it, and a name without dots is a word,
whatever gaps stand between the tokens (`isSpelled_of_isStated`).
-/
namespace TypedStubs.Syntax

open Rule

variable {α : Type} {ts rest : List Token}

/-! ## What is taken -/

/-- A rule that takes nothing but tokens that satisfy `p`. -/
def Takes (p : Lexeme → Bool) (r : Rule α) : Prop :=
  ∀ ⦃ts a rest⦄, r.read ts = some (a, rest) → ∃ us, ts = us ++ rest ∧ ∀ t ∈ us, p t.toLexeme = true

namespace Takes

variable {β : Type} {p : Lexeme → Bool}

theorem pure (a : α) : Takes p (Pure.pure a : Rule α) := by
  intro ts b rest h
  obtain ⟨-, rfl⟩ := Prod.mk.inj (Option.some.inj h)
  exact ⟨[], rfl, by simp⟩

theorem ahead (q : Ahead) : Takes p (.ahead q) := by
  intro ts b rest h
  obtain ⟨-, rfl⟩ := Prod.mk.inj (Option.some.inj h)
  exact ⟨[], rfl, by simp⟩

theorem take {q : Lexeme → Bool} (h : ∀ l, q l = true → p l = true) : Takes p (.take q) := by
  intro ts l rest hread
  obtain ⟨t, rfl, rfl, hq⟩ := read_take_eq_some.1 hread
  exact ⟨[t], rfl, List.forall_mem_singleton.2 (h _ hq)⟩

theorem bind {first : Rule α} {next : α → Rule β} (hf : Takes p first) (hn : ∀ a, Takes p (next a)) :
    Takes p (first >>= next) := by
  intro ts b rest h
  obtain ⟨a, mid, hfirst, hnext⟩ := read_bind_eq_some.1 h
  obtain ⟨us, rfl, hus⟩ := hf hfirst
  obtain ⟨vs, rfl, hvs⟩ := hn a hnext
  exact ⟨us ++ vs, by simp, fun t ht => (List.mem_append.1 ht).elim (hus t) (hvs t)⟩

theorem ite {c : Bool} {yes no : Rule α} (hy : Takes p yes) (hn : Takes p no) :
    Takes p (if c then yes else no) := by
  cases c
  · exact hn
  · exact hy

theorem discard {r : Rule α} (h : Takes p r) : Takes p (discard r) := bind h fun _ => pure _

theorem withText {r : Rule α} (h : Takes p r) : Takes p (.withText r) := fun _ _ _ hread =>
  h (read_withText_eq_some.1 hread).1

theorem many {go : Ahead} {r : Rule α} (h : Takes p r) : Takes p (.many go r) := by
  intro ts as rest hread
  induction hn : ts.length using Nat.strongRecOn generalizing ts as with
  | _ n ih =>
    subst hn
    rcases read_many_eq_some.1 hread with ⟨-, -, rfl⟩ | ⟨-, a, mid, more, hfirst, hlt, hmore, -⟩
    · exact ⟨[], rfl, by simp⟩
    · obtain ⟨us, rfl, hus⟩ := h hfirst
      obtain ⟨vs, rfl, hvs⟩ := ih _ hlt hmore rfl
      exact ⟨us ++ vs, by simp, fun t ht => (List.mem_append.1 ht).elim (hus t) (hvs t)⟩

theorem anyWord (h : ∀ l : Lexeme, l.kind = .word → p l = true) : Takes p anyWord :=
  bind (take fun l hl => h l (by simpa using hl)) fun _ => pure _

theorem symbol {s : String} (h : ∀ l : Lexeme, l.isSymbol s = true → p l = true) : Takes p (symbol s) :=
  discard (take h)

theorem takeWord {w : String} (h : ∀ l : Lexeme, l.kind = .word → p l = true) : Takes p (takeWord w) := by
  have hword : Takes p (word w) := discard (take fun l hl => h l (by
    simp only [Lexeme.isWord, Bool.and_eq_true, beq_iff_eq] at hl
    exact hl.1))
  exact bind (ahead _) fun _ => ite (bind hword fun _ => pure _) (pure _)

theorem mono {q : Lexeme → Bool} {r : Rule α} (h : Takes p r) (hpq : ∀ l, p l = true → q l = true) :
    Takes q r := fun _ _ _ hread =>
  let ⟨us, hts, hus⟩ := h hread
  ⟨us, hts, fun t ht => hpq _ (hus t ht)⟩

theorem commaList {r : Rule α} (hr : Takes p r) (hcomma : ∀ l : Lexeme, l.isSymbol "," = true → p l = true) :
    Takes p (commaList r) := by
  refine bind hr fun _ => bind (many (bind (symbol hcomma) fun _ => ?_)) fun _ => pure _
  exact bind (bind (ahead _) fun _ => pure _) fun _ => ite (pure _) (bind hr fun _ => pure _)

end Takes

/-! ## What is read of a list -/

theorem mem_of_read_many {go : Ahead} {r : Rule α} {as : List α} {a : α}
    (h : (Rule.many go r).read ts = some (as, rest)) (ha : a ∈ as) :
    ∃ us vs, us <:+ ts ∧ r.read us = some (a, vs) := by
  induction hn : ts.length using Nat.strongRecOn generalizing ts as with
  | _ n ih =>
    subst hn
    rcases read_many_eq_some.1 h with ⟨-, rfl, -⟩ | ⟨-, b, mid, more, hfirst, hlt, hmore, rfl⟩
    · cases ha
    · rcases List.mem_cons.1 ha with rfl | ha
      · exact ⟨ts, mid, List.suffix_refl _, hfirst⟩
      · obtain ⟨us, vs, hus, hread⟩ := ih _ hlt hmore ha rfl
        exact ⟨us, vs, hus.trans (read_consumes _ hfirst), hread⟩

/-- What is listed between commas is read somewhere. -/
theorem mem_of_read_commaListTo {ended : Rule Bool} {r : Rule α} {found : List α × Bool} {a : α}
    (h : (commaListTo ended r).read ts = some (found, rest)) (ha : a ∈ found.1) :
    ∃ us vs, us <:+ ts ∧ r.read us = some (a, vs) := by
  obtain ⟨first, mid, hfirst, h⟩ := read_bind_eq_some.1 h
  obtain ⟨more, mid', hmore, h⟩ := read_bind_eq_some.1 h
  obtain ⟨rfl, rfl⟩ := Prod.mk.inj (Option.some.inj h)
  rcases List.mem_cons.1 ha with rfl | ha
  · exact ⟨ts, mid, List.suffix_refl _, hfirst⟩
  · obtain ⟨item, hitem, heq⟩ := List.mem_filterMap.1 ha
    obtain rfl : item = some a := heq
    obtain ⟨us, vs, hus, hread⟩ := mem_of_read_many hmore hitem
    obtain ⟨_, us₁, hcomma, hread⟩ := read_bind_eq_some.1 hread
    obtain ⟨stop, us₂, hended, hread⟩ := read_bind_eq_some.1 hread
    cases stop with
    | true => cases (Prod.mk.inj (Option.some.inj hread)).1
    | false =>
      obtain ⟨b, us₃, hb, hread⟩ := read_bind_eq_some.1 hread
      obtain ⟨heq, -⟩ := Prod.mk.inj (Option.some.inj hread)
      obtain rfl := Option.some.inj heq
      have hsub : us₂ <:+ us := (read_consumes _ hended).trans (read_consumes _ hcomma)
      exact ⟨us₂, us₃, hsub.trans (hus.trans (read_consumes _ hfirst)), hb⟩

/-! ## Paths -/

/-- Whether a lexeme is a word or dots. -/
def Lexeme.isOfPath (l : Lexeme) : Bool := l.kind == .word || isOneOf [".", "..."] l

theorem isOfPath_of_word {l : Lexeme} (h : l.kind = .word) : l.isOfPath = true := by
  simp [Lexeme.isOfPath, h]

theorem isOfPath_of_isOneOf {l : Lexeme} (h : isOneOf [".", "..."] l = true) : l.isOfPath = true := by
  simp [Lexeme.isOfPath, h]

theorem isOfPath_of_dot {l : Lexeme} (h : l.isSymbol "." = true) : l.isOfPath = true := by
  simp only [Lexeme.isSymbol, Bool.and_eq_true, beq_iff_eq] at h
  exact isOfPath_of_isOneOf (by simp [isOneOf, h.1, h.2])

theorem moreWords_takes : Takes Lexeme.isOfPath
    (.many (.token (·.isSymbol ".")) (do symbol "."; anyWord)) :=
  .many (.bind (.symbol fun _ => isOfPath_of_dot) fun _ => .anyWord fun _ => isOfPath_of_word)

theorem dottedName_takes : Takes Lexeme.isOfPath dottedName :=
  .bind (.withText (.bind (.discard (.anyWord fun _ => isOfPath_of_word)) fun _ => moreWords_takes))
    fun _ => .pure _

theorem asName_takes : Takes Lexeme.isOfPath asName? :=
  .bind (.takeWord fun _ => isOfPath_of_word) fun _ =>
    .ite (.bind (.anyWord fun _ => isOfPath_of_word) fun _ => .pure _) (.pure _)

theorem importedModules_takes :
    Takes (fun l => l.isOfPath || l.isSymbol ",") (commaList importedModule) := by
  have hmodule : Takes Lexeme.isOfPath importedModule :=
    .bind dottedName_takes fun _ => .bind asName_takes fun _ => .pure _
  exact .commaList (hmodule.mono fun l hl => by simp [hl]) fun l hl => by simp [hl]

theorem importSource_takes : Takes Lexeme.isOfPath importSource := by
  refine .bind (.withText (.bind (.many ?_) fun _ => .bind (.ahead _) fun _ => ?_)) fun _ => .pure _
  · exact .discard (.take fun _ => isOfPath_of_isOneOf)
  · exact .ite (.discard dottedName_takes) (.pure _)

/-- A dotted name is a word and, behind it, nothing or a dot and more. -/
theorem dottedName_eq_some {path : String} (h : dottedName.read ts = some (path, rest)) :
    ∃ w more, ts = w :: (more ++ rest) ∧ w.kind = .word ∧ (∀ t ∈ more, t.isOfPath = true) ∧
      (more ≠ [] → ∃ t ∈ more, t.isSymbol "." = true) ∧ path = String.ofList (spanChars (w :: more)) := by
  obtain ⟨⟨text, found⟩, mid, hwith, h⟩ := read_bind_eq_some.1 h
  obtain ⟨rfl, rfl⟩ := Prod.mk.inj (Option.some.inj h)
  obtain ⟨hread, rfl⟩ := read_withText_eq_some.1 hwith
  obtain ⟨_, ts₁, hword, hmore⟩ := read_bind_eq_some.1 hread
  obtain ⟨first, hword⟩ := read_discard_eq_some.1 hword
  obtain ⟨w, rfl, hkind, -⟩ := read_anyWord_eq_some.1 hword
  obtain ⟨more, rfl, hall⟩ := moreWords_takes hmore
  refine ⟨w, more, rfl, hkind, hall, fun hne => ?_, ?_⟩
  · obtain ⟨t, more, rfl⟩ := List.exists_cons_of_ne_nil hne
    rcases read_many_eq_some.1 hmore with ⟨-, -, hrest⟩ | ⟨hdot, -⟩
    · have := congrArg List.length hrest
      simp only [List.cons_append, List.length_cons, List.length_append] at this
      omega
    · exact ⟨t, List.mem_cons_self, hdot⟩
  · rw [← List.cons_append, textSince_append_right]

/-- The source of members is made of words and dots, at least one. -/
theorem importSource_eq_some {source : String} (h : importSource.read ts = some (source, rest)) :
    ∃ us, us ≠ [] ∧ ts = us ++ rest ∧ (∀ t ∈ us, t.isOfPath = true) ∧
      source = String.ofList (spanChars us) := by
  obtain ⟨us, rfl, hall⟩ := importSource_takes h
  obtain ⟨⟨text, found⟩, mid, hwith, h⟩ := read_bind_eq_some.1 h
  obtain ⟨rfl, rfl⟩ := Prod.mk.inj (Option.some.inj h)
  obtain ⟨hread, rfl⟩ := read_withText_eq_some.1 hwith
  refine ⟨us, ?_, rfl, hall, textSince_append_right us mid⟩
  rintro rfl
  obtain ⟨dots, ts₁, hdots, hread⟩ := read_bind_eq_some.1 hread
  obtain ⟨atImport, ts₂, hahead, hread⟩ := read_bind_eq_some.1 hread
  obtain ⟨-, rfl⟩ := Prod.mk.inj (Option.some.inj hahead)
  have hle := (read_consumes _ hread).length_le
  rcases read_many_eq_some.1 hdots with ⟨-, rfl, hsame⟩ | ⟨-, a, mid', more, -, hlt, hmore, -⟩
  · -- without dots there is a dotted name
    obtain ⟨path, hpath⟩ := read_discard_eq_some.1 hread
    obtain ⟨w, more, rfl, -⟩ := dottedName_eq_some hpath
    have := congrArg List.length hsame
    simp only [List.nil_append, List.length_cons, List.length_append] at this
    omega
  · have := (read_consumes _ hmore).length_le
    simp only [List.nil_append] at hlt
    omega

theorem asName_eq_some {asName : Option String} (h : asName?.read ts = some (asName, rest)) :
    ∀ a ∈ asName, ∃ t ∈ ts, t.kind = .word ∧ t.text = a := by
  obtain ⟨found, ts₁, htest, h⟩ := read_bind_eq_some.1 h
  cases found with
  | false =>
    obtain ⟨rfl, -⟩ := Prod.mk.inj (Option.some.inj h)
    simp
  | true =>
    obtain ⟨name, ts₂, hname, h⟩ := read_bind_eq_some.1 h
    obtain ⟨rfl, -⟩ := Prod.mk.inj (Option.some.inj h)
    obtain ⟨t, rfl, hkind, htext⟩ := read_anyWord_eq_some.1 hname
    intro a ha
    obtain rfl := Option.some.inj ha
    exact ⟨t, (read_consumes _ htest).subset List.mem_cons_self, hkind, htext⟩

/-! ## Characters -/

/-- The characters of a word. -/
theorem exists_chars_of_word {depth : Nat} {t : Token} (hscan : Scanned depth ts) (ht : t ∈ ts)
    (h : t.kind = .word) :
    ∃ c u, t.chars = c :: u ∧ Text.startsWord c = true ∧ ∀ d ∈ u, Text.continuesName d = true := by
  obtain ⟨front, back, rfl⟩ := List.append_of_mem ht
  obtain ⟨c, u, hchars, -, hread⟩ := hscan.drop.isLexeme (by simp [Lexeme.isComment, h])
  rw [h] at hread
  exact ⟨c, u, hchars, chars_of_word hread⟩

/-- The characters of a word or of dots. -/
theorem chars_of_path {depth : Nat} {t : Token} (hscan : Scanned depth ts) (ht : t ∈ ts)
    (h : t.isOfPath = true) : t.chars ≠ [] ∧ ∀ c ∈ t.chars, Text.continuesName c = true ∨ c = '.' := by
  simp only [Lexeme.isOfPath, Bool.or_eq_true, beq_iff_eq] at h
  rcases h with hkind | hdots
  · obtain ⟨c, u, hchars, hc, hu⟩ := exists_chars_of_word hscan ht hkind
    rw [hchars]
    exact ⟨List.cons_ne_nil c u, List.forall_mem_cons.2
      ⟨.inl (continuesName_of_startsWord hc), fun d hd => .inl (hu d hd)⟩⟩
  · simp only [isOneOf, Bool.and_eq_true, List.contains_iff_mem, List.mem_cons, List.not_mem_nil,
      or_false] at hdots
    have hchars : t.chars = t.text.toList := (String.toList_ofList).symm
    rcases hdots.2 with htext | htext
    all_goals
      rw [hchars, htext]
      exact ⟨by decide, forall_mem_of_all (by decide)⟩

/-- Outside brackets there is no comment in a gap, and so no comma. -/
theorem comma_not_mem_lineGap {depth : Nat} {inComment : Bool} {source gap rest : List Char}
    (h : lineGap depth inComment source = (gap, rest)) (hdepth : depth = 0) (hc : inComment = false) :
    ',' ∉ gap := by
  fun_induction lineGap depth inComment source generalizing gap with
  | case1 => simp_all
  | case2 => cases hc
  | case3 => simp_all
  | case4 ds hd => exact absurd hdepth hd
  | case5 ds gap' rest heq ih =>
    obtain ⟨rfl, rfl⟩ := Prod.mk.inj h
    simpa using ih heq rfl
  | case6 ds gap' rest heq ih =>
    obtain ⟨rfl, rfl⟩ := Prod.mk.inj h
    simpa using ih heq rfl
  | case7 d ds hn hb1 hb2 hgap gap' rest heq ih =>
    obtain ⟨rfl, rfl⟩ := Prod.mk.inj h
    have hcomma : ',' ≠ d := by
      rintro rfl
      cases hgap
    simpa [hcomma] using ih heq rfl
  | case8 d ds hn hb1 hb2 hgap hd => exact absurd hdepth hd.2
  | case9 => simp_all

theorem comma_not_mem_gap {gap : List Char} (h : IsGap 0 gap) : ',' ∉ gap :=
  comma_not_mem_lineGap (h (stopsGap_of_startsToken (c := ')') (by decide)) []) rfl rfl

theorem spanChars_cons_cons (t u : Token) (us : List Token) :
    spanChars (t :: u :: us) = t.chars ++ (u.before ++ spanChars (u :: us)) := by
  simp [spanChars]

end TypedStubs.Syntax

namespace TypedStubs.Import

open Syntax

theorem isNameChar_of_path {c : Char} (h : Text.continuesName c = true ∨ c = '.') :
    isNameChar c = true := by
  rcases h with h | rfl
  · exact isNameChar_of_continuesName h
  · decide

/-- A text of words and dots starts and ends with a character of one of them. -/
theorem isListed_spanChars {us : List Token} (hne : us ≠ [])
    (h : ∀ t ∈ us, t.chars ≠ [] ∧ ∀ c ∈ t.chars, isNameChar c = true) : IsListed (spanChars us) := by
  have hone : ∀ t ∈ us, IsListed t.chars := fun t ht =>
    ⟨(h t ht).1, fun c hc => (h t ht).2 c (List.mem_of_head? hc), fun c hc =>
      (h t ht).2 c (List.mem_of_getLast? hc)⟩
  clear h
  induction us with
  | nil => exact absurd rfl hne
  | cons t us ih =>
    obtain ⟨ht, hus⟩ := List.forall_mem_cons.1 hone
    cases us with
    | nil => simpa [spanChars] using ht
    | cons u us =>
      rw [spanChars_cons_cons]
      exact ht.append _ (ih (List.cons_ne_nil u us) hus)

theorem comma_not_mem_spanChars {us : List Token} (hchars : ∀ t ∈ us, ',' ∉ t.chars)
    (hgaps : ∀ t ∈ us, ',' ∉ t.before) : ',' ∉ spanChars us := by
  cases us with
  | nil => simp [spanChars]
  | cons t us =>
    simp only [spanChars, List.mem_append, List.mem_flatMap, not_or, not_exists, not_and]
    exact ⟨hchars t List.mem_cons_self, fun u hu =>
      ⟨hgaps u (List.mem_cons_of_mem _ hu), hchars u (List.mem_cons_of_mem _ hu)⟩⟩

/-! ## Imports -/

/-- What is known of an import that a source states: its paths are made of words and dots, perhaps with
gaps between them, only the source of members or of a star starts with a dot, and the alias is a word. -/
def IsSpelled : Import → Prop
  | .module path asName => IsListed path.toList ∧ path.toList.head? ≠ some '.' ∧ ',' ∉ path.toList ∧
    ∀ a ∈ asName, isListable a = true
  | .member source name asName => IsListed source.toList ∧
    ('.' ∉ name.toList → isListable name = true) ∧ ∀ a ∈ asName, isListable a = true
  | .star source => IsListed source.toList

section Stated

variable {depth : Nat} {ts us vs : List Token} {i : Import}

/-- A token of a path whose characters may stand in a name. -/
theorem chars_of_isOfPath (hscan : Scanned depth ts) {t : Token} (ht : t ∈ ts) (h : t.isOfPath = true) :
    t.chars ≠ [] ∧ ∀ c ∈ t.chars, isNameChar c = true := by
  obtain ⟨hne, hall⟩ := chars_of_path hscan ht h
  exact ⟨hne, fun c hc => isNameChar_of_path (hall c hc)⟩

theorem isListable_word (hscan : Scanned depth ts) {t : Token} (ht : t ∈ ts) (h : t.kind = .word) :
    isListable t.text = true := by
  obtain ⟨hne, hall⟩ := chars_of_isOfPath hscan ht (isOfPath_of_word h)
  simpa [isListable, Lexeme.text, hne] using hall

theorem isListable_asName (hscan : Scanned depth ts) (hsub : us <:+ ts) {asName : Option String}
    (h : asName?.read us = some (asName, vs)) : ∀ a ∈ asName, isListable a = true := by
  intro a ha
  obtain ⟨t, ht, hkind, rfl⟩ := asName_eq_some h a ha
  exact isListable_word hscan (hsub.subset ht) hkind

/-- A member that is read has a word for its name, unless there are dots in it. -/
theorem importedMember_spelled (hscan : Scanned depth ts) (hsub : us <:+ ts) {source : String}
    (hsource : IsListed source.toList) (h : (importedMember source).read us = some (i, vs)) :
    i.IsSpelled := by
  obtain ⟨name, mid, hname, h⟩ := Rule.read_bind_eq_some.1 h
  obtain ⟨asName, after, hasName, h⟩ := Rule.read_bind_eq_some.1 h
  obtain ⟨rfl, rfl⟩ := Prod.mk.inj (Option.some.inj h)
  have hmid : mid <:+ ts := (Rule.read_consumes _ hname).trans hsub
  refine ⟨hsource, fun hdot => ?_, isListable_asName hscan hmid hasName⟩
  obtain ⟨w, more, rfl, hkind, -, hdots, rfl⟩ := dottedName_eq_some hname
  have hmore : more = [] := by
    by_contra hne
    obtain ⟨t, ht, hsymbol⟩ := hdots hne
    have hchars := (Rule.Nets.chars_of_isSymbol hsymbol).2
    refine hdot ?_
    rw [String.toList_ofList]
    refine chars_subset_spanChars (List.mem_cons_of_mem _ ht) ?_
    rw [hchars]
    decide
  subst hmore
  have hword := isListable_word hscan (hsub.subset List.mem_cons_self) hkind
  simpa [spanChars, Lexeme.text] using hword

/-- A module that is read outside brackets, between words, dots and commas. -/
theorem importedModule_spelled (hscan : Scanned depth ts) (hgaps : ∀ t ∈ ts, ',' ∉ t.before)
    (hsub : us <:+ ts) (h : importedModule.read us = some (i, vs)) : i.IsSpelled := by
  obtain ⟨path, mid, hpath, h⟩ := Rule.read_bind_eq_some.1 h
  obtain ⟨asName, after, hasName, h⟩ := Rule.read_bind_eq_some.1 h
  obtain ⟨rfl, rfl⟩ := Prod.mk.inj (Option.some.inj h)
  have hmid : mid <:+ ts := (Rule.read_consumes _ hpath).trans hsub
  obtain ⟨w, more, rfl, hkind, hmore, -, rfl⟩ := dottedName_eq_some hpath
  have hmem : ∀ t ∈ w :: more, t ∈ ts := fun t ht => hsub.subset (by
    rw [← List.cons_append]
    exact List.mem_append_left _ ht)
  have hpath : ∀ t ∈ w :: more, t.isOfPath = true :=
    List.forall_mem_cons.2 ⟨isOfPath_of_word hkind, hmore⟩
  have hchars : ∀ t ∈ w :: more, t.chars ≠ [] ∧ ∀ c ∈ t.chars, isNameChar c = true := fun t ht =>
    chars_of_isOfPath hscan (hmem t ht) (hpath t ht)
  obtain ⟨c, u, hw, hc, -⟩ := exists_chars_of_word hscan (hmem w List.mem_cons_self) hkind
  have hdot : c ≠ '.' := ne_of_startsWord hc (by decide)
  refine ⟨?_, ?_, ?_, isListable_asName hscan hmid hasName⟩
  · rw [String.toList_ofList]
    exact isListed_spanChars (List.cons_ne_nil _ _) hchars
  · simpa [spanChars, hw] using hdot
  · rw [String.toList_ofList]
    refine comma_not_mem_spanChars (fun t ht hcomma => ?_) fun t ht => hgaps t (hmem t ht)
    have := (hchars t ht).2 ',' hcomma
    revert this
    decide

theorem importSource_listed (hscan : Scanned depth ts) (hsub : us <:+ ts) {source : String}
    (h : importSource.read us = some (source, vs)) : IsListed source.toList := by
  obtain ⟨taken, hne, rfl, hall, rfl⟩ := importSource_eq_some h
  rw [String.toList_ofList]
  exact isListed_spanChars hne fun t ht =>
    chars_of_isOfPath hscan (hsub.subset (List.mem_append_left _ ht)) (hall t ht)

/-- Outside brackets there is no comma in the gaps between words, dots and commas. -/
theorem comma_not_mem_before (hscan : Scanned 0 ts)
    (h : ∀ t ∈ ts, (t.isOfPath || t.isSymbol ",") = true) : ∀ t ∈ ts, ',' ∉ t.before := by
  induction ts with
  | nil => simp
  | cons t ts ih =>
    obtain ⟨ht, hts⟩ := List.forall_mem_cons.1 h
    refine List.forall_mem_cons.2 ⟨comma_not_mem_gap hscan.isGap, ih ?_ hts⟩
    have hlevel : depthAfter 0 t.toLexeme = 0 := by
      simp only [Lexeme.isOfPath, Bool.or_eq_true, beq_iff_eq] at ht
      rcases ht with (hkind | hdots) | hcomma
      · exact Rule.Nets.depthAfter_of_kind (by simp [hkind]) 0
      · exact (Rule.Nets.plain_of_isOneOf (by decide) hdots).2 0
      · exact Rule.Nets.depthAfter_symbol hcomma (by decide) (by decide) 0
    exact hlevel ▸ hscan.tail

/-- The modules behind the word `import`, with nothing behind them. -/
theorem importedModules_spelled (hscan : Scanned 0 ts) {w : String} {found : List Import × Bool}
    (hword : (Rule.takeWord w).read ts = some (true, us))
    (hitems : (Rule.commaList importedModule).read us = some (found, [])) :
    ∀ i ∈ found.1, i.IsSpelled := by
  obtain ⟨front, rfl, hfront⟩ := (Takes.takeWord fun _ => isOfPath_of_word) hword
  obtain ⟨back, rfl, hback⟩ := importedModules_takes hitems
  have hgaps := comma_not_mem_before hscan fun t ht => by
    rw [List.append_nil] at ht
    exact (List.mem_append.1 ht).elim (fun ht => by simp [hfront t ht]) (hback t)
  intro i hi
  obtain ⟨vs, rest, hsub, hmodule⟩ := mem_of_read_commaListTo hitems hi
  exact importedModule_spelled hscan hgaps (hsub.trans (List.suffix_append _ _)) hmodule

/-- The members of a source, in parentheses or not. -/
theorem importedMembers_spelled (hscan : Scanned depth ts) (hsub : us <:+ ts) {source : String}
    (hsource : IsListed source.toList) {ended : Rule Bool} {found : List Import × Bool}
    (h : (Rule.commaListTo ended (importedMember source)).read us = some (found, vs)) :
    ∀ i ∈ found.1, i.IsSpelled := by
  intro i hi
  obtain ⟨ws, rest, hmember, hread⟩ := mem_of_read_commaListTo h hi
  exact importedMember_spelled hscan (hmember.trans hsub) hsource hread

/-- **What is known of the imports of a source.** -/
theorem isSpelled_of_isStated (h : IsStated i) : i.IsSpelled := by
  obtain ⟨ts, imports, hscan, hread, hi⟩ := h
  obtain ⟨found, ts₁, htake, hread⟩ := Rule.read_bind_eq_some.1 hread
  cases found with
  | true =>
    obtain ⟨items, mid, hitems, h⟩ := Rule.read_bind_eq_some.1 hread
    obtain ⟨rfl, rfl⟩ := Prod.mk.inj (Option.some.inj h)
    exact importedModules_spelled hscan htake hitems i hi
  | false =>
    obtain ⟨_, ts₂, hfrom, hread⟩ := Rule.read_bind_eq_some.1 hread
    obtain ⟨source, ts₃, hsource, hread⟩ := Rule.read_bind_eq_some.1 hread
    obtain ⟨_, ts₄, himport, hread⟩ := Rule.read_bind_eq_some.1 hread
    obtain ⟨star, ts₅, hstar, hread⟩ := Rule.read_bind_eq_some.1 hread
    have hsub₂ : ts₂ <:+ ts := (Rule.read_consumes _ hfrom).trans (Rule.read_consumes _ htake)
    have hlisted := importSource_listed hscan hsub₂ hsource
    have hsub₅ : ts₅ <:+ ts := (Rule.read_consumes _ hstar).trans
      ((Rule.read_consumes _ himport).trans ((Rule.read_consumes _ hsource).trans hsub₂))
    cases star with
    | true =>
      obtain ⟨rfl, -⟩ := Prod.mk.inj (Option.some.inj hread)
      obtain rfl := List.mem_singleton.1 hi
      exact hlisted
    | false =>
      obtain ⟨opened, ts₆, hopen, hread⟩ := Rule.read_bind_eq_some.1 hread
      have hsub₆ : ts₆ <:+ ts := (Rule.read_consumes _ hopen).trans hsub₅
      cases opened with
      | true =>
        obtain ⟨⟨items, comma⟩, ts₇, hitems, hread⟩ := Rule.read_bind_eq_some.1 hread
        obtain ⟨_, ts₈, -, hread⟩ := Rule.read_bind_eq_some.1 hread
        obtain ⟨rfl, -⟩ := Prod.mk.inj (Option.some.inj hread)
        exact importedMembers_spelled hscan hsub₆ hlisted hitems i hi
      | false =>
        obtain ⟨items, ts₇, hitems, hread⟩ := Rule.read_bind_eq_some.1 hread
        obtain ⟨rfl, -⟩ := Prod.mk.inj (Option.some.inj hread)
        exact importedMembers_spelled hscan hsub₆ hlisted hitems i hi

end Stated

end TypedStubs.Import
