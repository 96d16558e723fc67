import TypedStubs.Proofs.Syntax.Heads
import TypedStubs.Proofs.Syntax.Spelling

/-! # Paths of words

A path is words with dots between them, and the source of imported members may have more dots before
it.  Dots need a closer look than other symbols: three of them are one token, and one before a digit
starts a number.
-/
namespace TypedStubs.Syntax

open Rule

variable {E : List Char → Prop} {depth : Nat} {gap cs : List Char} {ts : List Token}

/-! ## Words -/

theorem startsToken_of_startsWord {c : Char} (h : Text.startsWord c = true) : startsToken c = true := by
  have hno : ∀ d ∈ ['\n', '#', '\\', ' ', '\t', '\r', '\x0b', '\x0c', '\uFEFF', '\u2060', '\u200B'],
      Text.startsWord d = false := forall_mem_of_all (by decide +kernel)
  have hne := fun d hd => ne_of_startsWord h (hno d hd)
  simp only [List.forall_mem_cons] at hne
  simp [startsToken, isGap, hne]

/-- A text of one word is one token. -/
theorem isLexeme_of_isWord {w : String} (h : Text.isWord w = true) : IsLexeme .word w.toList := by
  unfold Text.isWord at h
  cases hw : w.toList with
  | nil => simp [hw, Text.isWordChars] at h
  | cons c u =>
    simp only [hw, Text.isWordChars, Bool.and_eq_true, List.all_cons] at h
    obtain ⟨hc, -, hu⟩ := h
    have hall : ∀ d ∈ u, Text.continuesName d = true := fun d hd => by
      simp [Text.continuesName, List.all_eq_true.1 hu d hd]
    obtain ⟨htake, hdrop⟩ := takeWhile_dropWhile_append (y := []) hall (by simp)
    rw [List.append_nil] at htake hdrop
    have hsingle : c ≠ '\'' := ne_of_startsWord hc (by decide)
    have hdouble : c ≠ '"' := ne_of_startsWord hc (by decide)
    refine ⟨c, u, rfl, startsToken_of_startsWord hc, ?_⟩
    rw [lexeme, if_neg (by simp [hsingle, hdouble]), if_pos hc, htake, hdrop]
    rfl

/-- A word starts with a character that starts words. -/
theorem exists_startsWord {w : String} (h : Text.isWord w = true) :
    ∃ c u, w.toList = c :: u ∧ Text.startsWord c = true := by
  unfold Text.isWord at h
  cases hw : w.toList with
  | nil => simp [hw, Text.isWordChars] at h
  | cons c u =>
    simp only [hw, Text.isWordChars, Bool.and_eq_true] at h
    exact ⟨c, u, rfl, h.1⟩

/-- A word before a character that does not go on with it. -/
theorem lexeme_word_cons {c d : Char} {u : List Char} (h : lexeme c u = some (.word, []))
    (hname : Text.continuesName d = false) (hquote : (d == '\'' || d == '"') = false) (n : List Char) :
    lexeme c (u ++ d :: n) = some (.word, d :: n) := by
  obtain ⟨hc, hu⟩ := chars_of_word h
  have hsingle : c ≠ '\'' := ne_of_startsWord hc (by decide)
  have hdouble : c ≠ '"' := ne_of_startsWord hc (by decide)
  obtain ⟨htake, hdrop⟩ := takeWhile_dropWhile_append (y := d :: n) hu fun e he => by
    obtain rfl : d = e := by simpa using he
    exact hname
  rw [lexeme, if_neg (by simp [hsingle, hdouble]), if_pos hc, htake, hdrop, afterWord, hquote]
  rfl

/-! ## Dots -/

/-- Of the symbols that start with a dot the longer one is three dots. -/
theorem find_dots (n : List Char) : symbols.find? (·.isPrefixOf ('.' :: n)) =
    some (if ['.', '.'].isPrefixOf n then ['.', '.', '.'] else ['.']) := by
  cases h : ['.', '.'].isPrefixOf n <;> simp [symbols, h, openBrace, closeBrace]

/-- Three dots are one token, and fewer are one each, unless a digit follows. -/
theorem lexeme_dot {n : List Char} (h : n.head?.any (·.isDigit) = false) :
    lexeme '.' n = some (.symbol, if ['.', '.'].isPrefixOf n then n.drop 2 else n) := by
  have hnumber : startsNumber '.' n = false := by simp [startsNumber, h]
  rw [lexeme, if_neg (by decide), if_neg (by decide), if_neg (by simp [hnumber]), find_dots]
  cases ['.', '.'].isPrefixOf n <;> rfl

/-- A text that does not go on with dots: it starts with no dot and no digit. -/
def EndsDots (n : List Char) : Prop := ∀ c, n.head? = some c → c ≠ '.' ∧ c.isDigit = false

theorem EndsDots.cons {c : Char} (hdot : c ≠ '.') (hdigit : c.isDigit = false) (n : List Char) :
    EndsDots (c :: n) := by
  intro d hd
  obtain rfl : c = d := by simpa using hd
  exact ⟨hdot, hdigit⟩

theorem EndsDots.not_dots {n : List Char} (h : EndsDots n) :
    n.head?.any (·.isDigit) = false ∧ ∀ cs, ('.' :: cs).isPrefixOf n = false := by
  cases n with
  | nil => simp
  | cons c n =>
    obtain ⟨hdot, hdigit⟩ := h c rfl
    exact ⟨hdigit, fun cs => by simp [List.isPrefixOf, Ne.symm hdot]⟩

/-- The tokens of `k` dots. -/
def dotTokens : Nat → List Token
  | 0 => []
  | 1 => [sign "." []]
  | 2 => [sign "." [], sign "." []]
  | k + 3 => sign "..." [] :: dotTokens k

@[simp] theorem fromGap_sign (s : String) (before gap : List Char) (ts : List Token) :
    fromGap gap (sign s before :: ts) = sign s gap :: ts := rfl

@[simp] theorem fromGap_spelled (w : String) (before gap : List Char) (ts : List Token) :
    fromGap gap (spelled w before :: ts) = spelled w gap :: ts := rfl

theorem fromGap_dotTokens (k : Nat) : fromGap [] (dotTokens k) = dotTokens k := by
  match k with
  | 0 | 1 | 2 | _ + 3 => rfl

/-- Dots before something that does not go on with them. -/
theorem scans_dotted {k : Nat} (hk : 0 < k) (hgap : IsGap depth gap) (h : Scans E depth cs ts)
    (hE : ∀ n, E n → EndsDots (cs ++ n)) :
    Scans E depth (gap ++ (List.replicate k '.' ++ cs)) (fromGap gap (dotTokens k) ++ ts) := by
  induction k using dotTokens.induct generalizing gap with
  | case1 => omega
  | case2 =>
    refine scans_lexeme (u := []) (by decide) hgap h fun n hn => ?_
    obtain ⟨hdigit, hdots⟩ := (hE n hn).not_dots
    simpa [hdots] using lexeme_dot hdigit
  | case3 =>
    have hlast : Scans E depth ([] ++ (['.'] ++ cs)) (sign "." [] :: ts) := by
      refine scans_lexeme (u := []) (by decide) (isGap_nil depth) h fun n hn => ?_
      obtain ⟨hdigit, hdots⟩ := (hE n hn).not_dots
      simpa [hdots] using lexeme_dot hdigit
    refine scans_lexeme (u := []) (by decide) hgap hlast fun n hn => ?_
    obtain ⟨-, hdots⟩ := (hE n hn).not_dots
    have := @lexeme_dot ('.' :: (cs ++ n)) rfl
    simpa [hdots] using this
  | case4 k ih =>
    have hrest : Scans E depth (List.replicate k '.' ++ cs) (dotTokens k ++ ts) := by
      rcases Nat.eq_zero_or_pos k with rfl | hpos
      · exact h
      · have := ih hpos (isGap_nil depth)
        rwa [fromGap_dotTokens] at this
    have hthree : Scans E depth (gap ++ (['.', '.', '.'] ++ (List.replicate k '.' ++ cs)))
        (sign "..." gap :: (dotTokens k ++ ts)) := by
      refine scans_lexeme (u := ['.', '.']) (by decide) hgap hrest fun n _ => ?_
      simpa using @lexeme_dot ('.' :: '.' :: (List.replicate k '.' ++ cs ++ n)) rfl
    simpa [dotTokens, List.replicate_succ] using hthree

/-! ## Paths -/

/-- A path: words with dots between them. -/
structure IsPath (words : List String) : Prop where
  /-- There is one. -/
  ne_nil : words ≠ []
  /-- Each is a word. -/
  isWord : ∀ w ∈ words, Text.isWord w = true

theorem IsPath.tail {w w' : String} {words : List String} (h : IsPath (w :: w' :: words)) :
    IsPath (w' :: words) :=
  ⟨List.cons_ne_nil _ _, fun v hv => h.isWord v (List.mem_cons_of_mem _ hv)⟩

/-- A path as it is written. -/
def pathChars (words : List String) : List Char := (Text.join "." words).toList

theorem pathChars_cons (w w' : String) (words : List String) :
    pathChars (w :: w' :: words) = w.toList ++ (['.'] ++ pathChars (w' :: words)) := by
  simp [pathChars, Text.join_cons_cons]

/-- The tokens of a path. -/
def pathTokens : List String → List Token
  | [] => []
  | w :: words => spelled w [] :: words.flatMap fun v => [sign "." [], spelled v []]

theorem fromGap_pathTokens (words : List String) : fromGap [] (pathTokens words) = pathTokens words := by
  cases words <;> rfl

theorem IsPath.endsDots {words : List String} (h : IsPath words) (n : List Char) :
    EndsDots (pathChars words ++ n) := by
  obtain ⟨w, words, rfl⟩ := List.exists_cons_of_ne_nil h.ne_nil
  obtain ⟨c, u, hw, hc⟩ := exists_startsWord (h.isWord w List.mem_cons_self)
  obtain ⟨more, hmore⟩ : ∃ more, pathChars (w :: words) = c :: more := by
    cases words with
    | nil => exact ⟨u, by simp [pathChars, Text.join, hw]⟩
    | cons w' words => exact ⟨_, by rw [pathChars_cons, hw]; rfl⟩
  rw [hmore]
  exact .cons (ne_of_startsWord hc (by decide)) (isDigit_of_startsWord hc) _

theorem scans_path {words : List String} (h : IsPath words) (hgap : IsGap depth gap) :
    Scans EndsToken depth (gap ++ pathChars words) (fromGap gap (pathTokens words)) := by
  induction words generalizing gap with
  | nil => exact absurd rfl h.ne_nil
  | cons w words ih =>
    have hw := isLexeme_of_isWord (h.isWord w List.mem_cons_self)
    cases words with
    | nil =>
      have hword : Scans EndsToken depth (gap ++ (w.toList ++ [])) [spelled w gap] :=
        hw.append hgap (.nil EndsToken _) fun n hn => hn
      simpa [pathTokens, pathChars, Text.join] using hword
    | cons w' words =>
      have hrest : Scans EndsToken depth (pathChars (w' :: words)) (pathTokens (w' :: words)) := by
        simpa only [List.nil_append, fromGap_pathTokens] using ih h.tail (isGap_nil depth)
      have hdot : Scans EndsToken depth (['.'] ++ pathChars (w' :: words))
          (sign "." [] :: pathTokens (w' :: words)) := by
        simpa [dotTokens] using
          scans_dotted (k := 1) (by decide) (isGap_nil depth) hrest fun n _ => h.tail.endsDots n
      obtain ⟨c, u, hchars, hc, hread⟩ := hw
      have hword : Scans EndsToken depth (gap ++ (w.toList ++ (['.'] ++ pathChars (w' :: words))))
          (spelled w gap :: sign "." [] :: pathTokens (w' :: words)) := by
        rw [spelled, hchars]
        refine scans_lexeme hc hgap hdot fun n _ => ?_
        simpa using lexeme_word_cons hread (by decide) (by decide) (pathChars (w' :: words) ++ n)
      rw [pathChars_cons]
      simpa [pathTokens] using hword

theorem written_pathTokens (words : List String) : written (pathTokens words) = pathChars words := by
  induction words with
  | nil => rfl
  | cons w words ih =>
    cases words with
    | nil => simp [pathTokens, pathChars, spelled, Text.join]
    | cons w' words =>
      rw [pathChars_cons, ← ih]
      simp [pathTokens, spelled, sign]

/-! ## Sources of members -/

/-- The source of imported members: `k` dots and a path, one of which may be missing.  Behind dots no
path starts with the word that announces the members. -/
structure IsSource (k : Nat) (words : List String) : Prop where
  /-- Something is there. -/
  some : 0 < k ∨ words ≠ []
  /-- Each word is one. -/
  isWord : ∀ w ∈ words, Text.isWord w = true
  /-- What announces the members is no part of their source. -/
  notImport : 0 < k → words.head? ≠ .some "import"

/-- A source as it is written. -/
def sourceChars (k : Nat) (words : List String) : List Char := List.replicate k '.' ++ pathChars words

/-- The tokens of a source. -/
def sourceTokens (k : Nat) (words : List String) : List Token := dotTokens k ++ pathTokens words

theorem EndsToken.endsDots {n : List Char} (h : EndsToken n) : EndsDots n := by
  have hdot : '.' ∉ tokenEnds := by decide
  intro c hc
  exact ⟨fun heq => hdot (heq ▸ h c hc), not_digit_of_tokenEnds c (h c hc)⟩

theorem written_dotTokens (k : Nat) : written (dotTokens k) = List.replicate k '.' := by
  induction k using dotTokens.induct with
  | case1 | case2 | case3 => rfl
  | case4 k ih => simp [dotTokens, ih, sign, List.replicate_succ]

theorem dotTokens_ne_nil {k : Nat} (hk : 0 < k) : dotTokens k ≠ [] := by
  match k with
  | 0 => omega
  | 1 | 2 | _ + 3 => exact List.cons_ne_nil _ _

theorem pathTokens_ne_nil {words : List String} (h : words ≠ []) : pathTokens words ≠ [] := by
  obtain ⟨w, words, rfl⟩ := List.exists_cons_of_ne_nil h
  exact List.cons_ne_nil _ _

theorem fromGap_append {us : List Token} (h : us ≠ []) (gap : List Char) (vs : List Token) :
    fromGap gap (us ++ vs) = fromGap gap us ++ vs := by
  obtain ⟨u, us, rfl⟩ := List.exists_cons_of_ne_nil h
  rfl

theorem scans_source {k : Nat} {words : List String} (h : IsSource k words) (hgap : IsGap depth gap) :
    Scans EndsToken depth (gap ++ sourceChars k words) (fromGap gap (sourceTokens k words)) := by
  by_cases hwords : words = []
  · subst hwords
    have hk : 0 < k := h.some.resolve_right fun hne => hne rfl
    have := scans_dotted hk hgap (.nil EndsToken depth) fun n hn => hn.endsDots
    simpa [sourceChars, sourceTokens, pathTokens, pathChars, Text.join] using this
  · have hpath : IsPath words := ⟨hwords, h.isWord⟩
    rcases Nat.eq_zero_or_pos k with rfl | hk
    · exact scans_path hpath hgap
    · have hplain := scans_path hpath (isGap_nil depth)
      rw [List.nil_append, fromGap_pathTokens] at hplain
      have := scans_dotted hk hgap hplain fun n _ => hpath.endsDots n
      rwa [sourceTokens, fromGap_append (dotTokens_ne_nil hk)]

/-! ## Pieces -/

/-- Tokens that open and close no brackets. -/
theorem netting_of_plain {us : List Token} {a : Nat}
    (h : ∀ t ∈ us, t.isOrdinary = true ∧ ∀ d, depthAfter d t.toLexeme = d) : Netting a a us where
  ordinary := fun t ht => (h t ht).1
  level := by
    intro d
    induction us with
    | nil => rfl
    | cons t us ih =>
      rw [depthThrough_cons, (h t List.mem_cons_self).2]
      exact ih fun u hu => h u (List.mem_cons_of_mem _ hu)

theorem mem_fromGap {gap : List Char} {us : List Token} {t : Token} (h : t ∈ fromGap gap us) :
    ∃ u ∈ us, t.toLexeme = u.toLexeme := by
  cases us with
  | nil => cases h
  | cons u us =>
    rcases List.mem_cons.1 h with rfl | h
    · exact ⟨u, List.mem_cons_self, rfl⟩
    · exact ⟨t, List.mem_cons_of_mem _ h, rfl⟩

theorem netting_fromGap {m n : Nat} {us : List Token} (h : Netting m n us) (gap : List Char) :
    Netting m n (fromGap gap us) where
  ordinary := by
    intro t ht
    obtain ⟨u, hu, heq⟩ := mem_fromGap ht
    simpa [heq] using h.ordinary u hu
  level := fun d => by rw [depthThrough_fromGap, h.level]

theorem netting_sign {s : String} (hs : Nets.IsPlain s) (gap : List Char) (n : Nat) : Netting n n [sign s gap] := by
  refine netting_of_plain fun t ht => ?_
  obtain rfl := List.mem_singleton.1 ht
  have hsymbol : (sign s gap).isSymbol s = true := by simp
  exact ⟨Nets.ordinary_of_isSymbol hsymbol hs.semicolon, Nets.depthAfter_symbol hsymbol hs.opening hs.closing⟩

theorem plain_spelled (w : String) (gap : List Char) :
    (spelled w gap).isOrdinary = true ∧ ∀ d, depthAfter d (spelled w gap).toLexeme = d :=
  ⟨by simp [Lexeme.isOrdinary], fun _ => rfl⟩

theorem mem_dotTokens {k : Nat} {t : Token} (h : t ∈ dotTokens k) : t = sign "." [] ∨ t = sign "..." [] := by
  induction k using dotTokens.induct with
  | case1 => cases h
  | case2 => exact .inl (by simpa [dotTokens] using h)
  | case3 => exact .inl (by simpa [dotTokens] using h)
  | case4 k ih =>
    rcases List.mem_cons.1 h with rfl | h
    · exact .inr rfl
    · exact ih h

theorem mem_pathTokens {words : List String} {t : Token} (h : t ∈ pathTokens words) :
    t = sign "." [] ∨ ∃ w, t = spelled w [] := by
  cases words with
  | nil => cases h
  | cons w words =>
    rcases List.mem_cons.1 h with rfl | h
    · exact .inr ⟨w, rfl⟩
    · obtain ⟨v, -, hv⟩ := List.mem_flatMap.1 h
      rcases List.mem_cons.1 hv with rfl | hv
      · exact .inl rfl
      · exact .inr ⟨v, List.mem_singleton.1 hv⟩

theorem fromGap_sourceTokens_eq (k : Nat) (words : List String) (gap : List Char) :
    ∃ gap', fromGap gap (sourceTokens k words) =
      fromGap gap (dotTokens k) ++ fromGap gap' (pathTokens words) := by
  rcases Nat.eq_zero_or_pos k with rfl | hk
  · exact ⟨gap, rfl⟩
  · exact ⟨[], by rw [sourceTokens, fromGap_append (dotTokens_ne_nil hk), fromGap_pathTokens]⟩

theorem netting_sourceTokens (a k : Nat) (words : List String) : Netting a a (sourceTokens k words) := by
  refine netting_of_plain fun t ht => ?_
  rcases List.mem_append.1 ht with ht | ht
  · rcases mem_dotTokens ht with rfl | rfl
    · exact ⟨rfl, fun _ => rfl⟩
    · exact ⟨rfl, fun _ => rfl⟩
  · rcases mem_pathTokens ht with rfl | ⟨w, rfl⟩
    · exact ⟨rfl, fun _ => rfl⟩
    · exact plain_spelled w []

theorem spanChars_eq_written (us : List Token) : spanChars us = written (fromGap [] us) := by
  cases us <;> rfl

theorem fromGap_sourceTokens (k : Nat) (words : List String) :
    fromGap [] (sourceTokens k words) = sourceTokens k words := by
  rcases Nat.eq_zero_or_pos k with rfl | hk
  · exact fromGap_pathTokens words
  · rw [sourceTokens, fromGap_append (dotTokens_ne_nil hk), fromGap_dotTokens]

theorem piece_source {k : Nat} {words : List String} (h : IsSource k words) (depth : Nat) :
    Piece depth (sourceChars k words) (sourceTokens k words) where
  ne_nil := by
    rcases h.some with hk | hwords
    · simp [sourceTokens, dotTokens_ne_nil hk]
    · simp [sourceTokens, pathTokens_ne_nil hwords]
  chars := by
    rw [spanChars_eq_written, fromGap_sourceTokens, sourceTokens, written_append, written_dotTokens,
      written_pathTokens, sourceChars]
  scans := fun _ hgap => scans_source h hgap
  netting := netting_sourceTokens 0 k words

theorem piece_path {words : List String} (h : IsPath words) (depth : Nat) :
    Piece depth (pathChars words) (pathTokens words) :=
  piece_source ⟨.inr h.ne_nil, h.isWord, fun hk => absurd hk (Nat.lt_irrefl 0)⟩ depth

/-! ## Reading -/

theorem read_symbol_sign (s : String) (gap : List Char) (g : List Token) :
    (symbol s).read (sign s gap :: g) = some ((), g) :=
  read_symbol_eq_some.2 ⟨_, rfl, by simp⟩

theorem read_anyWord_spelled (w : String) (gap : List Char) (g : List Token) :
    anyWord.read (spelled w gap :: g) = some (w, g) :=
  read_anyWord_eq_some.2 ⟨_, rfl, rfl, by simp [spelled, Lexeme.text]⟩

/-- The words of a path behind the first one. -/
theorem read_moreWords (words : List String) {g : List Token}
    (hg : (Ahead.token (·.isSymbol ".")).holds g = false) :
    (Rule.many (.token (·.isSymbol ".")) (do symbol "."; anyWord)).read
      ((words.flatMap fun w => [sign "." [], spelled w []]) ++ g) = some (words, g) := by
  have hread := @read_many_pieces String (fun _ => True) (.token (·.isSymbol ".")) (do symbol "."; anyWord)
    (words.map fun w => ([sign "." [], spelled w []], w)) (by simp) (by simp [Ahead.holds])
    (by simp [read_bind, read_symbol_sign, read_anyWord_spelled]) g trivial hg
  simpa [List.flatMap_map, Function.comp_def] using hread

theorem read_dottedName {words : List String} (hne : words ≠ []) (gap : List Char) {g : List Token}
    (hg : (Ahead.token (·.isSymbol ".")).holds g = false) :
    dottedName.read (fromGap gap (pathTokens words) ++ g) = some (Text.join "." words, g) := by
  obtain ⟨w, words, rfl⟩ := List.exists_cons_of_ne_nil hne
  have hinside : (do discard anyWord; Rule.many (.token (·.isSymbol ".")) (do symbol "."; anyWord)).read
      (fromGap gap (pathTokens (w :: words)) ++ g) = some (words, g) := by
    refine read_bind_eq_some.2 ⟨⟨⟩, _, read_discard_eq_some.2 ⟨w, read_anyWord_spelled w gap _⟩, ?_⟩
    exact read_moreWords words hg
  have htext := read_withText_eq_some.2 ⟨hinside, rfl⟩
  rw [textSince_append_right, spanChars_fromGap, spanChars_eq_written, fromGap_pathTokens,
    written_pathTokens, pathChars, String.ofList_toList] at htext
  exact read_bind_eq_some.2 ⟨_, _, htext, rfl⟩

/-- Dots are read as long as there are some. -/
theorem read_dots (k : Nat) (gap : List Char) {g : List Token}
    (hg : (Ahead.token (isOneOf [".", "..."])).holds g = false) :
    ∃ dots, (Rule.many (.token (isOneOf [".", "..."])) (symbolIn [".", "..."])).read
        (fromGap gap (dotTokens k) ++ g) = some (dots, g) ∧ dots.isEmpty = decide (k = 0) := by
  have hdot : ∀ t ∈ fromGap gap (dotTokens k), isOneOf [".", "..."] t.toLexeme = true := by
    intro t ht
    obtain ⟨u, hu, heq⟩ := mem_fromGap ht
    rw [heq]
    rcases mem_dotTokens hu with rfl | rfl <;> decide
  have hread := @read_many_pieces Unit (fun _ => True) (.token (isOneOf [".", "..."]))
    (symbolIn [".", "..."]) ((fromGap gap (dotTokens k)).map fun t => ([t], ())) (by simp)
    (by simpa [Ahead.holds] using hdot)
    (by
      intro p hp g _
      obtain ⟨t, ht, rfl⟩ := List.mem_map.1 hp
      exact read_discard_eq_some.2 ⟨_, read_take_eq_some.2 ⟨t, rfl, rfl, hdot t ht⟩⟩) g trivial hg
  refine ⟨_, by simpa [List.flatMap_map] using hread, ?_⟩
  rcases Nat.eq_zero_or_pos k with rfl | hk
  · rfl
  · obtain ⟨t, ts, htokens⟩ := List.exists_cons_of_ne_nil (dotTokens_ne_nil hk)
    simp [htokens, fromGap, Nat.ne_of_gt hk]

/-- The source of members is read up to the word that announces them. -/
theorem read_importSource {k : Nat} {words : List String} (h : IsSource k words) (gap before : List Char)
    (g : List Token) :
    importSource.read (fromGap gap (sourceTokens k words) ++ spelled "import" before :: g) =
      some (String.ofList (sourceChars k words), spelled "import" before :: g) := by
  have hend : ∀ s, (Ahead.token (·.isSymbol s)).holds (spelled "import" before :: g) = false := fun s =>
    spelled_isSymbol "import" s before
  have hinside : (do
      let dots ← Rule.many (.token (isOneOf [".", "..."])) (symbolIn [".", "..."])
      if dots.isEmpty || !(← atWord "import") then discard dottedName).read
        (fromGap gap (sourceTokens k words) ++ spelled "import" before :: g) =
      some ((), spelled "import" before :: g) := by
    obtain ⟨gap', htokens⟩ := fromGap_sourceTokens_eq k words gap
    rw [htokens, List.append_assoc]
    have hdotless : (Ahead.token (isOneOf [".", "..."])).holds
        (fromGap gap' (pathTokens words) ++ spelled "import" before :: g) = false := by
      cases words <;> rfl
    obtain ⟨dots, hdots, hempty⟩ := read_dots k gap hdotless
    refine read_bind_eq_some.2 ⟨dots, _, hdots, read_bind_eq_some.2 ⟨_, _, read_ahead _ _, ?_⟩⟩
    cases words with
    | nil =>
      have hk : k ≠ 0 := by
        rintro rfl
        simpa using h.some
      simp [hempty, hk, pathTokens, fromGap, Ahead.holds]
    | cons w words =>
      have hcondition : (dots.isEmpty || !((Ahead.token (·.isWord "import")).holds
          (fromGap gap' (pathTokens (w :: words)) ++ spelled "import" before :: g))) = true := by
        rcases Nat.eq_zero_or_pos k with rfl | hk
        · simp [hempty]
        · have hne : w ≠ "import" := by simpa using h.notImport hk
          simp [pathTokens, Ahead.holds, hne]
      rw [if_pos hcondition]
      exact read_discard_eq_some.2 ⟨_, read_dottedName (List.cons_ne_nil _ _) gap' (hend ".")⟩
  have htext := read_withText_eq_some.2 ⟨hinside, rfl⟩
  rw [textSince_append_right, spanChars_fromGap, (piece_source h 0).chars] at htext
  exact read_bind_eq_some.2 ⟨_, _, htext, rfl⟩

end TypedStubs.Syntax
