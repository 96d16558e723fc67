import TypedStubs.Proofs.Syntax.Assignment
import TypedStubs.Proofs.Syntax.Joined

/-! # Parameters put together

A parameter is put together from its name, a piece that is read as a hint and a piece that is read as a default,
both of which may be missing (`reads_plainParam`).  Between a name and its default no blank stands unless there is
a hint.  A parameter that takes any number of arguments has stars before its name and no default
(`reads_starParam`).
-/
namespace TypedStubs.Syntax

open Rule

variable {depth : Nat} {gap cs : List Char} {us g : List Token} {w : String}

/-! ## Single tokens -/

/-- One token that opens and closes no brackets is a piece. -/
theorem piece_lexeme {kind : TokenKind} (h : IsLexeme kind cs)
    (hplain : Lexeme.isOrdinary ⟨kind, cs⟩ = true ∧ ∀ d, depthAfter d ⟨kind, cs⟩ = d) (depth : Nat) :
    Piece depth cs [⟨⟨kind, cs⟩, []⟩] where
  ne_nil := List.cons_ne_nil _ _
  chars := List.append_nil _
  scans := fun _ hgap => by
    have hone := h.append hgap (.nil EndsToken _) fun n hn => hn
    rwa [List.append_nil] at hone
  netting := netting_of_plain fun t ht => by
    obtain rfl := List.mem_singleton.1 ht
    exact hplain

theorem piece_word (h : IsLexeme .word w.toList) (depth : Nat) : Piece depth w.toList [spelled w []] :=
  piece_lexeme h (plain_spelled w []) depth

/-! ## A name and an equals sign -/

theorem lexeme_equals {n : List Char} (hn : n.head? ≠ some '=') : lexeme '=' n = some (.symbol, n) := by
  refine lexeme_sign (by decide) (by decide) (by decide) (find_symbol (by decide) fun s hs hc => ?_)
  have : ∀ s ∈ symbols, s.head? = some '=' → s = ['='] ∨ s[1]? = some '=' := by decide
  exact (this s hs hc).imp_right fun h => ⟨'=', h, hn⟩

theorem kind_of_equals {n : List Char} {kind : TokenKind} {rest : List Char} (h : lexeme '=' n = some (kind, rest)) :
    kind = .symbol := by
  rw [lexeme, if_neg (by decide), if_neg (by decide), if_neg (by simp [startsNumber])] at h
  obtain ⟨s, -, heq⟩ := Option.map_eq_some_iff.1 h
  exact (Prod.mk.inj heq).1.symm

/-- What starts like an expression starts with no equals sign. -/
theorem head?_ne_equals (h : Piece depth cs us) (hstarts : ∀ t, us.head? = some t → startsPiece t.toLexeme = true)
    (n : List Char) : (cs ++ n).head? ≠ some '=' := by
  obtain ⟨t, ts, rfl⟩ := List.exists_cons_of_ne_nil h.ne_nil
  have ht := hstarts t rfl
  have hlexeme : IsLexeme t.kind t.chars := h.scanned.isLexeme (t := t.behind []) (startsPiece_isComment ht)
  have hspan : cs = t.chars ++ written ts := by rw [← h.chars, spanChars_cons]
  intro hequals
  obtain ⟨c, u, hchars, -, hread⟩ := id hlexeme
  obtain rfl : c = '=' := by simpa [hspan, hchars] using hequals
  have hkind := kind_of_equals hread
  have hmem : t.chars ∈ symbols := IsLexeme.mem_symbols (hkind ▸ hlexeme)
  have honly : ∀ s ∈ symbols, s.head? = some '=' → String.ofList s ∈ ["=", "=="] := by decide
  have htext : t.text ∈ ["=", "=="] := honly _ hmem (by rw [hchars]; rfl)
  have hsymbol : t.isSymbol t.text = true := by simp [Lexeme.isSymbol, hkind]
  have hnot : ∀ s ∈ ["=", "=="], t.isSymbol s = false := fun s hs =>
    startsPiece_isSymbol ht (by revert s; decide) (by revert s; decide)
  rw [hnot _ htext] at hsymbol
  cases hsymbol

/-- A name with an equals sign and a piece right behind it. -/
theorem piece_given (hw : IsLexeme .word w.toList) (h : Piece depth cs us)
    (hstarts : ∀ t, us.head? = some t → startsPiece t.toLexeme = true) :
    Piece depth (w.toList ++ '=' :: cs) (spelled w [] :: sign "=" [] :: fromGap [] us) where
  ne_nil := List.cons_ne_nil _ _
  chars := by
    rw [spanChars_cons, written_cons, written_fromGap h.ne_nil, h.chars]
    rfl
  scans := fun gap hgap => by
    have hequals : Scans EndsToken depth ('=' :: cs) (sign "=" [] :: fromGap [] us) :=
      scans_lexeme (u := []) (by decide) (isGap_nil depth) (h.scans (isGap_nil depth)) fun n _ =>
        lexeme_equals (head?_ne_equals h hstarts n)
    obtain ⟨c, u, hchars, hc, hread⟩ := hw
    have hword : Scans EndsToken depth (gap ++ (c :: u ++ '=' :: cs))
        (⟨⟨.word, c :: u⟩, gap⟩ :: sign "=" [] :: fromGap [] us) :=
      scans_lexeme hc hgap hequals fun n _ => lexeme_word_cons hread (by decide) (by decide) (cs ++ n)
    rw [fromGap_spelled, spelled, hchars]
    exact hword
  netting := by
    have hword : Netting 0 0 [spelled w []] := (piece_word hw depth).netting
    exact hword.append ((netting_sign (by decide) [] 0).append (netting_fromGap h.netting []))

/-! ## Stars before a name -/

theorem head?_behind_gap (hgap : IsGap depth gap) (hw : IsLexeme .word w.toList) (n : List Char) :
    ∀ d ∈ ['*', '='], (gap ++ w.toList ++ n).head? ≠ some d := by
  intro d hd
  cases gap with
  | nil =>
    obtain ⟨c, u, hchars, -, hread⟩ := hw
    have hsign : ∀ d ∈ ['*', '='], Text.startsWord d = false := forall_mem_of_all (by decide)
    have hc : c ≠ d := ne_of_startsWord (chars_of_word hread).1 (hsign d hd)
    simp [hchars, hc]
  | cons c gap =>
    have hc : c ∈ tokenEnds := hgap.endsToken .nil c (by simp)
    have hno : ∀ d ∈ ['*', '='], d ∉ tokenEnds := forall_mem_of_all (by decide)
    rintro ⟨⟩
    exact hno _ hd hc

theorem lexeme_star {n : List Char} (hn : ∀ d ∈ ['*', '='], n.head? ≠ some d) :
    lexeme '*' n = some (.symbol, n) := by
  refine lexeme_sign (by decide) (by decide) (by decide) (find_symbol (by decide) fun s hs hc => ?_)
  have : ∀ s ∈ symbols, s.head? = some '*' → s = ['*'] ∨ s[1]? = some '*' ∨ s[1]? = some '=' := by decide
  refine (this s hs hc).imp_right fun hsecond => ?_
  rcases hsecond with hsecond | hsecond
  · exact ⟨_, hsecond, hn _ (by simp)⟩
  · exact ⟨_, hsecond, hn _ (by simp)⟩

theorem lexeme_stars {n : List Char} (hn : n.head? ≠ some '=') : lexeme '*' ('*' :: n) = some (.symbol, n) := by
  have hfind : symbols.find? (·.isPrefixOf ('*' :: '*' :: n)) = some ['*', '*'] := by
    cases n with
    | nil => decide
    | cons c n =>
      have hc : '=' ≠ c := fun heq => hn (by rw [heq]; rfl)
      simp [symbols, hc]
  rw [lexeme, if_neg (by decide), if_neg (by decide), if_neg (by simp [startsNumber]), hfind]
  rfl

/-- A name behind stars. -/
theorem piece_starred {stars : String} (hstars : stars = "*" ∨ stars = "**") (hgap : IsGap depth gap)
    (hw : IsLexeme .word w.toList) :
    Piece depth (stars.toList ++ (gap ++ w.toList)) [sign stars [], spelled w gap] where
  ne_nil := List.cons_ne_nil _ _
  chars := by
    rw [spanChars_cons, written_cons, written_nil, List.append_nil]
    rfl
  scans := fun before hbefore => by
    have hname : Scans EndsToken depth (gap ++ w.toList) [spelled w gap] := (piece_word hw depth).scans hgap
    have hhead := head?_behind_gap hgap hw
    rcases hstars with rfl | rfl
    · exact scans_lexeme (u := []) (by decide) hbefore hname fun n _ => lexeme_star (hhead n)
    · exact scans_lexeme (u := ['*']) (by decide) hbefore hname fun n _ =>
        lexeme_stars (hhead n '=' (by decide))
  netting := by
    have hplain : Nets.IsPlain stars := by rcases hstars with rfl | rfl <;> decide
    exact (netting_sign hplain [] 0).append (netting_fromGap (piece_word hw depth).netting gap)

/-! ## Hints and defaults -/

/-- What stands behind the name of a parameter for its hint. -/
def hintTokens (hint : Option (List Token)) : List Token := hint.elim [] fun us => sign ":" [] :: fromGap [' '] us

/-- What stands behind a parameter for its default, with a gap around the equals sign. -/
def defaultTokens (gap : List Char) (default : Option (List Token)) : List Token :=
  default.elim [] fun us => sign "=" gap :: fromGap gap us

theorem textSince_piece {e : Expr} (h : Piece depth e.text.toList us) (gap : List Char) (g : List Token) :
    textSince (fromGap gap us ++ g) g = e.text := by
  rw [textSince_append_right, spanChars_fromGap, h.chars, String.ofList_toList]

theorem endsAt_defaultTokens (hg : EndsArgument g) (gap : List Char) (default : Option (List Token)) :
    EndsAt isStop (defaultTokens gap default ++ g) := by
  cases default with
  | none => exact hg.isStop
  | some us => exact (endsValue_sign (.inr rfl) gap (fromGap gap us ++ g)).isStop

theorem not_colon_defaultTokens (hg : EndsArgument g) (gap : List Char) (default : Option (List Token)) :
    (Ahead.token (·.isSymbol ":")).holds (defaultTokens gap default ++ g) = false := by
  cases default with
  | none => exact EndsArgument.not_holds (fun _ => isSymbol_of_isOneOf (by decide)) g hg
  | some us => exact sign_isSymbol _ _ _

/-- A symbol that is not next is left. -/
theorem read_takeSymbol_not {s : String} {ts : List Token} (h : (Ahead.token (·.isSymbol s)).holds ts = false) :
    (takeSymbol s).read ts = some (false, ts) := by
  rw [takeSymbol, read_bind, atSymbol, atToken, read_ahead, h]
  rfl

theorem read_takeSymbol_sign (s : String) (gap : List Char) (ts : List Token) :
    (takeSymbol s).read (sign s gap :: ts) = some (true, ts) := by
  rw [read_takeSymbol_cons]
  simp

/-- The hint of a parameter is read, if there is one. -/
theorem read_paramHint {hint : Option (List Token × Expr)} (hpiece : ∀ p ∈ hint, Piece depth p.2.text.toList p.1)
    (hread : ∀ p ∈ hint, ReadsTokens (EndsAt isStop) hintExpr p.1 p.2) (hg : EndsAt isStop g)
    (hcolon : (Ahead.token (·.isSymbol ":")).holds g = false) :
    paramHint.read (hintTokens (hint.map (·.1)) ++ g) = some (hint.map (·.2.text), g) := by
  cases hint with
  | none =>
    have htake := read_takeSymbol_not hcolon
    simp only [hintTokens, paramHint, maybe, read_bind, Option.map_none, Option.elim_none, List.nil_append, htake]
    rfl
  | some p =>
    have hp : (Rule.withText hintExpr).read (fromGap [' '] p.1 ++ g) = some ((p.2.text, p.2), g) :=
      read_withText_eq_some.2 ⟨hread p rfl [' '] g hg, (textSince_piece (hpiece p rfl) _ _).symm⟩
    have htake := read_takeSymbol_sign ":" [] (fromGap [' '] p.1 ++ g)
    simp only [hintTokens, paramHint, maybe, read_bind, Option.map_some, Option.elim_some, List.cons_append, htake,
      if_true, hp]
    rfl

/-- The default of a parameter is read, if there is one. -/
theorem read_paramDefault {default : Option (List Token × Expr)}
    (hpiece : ∀ p ∈ default, Piece depth p.2.text.toList p.1)
    (hread : ∀ p ∈ default, ReadsTokens (EndsAt isStop) (.inner .full) p.1 p.2) (hg : EndsArgument g)
    (gap : List Char) :
    paramDefault.read (defaultTokens gap (default.map (·.1)) ++ g) = some (default.map (·.2.text), g) := by
  cases default with
  | none =>
    have htake := read_takeSymbol_not (EndsArgument.not_holds (fun _ => isSymbol_of_isOneOf (s := "=") (by decide)) g hg)
    simp only [defaultTokens, paramDefault, maybe, read_bind, Option.map_none, Option.elim_none, List.nil_append, htake]
    rfl
  | some p =>
    have hp : (Rule.withText (.inner .full)).read (fromGap gap p.1 ++ g) = some ((p.2.text, p.2), g) :=
      read_withText_eq_some.2 ⟨hread p rfl gap g hg.isStop, (textSince_piece (hpiece p rfl) _ _).symm⟩
    have htake := read_takeSymbol_sign "=" gap (fromGap gap p.1 ++ g)
    simp only [defaultTokens, paramDefault, maybe, read_bind, Option.map_some, Option.elim_some, List.cons_append,
      htake, if_true, hp]
    rfl

/-! ## Parameters -/

/-- A hint as it is written behind a name. -/
def hintChars (hint : Option (List Char)) : List Char := hint.elim [] fun h => ':' :: ' ' :: h

/-- A default as it is written behind a name or a hint, with a gap around the equals sign. -/
def defaultChars (gap : List Char) (default : Option (List Char)) : List Char :=
  default.elim [] fun d => gap ++ ('=' :: (gap ++ d))

/-- What stands around the equals sign of a default: a blank if there is a hint. -/
def aroundEquals {α : Type} (hint : Option α) : List Char := if hint.isSome then [' '] else []

/-- A parameter that is given by position or by name, as it is written. -/
def plainChars (name : List Char) (hint default : Option (List Char)) : List Char :=
  name ++ (hintChars hint ++ defaultChars (aroundEquals hint) default)

variable {hint default : Option (List Token × Expr)}

/-- A hint behind a name. -/
theorem tail_hint (hpiece : ∀ p ∈ hint, Piece depth p.2.text.toList p.1) :
    Tail depth (hintChars (hint.map (·.2.text.toList))) (hintTokens (hint.map (·.1))) := by
  cases hint with
  | none => exact .nil depth
  | some p => exact separates_colon.tail (hpiece p rfl)

theorem starts_of_reads {r : Rule Expr} {e : Expr} (hr : Starts r) (h : ReadsTokens (EndsAt isStop) r us e) :
    ∀ t, us.head? = some t → startsPiece t.toLexeme = true := by
  intro t ht
  obtain ⟨ts, rfl⟩ := List.head?_eq_some_iff.1 ht
  obtain ⟨u, more, heq, hu, -⟩ := hr.read (h [] [] (.nil _))
  obtain ⟨rfl, -⟩ := List.cons.inj (show t.behind [] :: (ts ++ []) = u :: more from heq)
  exact hu

/-- A name with its hint and its default is a piece. -/
theorem piece_plain (hw : IsLexeme .word w.toList) (hhint : ∀ p ∈ hint, Piece depth p.2.text.toList p.1)
    (hdefault : ∀ p ∈ default, Piece depth p.2.text.toList p.1)
    (hread : ∀ p ∈ default, ReadsTokens (EndsAt isStop) (.inner .full) p.1 p.2) :
    Piece depth (plainChars w.toList (hint.map (·.2.text.toList)) (default.map (·.2.text.toList)))
      (spelled w [] :: (hintTokens (hint.map (·.1)) ++ defaultTokens (aroundEquals hint) (default.map (·.1)))) := by
  have hword := piece_word hw depth
  cases hint with
  | none =>
    cases default with
    | none => simpa [plainChars, hintChars, defaultChars, hintTokens, defaultTokens] using hword
    | some d =>
      have hgiven := piece_given hw (hdefault d rfl) (starts_of_reads (.inner _) (hread d rfl))
      simpa [plainChars, hintChars, defaultChars, hintTokens, defaultTokens, aroundEquals] using hgiven
  | some p =>
    have hhinted := separates_colon.tail (hhint p rfl)
    cases default with
    | none =>
      have := hword.append_tail hhinted
      simpa [plainChars, hintChars, defaultChars, hintTokens, defaultTokens] using this
    | some d =>
      have := hword.append_tail (hhinted.append (separates_equals.tail (hdefault d rfl)))
      simpa [plainChars, hintChars, defaultChars, hintTokens, defaultTokens, aroundEquals] using this

/-- A parameter is what is read of it, with its text. -/
theorem read_param {bare : Param} (h : Piece depth cs us)
    (hbare : bareParam.read (fromGap gap us ++ g) = some (bare, g)) :
    param.read (fromGap gap us ++ g) = some ({ bare with text := String.ofList cs }, g) := by
  have htext := textSince_append_right (fromGap gap us) g
  rw [spanChars_fromGap, h.chars] at htext
  exact read_bind_eq_some.2 ⟨(_, bare), g, read_withText_eq_some.2 ⟨hbare, htext.symm⟩, rfl⟩

/-- **A name with a hint and a default is read as a parameter.** -/
theorem reads_plainParam (hw : IsLexeme .word w.toList) (hhint : ∀ p ∈ hint, Piece 1 p.2.text.toList p.1)
    (hhintRead : ∀ p ∈ hint, ReadsTokens (EndsAt isStop) hintExpr p.1 p.2)
    (hdefault : ∀ p ∈ default, Piece 1 p.2.text.toList p.1)
    (hdefaultRead : ∀ p ∈ default, ReadsTokens (EndsAt isStop) (.inner .full) p.1 p.2) :
    let cs := plainChars w.toList (hint.map (·.2.text.toList)) (default.map (·.2.text.toList))
    Reads EndsArgument 1 param cs
      ⟨String.ofList cs, .positional, w, hint.map (·.2.text), default.map (·.2.text)⟩ := by
  intro cs
  have hpiece := piece_plain hw hhint hdefault hdefaultRead
  refine ⟨_, hpiece, ?_, fun gap g hg => ?_⟩
  · rintro t ⟨⟩
    exact startsPiece_of_kind (by simp) (by simp)
  have hhinted := read_paramHint hhint hhintRead (endsAt_defaultTokens hg (aroundEquals hint) (default.map (·.1)))
    (not_colon_defaultTokens hg _ _)
  have hdefaulted := read_paramDefault hdefault hdefaultRead hg (aroundEquals hint)
  have hbare : bareParam.read (fromGap gap (spelled w [] :: (hintTokens (hint.map (·.1)) ++
      defaultTokens (aroundEquals hint) (default.map (·.1)))) ++ g) =
        some (⟨"", .positional, w, hint.map (·.2.text), default.map (·.2.text)⟩, g) := by
    rw [fromGap_spelled, List.cons_append, List.append_assoc]
    simp only [bareParam, read_bind, read_takeSymbol_cons, spelled_isSymbol, Bool.false_eq_true, if_false, atSymbol,
      atToken, read_ahead, Ahead.holds, read_anyWord_spelled, hhinted, hdefaulted]
    rfl
  exact read_param hpiece hbare

/-- A name behind stars, as it stands in a parameter. -/
theorem splatName_starred {stars : String} (hstars : stars = "*" ∨ stars = "**") (hgap : IsGap depth gap)
    (hw : IsLexeme .word w.toList) :
    splatName (String.ofList (stars.toList ++ (gap ++ w.toList))) = String.ofList (gap ++ w.toList) := by
  have hhead := head?_behind_gap hgap hw [] '*' (by decide)
  have hkeep : (gap ++ w.toList).dropWhile (· == '*') = gap ++ w.toList := by
    rw [List.append_nil] at hhead
    cases hcs : gap ++ w.toList with
    | nil => rfl
    | cons c cs =>
      have hc : c ≠ '*' := by simpa [hcs] using hhead
      simp [hc]
  rcases hstars with rfl | rfl <;> simp [splatName, hkeep]

/-- **A name behind stars is read as a parameter that takes any number of arguments.** -/
theorem reads_starParam {stars : String} {kind : ParamKind}
    (hstars : stars = "*" ∧ kind = .varPositional ∨ stars = "**" ∧ kind = .varKeyword) (hgap : IsGap 1 gap)
    (hw : IsLexeme .word w.toList) (hhint : ∀ p ∈ hint, Piece 1 p.2.text.toList p.1)
    (hhintRead : ∀ p ∈ hint, ReadsTokens (EndsAt isStop) hintExpr p.1 p.2) :
    let cs := stars.toList ++ (gap ++ w.toList) ++ hintChars (hint.map (·.2.text.toList))
    Reads EndsArgument 1 param cs
      ⟨String.ofList cs, kind, String.ofList (gap ++ w.toList), hint.map (·.2.text), none⟩ := by
  intro cs
  have hsign : stars = "*" ∨ stars = "**" := hstars.imp And.left And.left
  have hname := piece_starred hsign hgap hw
  have hpiece := hname.append_tail (tail_hint hhint)
  refine ⟨_, hpiece, ?_, fun before g hg => ?_⟩
  · rintro t ⟨⟩
    refine startsPiece_of_symbol (s := stars) (.inl ?_) (by simp)
    rcases hsign with rfl | rfl <;> decide
  have hhinted := read_paramHint hhint hhintRead hg.isStop
    (EndsArgument.not_holds (fun _ => isSymbol_of_isOneOf (by decide)) g hg)
  have htext := textSince_append_right [sign stars before, spelled w gap] (hintTokens (hint.map (·.1)) ++ g)
  have hspan : spanChars [sign stars before, spelled w gap] = stars.toList ++ (gap ++ w.toList) :=
    (spanChars_fromGap before _).trans hname.chars
  rw [hspan] at htext
  have hstarred : (starredName kind).read
      (sign stars before :: spelled w gap :: (hintTokens (hint.map (·.1)) ++ g)) =
        some ((String.ofList (stars.toList ++ (gap ++ w.toList)), false), hintTokens (hint.map (·.1)) ++ g) := by
    have hone : isOneOf ["*", "**"] (sign stars before).toLexeme = true := by
      rcases hsign with rfl | rfl <;> simp [isOneOf]
    refine read_withText_eq_some.2 ⟨?_, htext.symm⟩
    refine read_bind_eq_some.2 ⟨⟨⟩, _, read_discard_eq_some.2 ⟨_, read_take_eq_some.2 ⟨_, rfl, rfl, hone⟩⟩, ?_⟩
    refine read_bind_eq_some.2 ⟨false, _, rfl, ?_⟩
    rw [Bool.and_false, if_neg (by simp)]
    exact read_bind_eq_some.2 ⟨⟨⟩, _, read_discard_eq_some.2 ⟨w, read_anyWord_spelled w gap _⟩, rfl⟩
  have hparam : (starParam kind).read
      (sign stars before :: spelled w gap :: (hintTokens (hint.map (·.1)) ++ g)) =
        some (⟨"", kind, String.ofList (gap ++ w.toList), hint.map (·.2.text), none⟩, g) := by
    rw [← splatName_starred hsign hgap hw]
    simp only [starParam, read_bind, hstarred, Bool.false_eq_true, if_false, hhinted]
    rfl
  have hbare : bareParam.read
      (fromGap before ([sign stars [], spelled w gap] ++ hintTokens (hint.map (·.1))) ++ g) =
        some (⟨"", kind, String.ofList (gap ++ w.toList), hint.map (·.2.text), none⟩, g) := by
    have htokens : fromGap before ([sign stars [], spelled w gap] ++ hintTokens (hint.map (·.1))) ++ g =
        sign stars before :: spelled w gap :: (hintTokens (hint.map (·.1)) ++ g) := rfl
    rw [htokens, ← hparam]
    rcases hstars with ⟨rfl, rfl⟩ | ⟨rfl, rfl⟩ <;>
      simp [bareParam, read_bind, read_takeSymbol_cons, atSymbol, atToken, Ahead.holds]
  exact read_param hpiece hbare

/-! ## Markers -/

/-- A sign that stands alone is read as a marker. -/
theorem reads_marker {s : String} {kind : ParamKind}
    (hs : s = "/" ∧ kind = .positionalOnlyMarker ∨ s = "*" ∧ kind = .keywordOnlyMarker) :
    Reads EndsArgument 1 param s.toList ⟨s, kind, s, none, none⟩ := by
  have hlexeme : IsLexeme .symbol s.toList := by
    rcases hs with ⟨rfl, -⟩ | ⟨rfl, -⟩
    · exact ⟨'/', [], rfl, rfl, by decide⟩
    · exact ⟨'*', [], rfl, rfl, by decide⟩
  have hpiece : Piece 1 s.toList [sign s []] := {
    ne_nil := List.cons_ne_nil _ _
    chars := List.append_nil _
    scans := fun gap hgap => by
      have hsign := hlexeme.append hgap (.nil EndsToken _) fun n hn => hn
      rwa [List.append_nil] at hsign
    netting := netting_sign (by rcases hs with ⟨rfl, -⟩ | ⟨rfl, -⟩ <;> decide) [] 0 }
  refine ⟨_, hpiece, ?_, fun gap g hg => ?_⟩
  · rintro t ⟨⟩
    rcases hs with ⟨rfl, -⟩ | ⟨rfl, -⟩
    · exact startsPiece_of_symbol (s := "/") (.inr rfl) (by simp)
    · exact startsPiece_of_symbol (s := "*") (.inl (by decide)) (by simp)
  have hbare : bareParam.read (fromGap gap [sign s []] ++ g) = some (⟨"", kind, s, none, none⟩, g) := by
    rcases hs with ⟨rfl, rfl⟩ | ⟨rfl, rfl⟩
    · rfl
    · obtain ⟨t, g, rfl, ht⟩ := hg
      have hstarred : (starredName .varPositional).read (sign "*" gap :: t :: g) = some (("*", true), t :: g) := by
        have htext := textSince_append_right [sign "*" gap] (t :: g)
        have hone : isOneOf ["*", "**"] (sign "*" gap).toLexeme = true := by simp [isOneOf]
        refine read_withText_eq_some.2 ⟨?_, htext.symm⟩
        refine read_bind_eq_some.2 ⟨⟨⟩, _, read_discard_eq_some.2 ⟨_, read_take_eq_some.2 ⟨_, rfl, rfl, hone⟩⟩, ?_⟩
        refine read_bind_eq_some.2 ⟨true, _, ?_, rfl⟩
        rw [atToken, read_ahead, Ahead.holds, ht]
      have hparam : (starParam .varPositional).read (sign "*" gap :: t :: g) =
          some (⟨"", .keywordOnlyMarker, "*", none, none⟩, t :: g) := by
        simp only [starParam, read_bind, hstarred, if_true]
        rfl
      simpa [bareParam, read_bind, read_takeSymbol_cons, atSymbol, atToken, Ahead.holds] using hparam
  have hparam := read_param hpiece hbare
  rwa [String.ofList_toList] at hparam

/-! ## Arguments that are given by their names -/

/-- The token behind the first one says by which rule an argument is read. -/
theorem read_byName {r named plain : Rule Expr} {ts : List Token} {e : Expr}
    (hr : r = if ts[1]?.any (·.isSymbol "=") then named else plain) (h : r.read ts = some (e, g))
    (hlt : g.length < ts.length) : (Rule.byName named plain).read ts = some (e, g) := by
  subst hr
  simp only [Rule.read, run] at h ⊢
  split at h <;> simp_all

/-- **A name with an equals sign and an expression behind it is read as an argument.** -/
theorem reads_namedArgument {e : Expr} (hw : IsLexeme .word w.toList) (hpiece : Piece 1 e.text.toList us)
    (hread : ReadsTokens (EndsAt isStop) (.inner .full) us e) :
    let cs := w.toList ++ '=' :: e.text.toList
    Reads EndsArgument 1 argument cs (.node .keywordArgument (String.ofList cs) [.node .name w [], e]) := by
  intro cs
  have hgiven := piece_given hw hpiece (starts_of_reads (.inner _) hread)
  refine ⟨_, hgiven, ?_, fun gap g hg => ?_⟩
  · rintro t ⟨⟩
    exact startsPiece_of_kind (by simp) (by simp)
  have htext := textSince_append_right (fromGap gap (spelled w [] :: sign "=" [] :: fromGap [] us)) g
  rw [spanChars_fromGap, hgiven.chars] at htext
  have hnamed : namedArgument.read (fromGap gap (spelled w [] :: sign "=" [] :: fromGap [] us) ++ g) =
      some (.node .keywordArgument (String.ofList cs) [.node .name w [], e], g) := by
    refine read_bind_eq_some.2 ⟨(_, [.node .name w [], e]), g, read_withText_eq_some.2 ⟨?_, htext.symm⟩, rfl⟩
    refine read_bind_eq_some.2 ⟨w, _, read_anyWord_spelled w gap _, ?_⟩
    refine read_bind_eq_some.2 ⟨⟨⟩, _, read_symbol_sign "=" [] (fromGap [] us ++ g), ?_⟩
    exact read_bind_eq_some.2 ⟨e, g, hread [] g hg.isStop, rfl⟩
  have hshorter : g.length < (fromGap gap (spelled w [] :: sign "=" [] :: fromGap [] us) ++ g).length := by
    simp only [fromGap_spelled, List.length_append, List.length_cons]
    omega
  refine read_bind_eq_some.2 ⟨false, _, rfl, read_bind_eq_some.2 ⟨false, _, rfl, ?_⟩⟩
  rw [if_neg (by simp)]
  exact read_byName rfl hnamed hshorter

end TypedStubs.Syntax
