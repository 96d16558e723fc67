import TypedStubs.Proofs.Syntax.Heads

/-! # Definitions put together

A function whose body is dots is put together from the lines of its decorators and its own line, and
so is a class, which may have a stretch below it instead of dots.
-/
namespace TypedStubs.Syntax

open Rule

variable {α : Type} {depth k : Nat} {a b after last gap : List Char}

/-! ## Levels -/

theorem level_listed {pieces : List (List Char × List Token)}
    (hpieces : ∀ p ∈ pieces, Piece depth p.1 p.2) (a b gap : List Char) :
    depthThrough depth (listed a b gap (pieces.map (·.2))) = depth := by
  induction pieces generalizing gap with
  | nil => rfl
  | cons p pieces ih =>
    have hp := (hpieces p List.mem_cons_self).level gap depth
    cases pieces with
    | nil => simpa [listed] using hp
    | cons q pieces =>
      have hmore := ih (fun r hr => hpieces r (List.mem_cons_of_mem _ hr)) b
      have hcomma : depthAfter depth (sign "," a).toLexeme = depth := rfl
      simpa [listed, hp, hcomma] using hmore

theorem level_front (isAsync : Bool) (name : String) :
    depthThrough 0 (frontTokens isAsync name) = 1 := by
  cases isAsync <;> rfl

theorem startsAlone_front (isAsync : Bool) (name : String) (ts : List Token) :
    StartsAlone (frontTokens isAsync name ++ ts) := by
  intro t ht
  cases isAsync <;>
  · obtain rfl : _ = t := by simpa [frontTokens] using ht
    exact ⟨rfl, rfl, by decide⟩

theorem leadingWord_front {isAsync : Bool} {name : String} {ts : List Token} {line : Line}
    (h : line.tokens = frontTokens isAsync name ++ ts) : leadingWord line = some "def" := by
  cases isAsync <;> simp [leadingWord, h, frontTokens, spelled, Lexeme.isWord, Lexeme.text]

theorem level_end {returns : Option (String × List Token)} (h : ∀ p ∈ returns, IsHint p.1 p.2) :
    depthThrough 0 (endTokens (returns.map (·.2)) ++ [sign "..." [' ']]) = 0 := by
  cases returns with
  | none => rfl
  | some p =>
    have harrow : depthAfter 0 (sign "->" [' ']).toLexeme = 0 := rfl
    have hdots : depthThrough 0 [sign ":" [], sign "..." [' ']] = 0 := rfl
    simpa [endTokens, harrow, (h p rfl).1.level] using hdots

theorem level_class {pieces : List (List Char × List Token)} (name : String)
    (hpieces : ∀ p ∈ pieces, Piece 1 p.1 p.2) :
    depthThrough 0 (classTokens name (pieces.map (·.2))) = 0 := by
  cases pieces with
  | nil => rfl
  | cons p pieces =>
    have hlisted := level_listed hpieces [] [' '] []
    have hopen : depthThrough 0 [spelled "class" [], spelled name [' '], sign "(" []] = 1 := rfl
    have hclose : depthThrough 1 [sign ")" [], sign ":" []] = 0 := rfl
    have htokens : classTokens name ((p :: pieces).map (·.2)) =
        [spelled "class" [], spelled name [' '], sign "(" []] ++
          (listed [] [' '] [] ((p :: pieces).map (·.2)) ++ [sign ")" [], sign ":" []]) := by
      simp [classTokens]
    rw [htokens, depthThrough_append, hopen, depthThrough_append, hlisted, hclose]

/-! ## Lines of functions -/

/-- What closes the parameters of a function: a parenthesis, perhaps behind a comma and the gap
`last`. -/
def closingChars (last : Option (List Char)) : List Char :=
  last.elim [')'] fun gap => [','] ++ (gap ++ [')'])

/-- The tokens that close the parameters of a function. -/
def closingTokens (last : Option (List Char)) : List Token :=
  last.elim [sign ")" []] fun gap => [sign "," [], sign ")" gap]

/-- The line of a function whose body is dots: `a` and `b` stand around the commas between its
parameters and `gap` before the first of them. -/
def functionChars (isAsync : Bool) (name : String) (a b gap : List Char) (params : List (List Char))
    (last : Option (List Char)) (returns : Option String) : List Char :=
  frontChars isAsync name ++ (listedChars a b gap params ++ (closingChars last ++ endChars returns))

/-- The tokens of the line of a function. -/
def functionTokens (isAsync : Bool) (name : String) (a b gap : List Char) (params : List (List Token))
    (last : Option (List Char)) (returns : Option (List Token)) : List Token :=
  frontTokens isAsync name ++ (listed a b gap params ++ closingTokens last ++
    (endTokens returns ++ [sign "..." [' ']]))

/-- What stands between the first two of some parameters. -/
def betweenText (a b : List Char) : List α → Option String
  | _ :: _ :: _ => some (String.ofList (a ++ ',' :: b))
  | _ => none

section FunctionLines

variable {isAsync : Bool} {name : String} {params : List (List Token × Param)}
  {returns : Option (String × List Token)} {closing : Option (List Char)}

theorem scans_closing {E : List Char → Prop} {cs : List Char} {ts : List Token}
    (hclosing : ∀ g ∈ closing, IsGap 1 g) (h : Scans E 0 cs ts) (hE : ∀ n, E n → EndsToken (cs ++ n)) :
    Scans E 1 (closingChars closing ++ cs) (closingTokens closing ++ ts) := by
  cases closing with
  | none => exact isLexeme_close.append (isGap_nil 1) h hE
  | some g =>
    have hclose := isLexeme_close.append (hclosing g rfl) h hE
    have := scans_comma (isGap_nil 1) hclose
    simpa [closingChars, closingTokens, sign] using this

theorem isLine_function (hname : IsLexeme .word name.toList)
    (hparams : ∀ p ∈ params, Piece 1 p.2.text.toList p.1) (hreturns : ∀ p ∈ returns, IsHint p.1 p.2)
    (ha : IsGap 1 a) (hb : IsGap 1 b) (hgap : IsGap 1 gap) (hclosing : ∀ g ∈ closing, IsGap 1 g) :
    IsLine (functionChars isAsync name a b gap (params.map (·.2.text.toList)) closing
        (returns.map (·.1)))
      (functionTokens isAsync name a b gap (params.map (·.1)) closing (returns.map (·.2))) := by
  have hpieces : ∀ p ∈ params.map fun p => (p.2.text.toList, p.1), Piece 1 p.1 p.2 := by
    intro _ hp
    obtain ⟨q, hq, rfl⟩ := List.mem_map.1 hp
    exact hparams q hq
  have hends : ∀ n, EndsLine n → EndsToken (endChars (returns.map (·.1)) ++ n) := fun n _ => by
    cases returns <;> simpa [endChars] using EndsToken.cons (by decide) _
  have hclose := scans_closing hclosing (scans_end hreturns) hends
  have hlisted := scans_listed hpieces ha hb hgap hclose fun n _ => by
    cases closing <;> simpa [closingChars] using EndsToken.cons (by decide) _
  have hscan := @scans_front _ _ _ isAsync _ hname hlisted
  have hlevel : depthThrough 0
      (functionTokens isAsync name a b gap (params.map (·.1)) closing (returns.map (·.2))) = 0 := by
    have hlist : depthThrough 1 (listed a b gap (params.map (·.1))) = 1 := by
      simpa [List.map_map, Function.comp_def] using level_listed hpieces a b gap
    have hlast : depthThrough 1 (closingTokens closing) = 0 := by cases closing <;> rfl
    rw [functionTokens, depthThrough_append, level_front, depthThrough_append 1 (_ ++ _),
      depthThrough_append 1 (listed _ _ _ _), hlist, hlast, level_end hreturns]
  have hstart : ∃ c u, functionChars isAsync name a b gap (params.map (·.2.text.toList)) closing
      (returns.map (·.1)) = c :: u ∧ startsToken c = true := by
    cases isAsync
    · exact ⟨'d', _, rfl, rfl⟩
    · exact ⟨'a', _, rfl, rfl⟩
  obtain ⟨c, u, hcs, hc⟩ := hstart
  refine Scans.isLine_of_start ?_ hcs hc hlevel
  simpa [functionChars, functionTokens, List.map_map, Function.comp_def] using hscan

theorem map_value_placedIn (a b after gap : List Char) (xs : List α) :
    (placedIn a b after gap xs).map (·.value) = xs := by
  induction xs generalizing gap with
  | nil => rfl
  | cons x xs ih =>
    cases xs with
    | nil => rfl
    | cons y xs => simpa [placedIn] using ih b

theorem textBetween_placedIn (a b after gap : List Char) (params : List Param) :
    textBetween (placedIn a b after gap params) = betweenText a b params := by
  match params with
  | [] | [_] | [_, _] | _ :: _ :: _ :: _ => rfl

/-- The tokens that parameters or arguments are read from. -/
theorem exists_tokens {E : List Token → Prop} {r : Rule α} {text : α → List Char} {xs : List α}
    (h : ∀ x ∈ xs, Reads E depth r (text x) x) :
    ∃ pieces : List (List Token × α), pieces.map (·.2) = xs ∧ ∀ p ∈ pieces,
      Piece depth (text p.2) p.1 ∧ (∃ t us, p.1 = t :: us ∧ startsPiece t.toLexeme = true) ∧
        ∀ gap g, E g → r.read (fromGap gap p.1 ++ g) = some (p.2, g) := by
  induction xs with
  | nil => exact ⟨[], rfl, by simp⟩
  | cons x xs ih =>
    obtain ⟨pieces, hpieces, hall⟩ := ih fun y hy => h y (List.mem_cons_of_mem _ hy)
    obtain ⟨us, hpiece, hstart, hread⟩ := h x List.mem_cons_self
    obtain ⟨t, us, rfl⟩ := List.exists_cons_of_ne_nil hpiece.ne_nil
    refine ⟨(t :: us, x) :: pieces, by simp [hpieces], List.forall_mem_cons.2 ⟨?_, hall⟩⟩
    exact ⟨hpiece, ⟨t, us, rfl, hstart t rfl⟩, hread⟩

/-- The parameters of a function are read up to the parenthesis that closes them. -/
theorem placedUpTo_params (hempty : params = [] → closing = none)
    (hstarts : ∀ p ∈ params, ∃ t us, p.1 = t :: us ∧ startsPiece t.toLexeme = true)
    (hreads : ∀ p ∈ params, ∀ gap g, EndsArgument g → param.read (fromGap gap p.1 ++ g) = some (p.2, g))
    (rest : List Token) :
    placedUpTo ")" param (listed a b gap (params.map (·.1)) ++ closingTokens closing ++ rest) =
      some ((placedIn a b [] gap (params.map (·.2)), closing.getD []), rest) := by
  have hclosing : Closing [] (closing.getD []) (closingTokens closing ++ rest) rest := by
    cases closing with
    | none => exact .inl ⟨rfl, rfl⟩
    | some g => exact .inr rfl
  rw [List.append_assoc]
  by_cases hne : params = []
  · subst hne
    rw [hempty rfl]
    exact placedUpTo_nil _ _ _
  · exact placedUpTo_listed hne hstarts hreads hclosing

end FunctionLines

/-- Nothing that may start an expression is part of the sign of an assignment. -/
theorem head_of_startsPiece {l : Lexeme} (h : IsLexeme l.kind l.chars) (hl : startsPiece l = true) :
    l.chars.head? ≠ some '=' := by
  obtain ⟨kind, chars⟩ := l
  obtain ⟨c, u, rfl, -, hread⟩ := h
  intro hc
  obtain rfl : c = '=' := by simpa using hc
  have hsymbol : kind = .symbol := by
    rw [lexeme, if_neg (by decide), if_neg (by decide), if_neg (by simp [startsNumber])] at hread
    obtain ⟨s, -, heq⟩ := Option.map_eq_some_iff.1 hread
    exact (Prod.mk.inj heq).1.symm
  subst hsymbol
  have hstarts : ∀ s ∈ "/" :: itemSymbols, s.toList.head? ≠ some '=' := by decide
  have hmem : String.ofList ('=' :: u) ∈ "/" :: itemSymbols := by
    simpa [startsPiece, startsItem, Lexeme.isSymbol, Lexeme.text, or_comm] using hl
  exact hstarts _ hmem (by simp)

/-- An expression behind the sign of decorators is one. -/
theorem isDecorator_of_reads {d : Expr} (h : Reads (EndsAt isStop) 0 (.inner .full) d.text.toList d) :
    IsDecorator ('@' :: d.text.toList) d := by
  obtain ⟨us, hpiece, hstart, hread⟩ := h
  obtain ⟨t, us, rfl⟩ := List.exists_cons_of_ne_nil hpiece.ne_nil
  have hscan : Scans EndsLine (depthAfter 0 ⟨.symbol, ['@']⟩) d.text.toList (fromGap [] (t :: us)) := by
    have := hpiece.append (isGap_nil 0) (.nil EndsLine 0) fun n hn => hn.endsToken
    rw [List.append_nil, List.append_nil] at this
    exact this
  have hstarts : startsPiece t.toLexeme = true := hstart t rfl
  have hhead := head_of_startsPiece
    (hpiece.scanned.isLexeme (t := t.behind []) (startsPiece_isComment hstarts)) hstarts
  have hat : ∀ n, EndsLine n → lexeme '@' (d.text.toList ++ n) =
      some (.symbol, d.text.toList ++ n) := by
    intro n _
    refine lexeme_at ?_
    rw [← hpiece.chars, spanChars_cons]
    cases ht : t.chars with
    | nil =>
      obtain ⟨c, u, hchars, -⟩ :=
        hpiece.scanned.isLexeme (t := t.behind []) (startsPiece_isComment hstarts)
      rw [show (t.behind []).chars = [] from ht] at hchars
      cases hchars
    | cons c u =>
      have : t.chars.head? ≠ some '=' := hhead
      simpa [ht] using this
  have hline : Scans EndsLine 0 ([] ++ ('@' :: [] ++ d.text.toList))
      (⟨⟨.symbol, ['@']⟩, []⟩ :: fromGap [] (t :: us)) :=
    scans_lexeme (by decide) (isGap_nil 0) hscan (by simpa using hat)
  refine ⟨_, hline.isLine_of_start (c := '@') rfl (by decide) ?_, ?_⟩
  · exact hpiece.level [] 0
  · have hbind : decoratorRule = Rule.symbol "@" >>= fun _ => .inner .full := rfl
    have := hread [] [] (.nil _)
    rw [List.append_nil] at this
    rw [hbind, read_bind, show (Rule.symbol "@").read _ = some ((), fromGap [] (t :: us)) from
      read_symbol_eq_some.2 ⟨_, rfl, by decide⟩]
    exact this

theorem isDecorator_texts {decorators : List Expr}
    (h : ∀ d ∈ decorators, IsDecorator ('@' :: d.text.toList) d) :
    ∀ p ∈ decorators.map fun d => ('@' :: d.text.toList, d), IsDecorator p.1 p.2 := by
  intro _ hp
  obtain ⟨d, hd, rfl⟩ := List.mem_map.1 hp
  exact h d hd

/-- **A function of well-formed pieces is read wherever it is written.** -/
theorem stretch_function {decorators : List Expr} {isAsync : Bool} {name : String} {params : List Param}
    {returns : Option Expr} {closing : Option (List Char)}
    (hds : ∀ d ∈ decorators, IsDecorator ('@' :: d.text.toList) d) (hname : IsLexeme .word name.toList)
    (hparams : ∀ p ∈ params, Reads EndsArgument 1 param p.text.toList p)
    (hreturns : ∀ e ∈ returns, Reads (EndsAt isStop) 0 hintExpr e.text.toList e)
    (ha : IsGap 1 a) (hb : IsGap 1 b) (hgap : IsGap 1 gap) (hclosing : ∀ g ∈ closing, IsGap 1 g)
    (hempty : params = [] → closing = none) (k : Nat) :
    ∃ body, Stretch k (decoratorChars k (decorators.map fun d => ('@' :: d.text.toList, d)) ++
        (List.replicate k ' ' ++ (functionChars isAsync name a b gap (params.map (·.text.toList)) closing
          (returns.map (·.text)) ++ ['\n'])))
      [.function ⟨name, isAsync, params, betweenText a b params, returns.map (·.text)⟩ decorators
        body] := by
  obtain ⟨pieces, rfl, hpieces⟩ := exists_tokens hparams
  obtain ⟨hints, hhints, hreturned⟩ : ∃ hints : Option (String × List Token),
      hints.map (·.1) = returns.map (·.text) ∧ ∀ p ∈ hints, IsHint p.1 p.2 := by
    cases returns with
    | none => exact ⟨none, rfl, by simp⟩
    | some e =>
      obtain ⟨us, hpiece, -, hread⟩ := hreturns e rfl
      refine ⟨some (e.text, us), rfl, fun p hp => ?_⟩
      obtain rfl : (e.text, us) = p := by simpa using hp
      exact ⟨hpiece, e, hread⟩
  have hline := @isLine_function a b gap isAsync _ _ _ _ hname (fun p hp => (hpieces p hp).1) hreturned ha hb
    hgap hclosing
  have hplaced := @placedUpTo_params a b gap _ _ (by simpa using hempty)
    (fun p hp => (hpieces p hp).2.1) (fun p hp => (hpieces p hp).2.2)
  obtain ⟨block, body, hdefinition, hbody, hrest⟩ := @definition_function _ _ k
    (spacedLine k (functionTokens isAsync name a b gap (pieces.map (·.1)) closing
      (hints.map (·.2)))) readBlock _ _ _ _ _ decorators rfl hplaced hreturned []
  rw [map_value_placedIn, textBetween_placedIn, hhints] at hbody
  have hstretch := stretch_definition (isDecorator_texts hds) (hline.scansLines k) rfl (startsAlone_front _ _ _)
    (.inl (leadingWord_front rfl)) (by simpa [List.map_map, Function.comp_def, spacedLine] using hdefinition) hrest
  rw [hbody, hhints] at hstretch
  exact ⟨body, by simpa [List.map_map, Function.comp_def] using hstretch⟩

/-! ## Lines of classes -/

theorem startsAlone_class (name : String) (bases : List (List Token)) (ts : List Token) :
    StartsAlone (classTokens name bases ++ ts) := by
  intro t ht
  obtain rfl : _ = t := by simpa [classTokens] using ht
  exact ⟨rfl, rfl, by decide⟩

theorem leadingWord_class {name : String} {bases : List (List Token)} {ts : List Token} {line : Line}
    (h : line.tokens = classTokens name bases ++ ts) : leadingWord line = some "class" := by
  simp [leadingWord, h, classTokens, spelled, Lexeme.isWord, Lexeme.text]

section ClassLines

variable {name : String} {decorators : List Expr} {bases : List Expr} {cs : List Char}
  {body : List Stmt}

/-- The line of a class, with `cs` behind its colon. -/
theorem isLine_class {bases : List (List Token × Expr)} {ts : List Token}
    (hname : IsLexeme .word name.toList) (hbases : ∀ p ∈ bases, Piece 1 p.2.text.toList p.1)
    (h : Scans EndsLine 0 cs ts) (hE : ∀ n, EndsLine n → EndsToken (cs ++ n))
    (hlevel : depthThrough 0 ts = 0) :
    IsLine (classChars name (bases.map (·.2.text.toList)) ++ cs)
      (classTokens name (bases.map (·.1)) ++ ts) := by
  have hpieces : ∀ p ∈ bases.map fun p => (p.2.text.toList, p.1), Piece 1 p.1 p.2 := by
    intro _ hp
    obtain ⟨q, hq, rfl⟩ := List.mem_map.1 hp
    exact hbases q hq
  have hscan := scans_class hname hpieces h hE
  have hhead := level_class name hpieces
  simp only [List.map_map, Function.comp_def] at hscan hhead
  refine hscan.isLine_of_start (c := 'c') rfl rfl ?_
  rw [depthThrough_append, hhead, hlevel]

/-- **A class of well-formed pieces whose body is dots is read wherever it is written.** -/
theorem stretch_class_dots (hds : ∀ d ∈ decorators, IsDecorator ('@' :: d.text.toList) d)
    (hname : IsLexeme .word name.toList)
    (hbases : ∀ e ∈ bases, Reads EndsArgument 1 argument e.text.toList e) (k : Nat) :
    ∃ place, Stretch k (decoratorChars k (decorators.map fun d => ('@' :: d.text.toList, d)) ++
        (List.replicate k ' ' ++ (classChars name (bases.map (·.text.toList)) ++
          ([' '] ++ "...".toList) ++ ['\n'])))
      [.classDef ⟨name, bases.map .base⟩ decorators [.expression place [dotsExpr]]] := by
  obtain ⟨pieces, rfl, hpieces⟩ := exists_tokens hbases
  have hdots := isLexeme_dots.append (isGap_space 0) (.nil EndsLine 0) fun n hn => hn.endsToken
  rw [List.append_nil] at hdots
  have hline := isLine_class hname (fun p hp => (hpieces p hp).1) hdots
    (fun n _ => by simpa using endsToken_space _) rfl
  obtain ⟨block, place, hdefinition, hbody, hrest⟩ := @definition_class_dots _ k
    (spacedLine k (classTokens name (pieces.map (·.1)) ++ [sign "..." [' ']])) readBlock _ _
    decorators rfl (fun p hp => (hpieces p hp).2.1) (fun p hp => (hpieces p hp).2.2) []
  have hstretch := stretch_definition (isDecorator_texts hds) (hline.scansLines k) rfl
    (startsAlone_class _ _ _) (.inr (leadingWord_class rfl))
    (by simpa [List.map_map, Function.comp_def, spacedLine, sign] using hdefinition) hrest
  rw [hbody] at hstretch
  exact ⟨place, by simpa [List.map_map, Function.comp_def] using hstretch⟩

/-- **A class of well-formed pieces above a stretch is read wherever it is written.** -/
theorem stretch_class {k' : Nat} (hds : ∀ d ∈ decorators, IsDecorator ('@' :: d.text.toList) d)
    (hname : IsLexeme .word name.toList)
    (hbases : ∀ e ∈ bases, Reads EndsArgument 1 argument e.text.toList e) (hinside : Stretch k' cs body)
    (hfirst : body.head?.any Stmt.isComment = false) {k : Nat} (hk : k < k') :
    Stretch k (decoratorChars k (decorators.map fun d => ('@' :: d.text.toList, d)) ++
        (List.replicate k ' ' ++ (classChars name (bases.map (·.text.toList)) ++ ['\n']) ++ cs))
      [.classDef ⟨name, bases.map .base⟩ decorators body] := by
  obtain ⟨pieces, rfl, hpieces⟩ := exists_tokens hbases
  have hline := isLine_class hname (fun p hp => (hpieces p hp).1) (.nil EndsLine 0)
    (fun n hn => hn.endsToken) rfl
  obtain ⟨first, more, inside, hscan, hindent, -, hread, rfl, hinsiderest⟩ := hinside
  have hcomment : first.isComment = false := by
    refine Bool.eq_false_iff.2 fun hc => ?_
    rw [head_of_comment hc hindent.ge hread] at hfirst
    cases hfirst
  obtain ⟨block, hdefinition, hbody, hrest⟩ := @definition_class k
    (spacedLine k (classTokens name (pieces.map (·.1)))) readBlock _ _ decorators _ _ _ rfl
    (fun p hp => (hpieces p hp).2.1) (fun p hp => (hpieces p hp).2.2) hcomment (hindent ▸ hk)
    (hindent.symm ▸ hread)
  have hboth := (hline.scansLines k).append hscan
  have hstretch := stretch_definition (isDecorator_texts hds) hboth rfl
    (startsAlone_class _ _ _) (.inr (leadingWord_class rfl))
    (by simpa [List.map_map, Function.comp_def, spacedLine] using hdefinition)
    (hrest.trans hinsiderest)
  rw [hbody] at hstretch
  simpa [List.map_map, Function.comp_def] using hstretch

end ClassLines

end TypedStubs.Syntax
