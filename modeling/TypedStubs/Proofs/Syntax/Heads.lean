import TypedStubs.Proofs.Syntax.Reads
import TypedStubs.Proofs.Syntax.Stretch
import TypedStubs.Proofs.Text.Pieces

/-! # Heads of definitions put together

The head of a function is put together from its name, pieces that are read as parameters and what
stands between them, and the head of a class from pieces that are read as arguments.
-/
namespace TypedStubs.Syntax

open Rule

variable {α : Type} {depth : Nat} {E : List Char → Prop} {ts rest : List Token}
  {gap a b after last cs cs' : List Char}

theorem spanChars_fromGap (gap : List Char) (us : List Token) :
    spanChars (fromGap gap us) = spanChars us := by
  cases us <;> rfl

/-! ## Pieces with commas between them -/

/-- Pieces with commas between them: `a` stands before each comma and `b` behind it. -/
def listedChars (a b : List Char) : List Char → List (List Char) → List Char
  | _, [] => []
  | gap, [cs] => gap ++ cs
  | gap, cs :: more => gap ++ (cs ++ (a ++ ([','] ++ listedChars a b b more)))

/-- Texts joined with a comma and what stands around it. -/
theorem toList_join {a b : List Char} {sep : String} (hsep : sep.toList = a ++ ',' :: b)
    (gap : List Char) {texts : List String} (hne : texts ≠ []) :
    gap ++ (Text.join sep texts).toList = listedChars a b gap (texts.map String.toList) := by
  induction texts generalizing gap with
  | nil => exact absurd rfl hne
  | cons text texts ih =>
    cases texts with
    | nil => simp [Text.join, listedChars]
    | cons next texts =>
      have hmore := ih b (List.cons_ne_nil _ _)
      rw [Text.join_cons_cons]
      simp only [List.map_cons, listedChars] at hmore ⊢
      simp [hsep, ← hmore]

/-- The tokens of pieces with commas between them. -/
def listed (a b : List Char) : List Char → List (List Token) → List Token
  | _, [] => []
  | gap, [us] => fromGap gap us
  | gap, us :: more => fromGap gap us ++ sign "," a :: listed a b b more

/-- What pieces are read as, with the gaps around them. -/
def placedIn (a b after : List Char) : List Char → List α → List (Placed α)
  | _, [] => []
  | gap, [x] => [⟨gap, x, after⟩]
  | gap, x :: more => ⟨gap, x, a⟩ :: placedIn a b after b more

theorem scans_listed {pieces : List (List Char × List Token)}
    (hpieces : ∀ p ∈ pieces, Piece depth p.1 p.2) (ha : IsGap depth a) (hb : IsGap depth b)
    (hgap : IsGap depth gap) (h : Scans E depth cs' ts) (hE : ∀ n, E n → EndsToken (cs' ++ n)) :
    Scans E depth (listedChars a b gap (pieces.map (·.1)) ++ cs')
      (listed a b gap (pieces.map (·.2)) ++ ts) := by
  induction pieces generalizing gap with
  | nil => exact h
  | cons p pieces ih =>
    have hp := hpieces p List.mem_cons_self
    cases pieces with
    | nil =>
      have := hp.append hgap h hE
      simpa [listedChars, listed] using this
    | cons q pieces =>
      have hmore := ih (fun r hr => hpieces r (List.mem_cons_of_mem _ hr)) hb
      have := hp.append hgap (scans_comma ha hmore) fun n _ => by
        simpa using ha.endsToken (endsToken_comma _)
      simpa [listedChars, listed] using this

/-- The end of what stands in parentheses, perhaps behind a last comma: `after` is the gap behind the
last piece, and `last` the one behind the comma. -/
def Closing (after last : List Char) (ts rest : List Token) : Prop :=
  (ts = sign ")" after :: rest ∧ last = []) ∨ ts = sign "," after :: sign ")" last :: rest

theorem endsArgument_comma (gap : List Char) (ts : List Token) : EndsArgument (sign "," gap :: ts) :=
  ⟨_, _, rfl, rfl⟩

theorem Closing.endsArgument (h : Closing after last ts rest) : EndsArgument ts := by
  rcases h with ⟨rfl, -⟩ | rfl
  · exact ⟨_, _, rfl, rfl⟩
  · exact ⟨_, _, rfl, rfl⟩

/-- A list that closes at once. -/
theorem placedUpTo_nil (r : Rule α) (last : List Char) (rest : List Token) :
    placedUpTo ")" r (sign ")" last :: rest) = some (([], last), rest) := by
  rw [placedUpTo]
  rfl

/-- One step of a list: what is read at its front and the comma behind it. -/
theorem placedUpTo_comma {r : Rule α} {t : Token} {us : List Token} {x : α} {more : List (Placed α)}
    (ht : t.isSymbol ")" = false) (hread : r.read (t :: us ++ sign "," a :: ts) = some (x, sign "," a :: ts))
    (h : placedUpTo ")" r ts = some ((more, last), rest)) :
    placedUpTo ")" r (t :: us ++ sign "," a :: ts) = some ((⟨t.before, x, a⟩ :: more, last), rest) := by
  have hlen : ts.length ≤ (us ++ sign "," a :: ts).length := by simp; omega
  rw [List.cons_append] at hread ⊢
  rw [placedUpTo, ht, hread]
  simp only [Bool.false_eq_true, if_false, sign_isSymbol, beq_self_eq_true, if_true, hlen, h]
  rfl

/-- The last piece of a list. -/
theorem placedUpTo_close {r : Rule α} {t : Token} {us : List Token} {x : α}
    (ht : t.isSymbol ")" = false)
    (hread : r.read (t :: us ++ sign ")" a :: rest) = some (x, sign ")" a :: rest)) :
    placedUpTo ")" r (t :: us ++ sign ")" a :: rest) = some (([⟨t.before, x, a⟩], []), rest) := by
  rw [List.cons_append] at hread ⊢
  rw [placedUpTo, ht, hread]
  simp only [Bool.false_eq_true, if_false, sign_isSymbol, beq_self_eq_true, if_true]
  rfl

/-- Pieces with commas between them are read one after the other. -/
theorem placedUpTo_listed {r : Rule α} {pieces : List (List Token × α)} (hne : pieces ≠ [])
    (hstarts : ∀ p ∈ pieces, ∃ t us, p.1 = t :: us ∧ startsPiece t.toLexeme = true)
    (hreads : ∀ p ∈ pieces, ∀ gap g, EndsArgument g → r.read (fromGap gap p.1 ++ g) = some (p.2, g))
    (hclosing : Closing after last ts rest) :
    placedUpTo ")" r (listed a b gap (pieces.map (·.1)) ++ ts) =
      some ((placedIn a b after gap (pieces.map (·.2)), last), rest) := by
  induction pieces generalizing gap with
  | nil => exact absurd rfl hne
  | cons p pieces ih =>
    obtain ⟨t, us, hp, ht⟩ := hstarts p List.mem_cons_self
    have hread := hreads p List.mem_cons_self gap
    have ht' : (t.behind gap).isSymbol ")" = false :=
      startsPiece_isSymbol ht (by decide) (by decide)
    rw [hp] at hread
    cases pieces with
    | nil =>
      simp only [List.map_cons, List.map_nil, listed, placedIn, hp]
      rcases hclosing with ⟨rfl, rfl⟩ | rfl
      · exact placedUpTo_close ht' (hread _ (Closing.endsArgument (.inl ⟨rfl, rfl⟩)))
      · exact placedUpTo_comma ht' (hread _ (endsArgument_comma _ _)) (placedUpTo_nil _ _ _)
    | cons q pieces =>
      have hmore := @ih b (List.cons_ne_nil _ _) (fun r hr => hstarts r (List.mem_cons_of_mem _ hr))
        (fun r hr => hreads r (List.mem_cons_of_mem _ hr))
      have := placedUpTo_comma (a := a) ht' (hread _ (endsArgument_comma _ _)) hmore
      simpa [listed, placedIn, hp, fromGap] using this

/-! ## Heads of functions -/

/-- The front of a function as it is written. -/
def frontChars (isAsync : Bool) (name : String) : List Char :=
  (if isAsync then "async".toList else []) ++ ((if isAsync then [' '] else []) ++ ("def".toList ++
    ([' '] ++ (name.toList ++ ['(']))))

/-- The tokens of the front of a function. -/
def frontTokens (isAsync : Bool) (name : String) : List Token :=
  (if isAsync then [spelled "async" []] else []) ++
    [spelled "def" (if isAsync then [' '] else []), spelled name [' '], sign "(" []]

theorem scans_front {isAsync : Bool} {name : String} (hname : IsLexeme .word name.toList)
    (h : Scans E 1 cs' ts) : Scans E 0 (frontChars isAsync name ++ cs') (frontTokens isAsync name ++ ts) := by
  have hopen := scans_open (isGap_nil 0) h
  have hnamed := hname.append (isGap_space 0) hopen fun n _ => by simpa using endsToken_open _
  cases isAsync with
  | false =>
    have := isLexeme_def.append (isGap_nil 0) hnamed fun n _ => by simpa using endsToken_space _
    simpa [frontChars, frontTokens, spelled] using this
  | true =>
    have hdef := isLexeme_def.append (isGap_space 0) hnamed fun n _ => by simpa using endsToken_space _
    have := isLexeme_async.append (isGap_nil 0) hdef fun n _ => by simpa using endsToken_space _
    simpa [frontChars, frontTokens, spelled] using this

theorem read_typeParams {t : Token} (ht : t.isSymbol "[" = false) (ts : List Token) :
    typeParams.read (t :: ts) = some ((), t :: ts) := by
  rw [typeParams, read_bind, read_takeSymbol_cons, ht]
  rfl

theorem read_front (isAsync : Bool) (name : String) (rest : List Token) :
    functionFront.read (frontTokens isAsync name ++ rest) = some ((isAsync, name), rest) := by
  have hword : ∀ gap, (word "def").read (spelled "def" gap :: spelled name [' '] :: sign "(" [] :: rest) =
      some ((), spelled name [' '] :: sign "(" [] :: rest) := fun gap =>
    read_word_eq_some.2 ⟨_, rfl, by simp⟩
  have hname : anyWord.read (spelled name [' '] :: sign "(" [] :: rest) =
      some (name, sign "(" [] :: rest) :=
    read_anyWord_eq_some.2 ⟨_, rfl, rfl, by simp [spelled, Lexeme.text]⟩
  have hopen : (symbol "(").read (sign "(" [] :: rest) = some ((), rest) :=
    read_symbol_eq_some.2 ⟨_, rfl, by simp⟩
  have htypes := read_typeParams (t := sign "(" []) (by simp) rest
  cases isAsync <;>
    simp [functionFront, frontTokens, read_bind, read_takeWord_cons, hword, hname, htypes, hopen]

/-- What stands behind the parameters of a function whose body is dots. -/
def endChars (returns : Option String) : List Char :=
  (match returns with
    | some text => [' '] ++ ("->".toList ++ ([' '] ++ text.toList))
    | none => []) ++ ([':'] ++ ([' '] ++ "...".toList))

/-- The tokens behind the parameters of a function, but the dots. -/
def endTokens (returns : Option (List Token)) : List Token :=
  (match returns with
    | some us => sign "->" [' '] :: fromGap [' '] us
    | none => []) ++ [sign ":" []]

/-- A colon and dots end a line. -/
theorem scans_dots : Scans EndsLine 0 ([':'] ++ ([' '] ++ "...".toList)) [sign ":" [], sign "..." [' ']] := by
  have hdots := isLexeme_dots.append (isGap_space 0) (.nil EndsLine 0) fun n hn => hn.endsToken
  have := isLexeme_colon.append (isGap_nil 0) hdots fun n _ => by simpa using endsToken_space _
  simpa [sign] using this

/-- A text that is read as a hint outside brackets. -/
def IsHint (text : String) (us : List Token) : Prop :=
  Piece 0 text.toList us ∧ ∃ e, ∀ gap g, EndsAt isStop g → hintExpr.read (fromGap gap us ++ g) = some (e, g)

theorem scans_end {returns : Option (String × List Token)} (h : ∀ p ∈ returns, IsHint p.1 p.2) :
    Scans EndsLine 0 (endChars (returns.map (·.1)))
      (endTokens (returns.map (·.2)) ++ [sign "..." [' ']]) := by
  cases returns with
  | none => simpa [endChars, endTokens] using scans_dots
  | some p =>
    have hhint := (h p rfl).1.append (isGap_space 0) scans_dots fun n _ => by
      simpa using endsToken_colon _
    have := isLexeme_arrow.append (isGap_space 0) hhint fun n _ => by simpa using endsToken_space _
    simpa [endChars, endTokens, sign] using this

theorem read_functionEnd {returns : Option (String × List Token)} (h : ∀ p ∈ returns, IsHint p.1 p.2)
    (rest : List Token) :
    functionEnd.read (endTokens (returns.map (·.2)) ++ rest) = some (returns.map (·.1), rest) := by
  have hcolon : (symbol ":").read (sign ":" [] :: rest) = some ((), rest) :=
    read_symbol_eq_some.2 ⟨_, rfl, by simp⟩
  cases returns with
  | none =>
    simp [functionEnd, endTokens, maybe, read_bind, read_takeSymbol_cons, hcolon]
  | some p =>
    obtain ⟨hpiece, e, hread⟩ := h p rfl
    have hstop : EndsAt isStop (sign ":" [] :: rest) := fun t ht => by
      obtain rfl : sign ":" [] = t := by simpa using ht
      decide
    have hhint : (Rule.withText hintExpr).read (fromGap [' '] p.2 ++ sign ":" [] :: rest) =
        some ((p.1, e), sign ":" [] :: rest) := by
      refine read_withText_eq_some.2 ⟨hread _ _ hstop, ?_⟩
      rw [textSince_append_right, spanChars_fromGap, hpiece.chars, String.ofList_toList]
    simp [functionEnd, endTokens, maybe, read_bind, read_takeSymbol_cons, hcolon, hhint]

/-! ## Heads of classes -/

/-- The head of a class as it is written. -/
def classChars (name : String) (bases : List (List Char)) : List Char :=
  "class".toList ++ ([' '] ++ (name.toList ++
    ((if bases.isEmpty then [] else ['('] ++ (listedChars [] [' '] [] bases ++ [')'])) ++ [':'])))

/-- The tokens of the head of a class. -/
def classTokens (name : String) (bases : List (List Token)) : List Token :=
  spelled "class" [] :: spelled name [' '] ::
    ((if bases.isEmpty then [] else sign "(" [] :: (listed [] [' '] [] bases ++ [sign ")" []])) ++
      [sign ":" []])

theorem scans_class {name : String} {pieces : List (List Char × List Token)}
    (hname : IsLexeme .word name.toList) (hpieces : ∀ p ∈ pieces, Piece 1 p.1 p.2)
    (h : Scans E 0 cs' ts) (hE : ∀ n, E n → EndsToken (cs' ++ n)) :
    Scans E 0 (classChars name (pieces.map (·.1)) ++ cs')
      (classTokens name (pieces.map (·.2)) ++ ts) := by
  have hcolon := isLexeme_colon.append (isGap_nil 0) h hE
  cases pieces with
  | nil =>
    have hnamed := hname.append (isGap_space 0) hcolon fun n _ => by simpa using endsToken_colon _
    have := isLexeme_class.append (isGap_nil 0) hnamed fun n _ => by simpa using endsToken_space _
    simpa [classChars, classTokens, spelled, sign] using this
  | cons p pieces =>
    have hclose := isLexeme_close.append (isGap_nil 1) hcolon fun n _ => by
      simpa using endsToken_colon _
    have hlisted := scans_listed hpieces (isGap_nil 1) (isGap_space 1) (isGap_nil 1) hclose fun n _ => by
      simpa using EndsToken.cons (by decide) _
    have hopen := scans_open (isGap_nil 0) hlisted
    have hnamed := hname.append (isGap_space 0) hopen fun n _ => by simpa using endsToken_open _
    have := isLexeme_class.append (isGap_nil 0) hnamed fun n _ => by simpa using endsToken_space _
    simpa [classChars, classTokens, spelled, sign] using this

/-- No gap that is written between arguments holds a comment. -/
theorem arguments_placedIn (values : List Expr) :
    ∀ gap ∈ [[], [' ']], (placedIn [] [' '] [] gap values).flatMap (·.arguments) = values.map .base := by
  have hnil : commentArguments [] = [] := by simp [commentArguments, commentsIn]
  have hspace : commentArguments [' '] = [] := by simp [commentArguments, commentsIn]
  induction values with
  | nil => simp [placedIn]
  | cons e values ih =>
    intro gap hgap
    have hcomments : commentArguments gap = [] := by
      simp only [List.mem_cons, List.not_mem_nil, or_false] at hgap
      rcases hgap with rfl | rfl
      · exact hnil
      · exact hspace
    cases values with
    | nil => simp [placedIn, Placed.arguments, hcomments, hnil]
    | cons e' values =>
      have hmore := ih [' '] (by simp)
      simp only [placedIn, List.flatMap_cons, hmore]
      simp [Placed.arguments, hcomments, hnil]

theorem read_classHead (name : String) {pieces : List (List Token × Expr)}
    (hstarts : ∀ p ∈ pieces, ∃ t us, p.1 = t :: us ∧ startsPiece t.toLexeme = true)
    (hreads : ∀ p ∈ pieces, ∀ gap g, EndsArgument g →
      argument.read (fromGap gap p.1 ++ g) = some (p.2, g)) (rest : List Token) :
    classHead (classTokens name (pieces.map (·.1)) ++ rest) =
      some (⟨name, (pieces.map (·.2)).map .base⟩, rest) := by
  have hname : ∀ us, anyWord.read (spelled name [' '] :: us) = some (name, us) := fun us =>
    read_anyWord_eq_some.2 ⟨_, rfl, rfl, by simp [spelled, Lexeme.text]⟩
  have hclass : ∀ us, (word "class").read (spelled "class" [] :: us) = some ((), us) := fun us =>
    read_word_eq_some.2 ⟨_, rfl, by simp⟩
  have hcolon : (symbol ":").read (sign ":" [] :: rest) = some ((), rest) :=
    read_symbol_eq_some.2 ⟨_, rfl, by simp⟩
  have htypes : ∀ s us, s ≠ "[" → typeParams.read (sign s [] :: us) = some ((), sign s [] :: us) :=
    fun s us hs => read_typeParams (by simpa using hs) us
  have hlast : commentArguments [] = [] := by simp [commentArguments, commentsIn]
  cases pieces with
  | nil =>
    simp [classHead, classFront, classTokens, read_bind, hclass, hname, htypes, read_takeSymbol_cons,
      classArguments, hcolon, hlast]
  | cons p pieces =>
    have hplaced := @placedUpTo_listed Expr _ _ [] [] [' '] _ _ _ _ (List.cons_ne_nil _ _) hstarts
      hreads (.inl ⟨rfl, rfl⟩ : Closing [] [] (sign ")" [] :: sign ":" [] :: rest) (sign ":" [] :: rest))
    have harguments := arguments_placedIn ((p :: pieces).map (·.2)) [] (by simp)
    have hfront : classFront.read (classTokens name ((p :: pieces).map (·.1)) ++ rest) =
        some ((name, true), listed [] [' '] [] ((p :: pieces).map (·.1)) ++
          sign ")" [] :: sign ":" [] :: rest) := by
      simp [classFront, classTokens, read_bind, hclass, hname, htypes, read_takeSymbol_cons]
    rw [classHead, hfront]
    simp only [Option.bind_eq_bind, Option.bind_some, classArguments, if_true, hplaced, hcolon,
      harguments, hlast, List.append_nil]
    rfl

/-! ## Bodies of dots -/

/-- The expression that dots are. -/
def dotsExpr : Expr := .node .ellipsis "..." []

theorem run_dots (inner : Entry → Reader Expr) (gap : List Char) :
    atom.run inner [sign "..." gap] = some (dotsExpr, []) := by
  have hbrace : ("..." == braceOpening) = false := by decide
  have hstring : isString (sign "..." gap).toLexeme = false := rfl
  simp [atom, leaf, Bind.bind, Pure.pure, run, atToken, atSymbol, Ahead.holds, hbrace, hstring, dotsExpr]

theorem manyFrom_nil (go : Ahead) (f : Reader α) : manyFrom go f [] = some ([], []) := by
  rw [manyFrom]
  rfl

theorem extendFrom_nil (start : List Token) (go : Ahead) (f : Reader (ExprKind × List Expr)) (e : Expr) :
    extendFrom start go f e [] = some (e, []) := by
  rw [Rule.extendFrom]
  rfl

/-- Dots alone pass through all of the levels of expressions. -/
theorem expression_dots (gap : List Char) : expression .full [sign "..." gap] = some (dotsExpr, []) := by
  rw [expression]
  simp [ruleOf, fullExpr, plainExpr, disjunctionExpr, negationExpr, comparisonExpr, binaryExpr,
    binaryOperators, unaryExpr, power, primaryExpr, leftChain, Bind.bind, Pure.pure, run, atWord,
    atToken, Ahead.holds, isOneOf, extendFrom_nil, manyFrom_nil, takeWord, run_dots, Expr.isName,
    Expr.kind, Expr.parts, textSince, takenSince, dotsExpr]
  simp [sign, spanChars]

theorem simpleStatements_dots (column : Nat) (gap : List Char) :
    simpleStatements column [sign "..." gap] = some [.expression ⟨"...", column⟩ [dotsExpr]] := by
  have hstatement : simpleStatement [sign "..." gap] =
      some fun place => .expression place [dotsExpr] := by
    rw [simpleStatement_of_other (by simp), wholeStatement_eq_some]
    have hread := expression_dots gap
    simp [expressionStatement, assignedValue, expressionList, commaList, commaListTo, Rule.read, run,
      Bind.bind, Pure.pure, atWord, atToken, atSymbol, takeSymbol, Ahead.holds, hread, manyFrom_nil]
    rfl
  rw [simpleStatements_one (by simp [Lexeme.isOrdinary]), hstatement]
  simp [sign, spanChars]

/-- A body of dots behind a head. -/
theorem withSuite_dots (block : BlockReader) (indent : Nat) (line : Line) (gap : List Char)
    (after : List Line) :
    ∃ b place, withSuite block indent [] line [sign "..." gap] after = some b ∧
      b.body = [.expression place [dotsExpr]] ∧ b.rest = after := by
  simp [withSuite, suite, simpleStatements_dots, Block.followedBy, Block.behind]

/-! ## Lines of definitions -/

section Lines

variable {k : Nat} {line : Line} {block : BlockReader}

/-- A line that starts a function whose body is dots. -/
theorem definition_function {isAsync : Bool} {name : String} {params : List Token}
    {placed : List (Placed Param)} {returns : Option (String × List Token)} {decorators : List Expr}
    (htokens : line.tokens =
      frontTokens isAsync name ++ (params ++ (endTokens (returns.map (·.2)) ++ [sign "..." gap])))
    (hparams : ∀ rest, placedUpTo ")" param (params ++ rest) = some ((placed, last), rest))
    (hreturns : ∀ p ∈ returns, IsHint p.1 p.2) (after : List Line) :
    ∃ b body, definition block k decorators line after = some b ∧
      b.body = [.function ⟨name, isAsync, placed.map (·.value), textBetween placed, returns.map (·.1)⟩
        decorators body] ∧ b.rest = after := by
  have hclass : line.startsWith "class" = false := by
    cases isAsync <;> simp [Line.startsWith, htokens, frontTokens]
  have hhead : functionHead line.tokens = some (⟨name, isAsync, placed.map (·.value),
      textBetween placed, returns.map (·.1)⟩, [sign "..." gap]) := by
    rw [htokens, functionHead, read_front]
    simp only [Option.bind_eq_bind, Option.bind_some, hparams, read_functionEnd hreturns]
    rfl
  obtain ⟨b, place, hsuite, hbody, hrest⟩ := withSuite_dots block k line gap after
  refine ⟨{ b with body := [.function _ decorators b.body] }, b.body, ?_, rfl, hrest⟩
  simp [definition, hclass, hhead, hsuite]

/-- A line that starts a class whose body is dots. -/
theorem definition_class_dots {name : String} {pieces : List (List Token × Expr)}
    {decorators : List Expr}
    (htokens : line.tokens = classTokens name (pieces.map (·.1)) ++ [sign "..." gap])
    (hstarts : ∀ p ∈ pieces, ∃ t us, p.1 = t :: us ∧ startsPiece t.toLexeme = true)
    (hreads : ∀ p ∈ pieces, ∀ gap g, EndsArgument g →
      argument.read (fromGap gap p.1 ++ g) = some (p.2, g)) (after : List Line) :
    ∃ b place, definition block k decorators line after = some b ∧
      b.body = [.classDef ⟨name, (pieces.map (·.2)).map .base⟩ decorators
        [.expression place [dotsExpr]]] ∧ b.rest = after := by
  have hclass : line.startsWith "class" = true := by simp [Line.startsWith, htokens, classTokens]
  have hhead := read_classHead name hstarts hreads [sign "..." gap]
  rw [← htokens] at hhead
  obtain ⟨b, place, hsuite, hbody, hrest⟩ := withSuite_dots block k line gap after
  refine ⟨{ b with body := [.classDef _ decorators b.body] }, place, ?_, by rw [hbody], hrest⟩
  simp [definition, hclass, hhead, hsuite]

/-- A line that starts a class with a block below it. -/
theorem definition_class {name : String} {pieces : List (List Token × Expr)} {decorators : List Expr}
    {first : Line} {more : List Line} {inside : Block}
    (htokens : line.tokens = classTokens name (pieces.map (·.1)))
    (hstarts : ∀ p ∈ pieces, ∃ t us, p.1 = t :: us ∧ startsPiece t.toLexeme = true)
    (hreads : ∀ p ∈ pieces, ∀ gap g, EndsArgument g →
      argument.read (fromGap gap p.1 ++ g) = some (p.2, g))
    (hfirst : first.isComment = false) (hindent : k < first.indent)
    (hinside : block first.indent (first :: more) = some inside) :
    ∃ b, definition block k decorators line (first :: more) = some b ∧
      b.body = [.classDef ⟨name, (pieces.map (·.2)).map .base⟩ decorators inside.body] ∧
      b.rest = inside.rest := by
  have hclass : line.startsWith "class" = true := by simp [Line.startsWith, htokens, classTokens]
  have hhead := read_classHead name hstarts hreads []
  rw [List.append_nil, ← htokens] at hhead
  have hsuite : ∀ column, suite block k column [] (first :: more) = some (inside.behind 0) := by
    intro column
    simp [suite, hfirst, hindent, hinside]
  obtain ⟨b, hb, hbody, hrest⟩ : ∃ b, withSuite block k [] line [] (first :: more) = some b ∧
      b.body = inside.body ∧ b.rest = inside.rest := by
    simp [withSuite, hsuite, Block.followedBy, Block.behind]
  refine ⟨{ b with body := [.classDef _ decorators b.body] }, ?_, by rw [hbody], hrest⟩
  simp [definition, hclass, hhead, hb]

end Lines

end TypedStubs.Syntax
