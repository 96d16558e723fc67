import TypedStubs.Proofs.Syntax.Layer
import TypedStubs.Proofs.Syntax.Piece
import TypedStubs.Proofs.Syntax.Start

/-! # Hints, values, arguments and parameters can be moved

What a rule takes off a scanned line is read as the same thing wherever it is written, if as many
brackets are open there and what follows is something that the rule does not go on with.  This needs
three facts about a rule: what it stops at, that it closes the brackets it opens, and what it starts
with.  They are proved here for the rules whose readings stubs keep.
-/
namespace TypedStubs.Syntax

open Rule

variable {α : Type} {depth : Nat} {ts us g rest : List Token} {gap cs : List Char}

/-- A text that `r` reads as `a` wherever it is written with `depth` brackets open, before tokens that
satisfy `E`. -/
def Reads (E : List Token → Prop) (depth : Nat) (r : Rule α) (cs : List Char) (a : α) : Prop :=
  ∃ us, Piece depth cs us ∧ (∀ t, us.head? = some t → startsPiece t.toLexeme = true) ∧
    ∀ gap g, E g → r.read (fromGap gap us ++ g) = some (a, g)

/-- **What a rule takes off a scanned line can be moved.** -/
theorem reads_of_read {E : List Token → Prop} {r : Rule α} {a : α} (hstops : Stops E r)
    (hE : ∀ g, E g → EndsAt isStop g) (hnets : Nets 0 0 r) (hstarts : Starts r)
    (hscan : Scanned depth ts) (hrest : E rest) (h : r.read ts = some (a, rest)) :
    ∃ us, ts = us ++ rest ∧ Reads E depth r (spanChars us) a := by
  obtain ⟨t, tail, rfl, ht, front, rfl⟩ := hstarts.read h
  obtain ⟨taken, htaken, hnet⟩ := hnets.read h
  have hus : taken = t :: front := by
    rw [← List.cons_append] at htaken
    exact (List.append_cancel_right htaken).symm
  subst hus
  refine ⟨t :: front, rfl, t :: front, hscan.piece (List.cons_ne_nil _ _) hnet, ?_, ?_⟩
  · intro u hu
    obtain rfl : t = u := by simpa using hu
    exact ht
  · intro gap g hg
    have hread : r.read (t :: front ++ g) = some (a, [] ++ g) :=
      hstops.read hE hrest hg (by simpa using h)
    rcases r.read_gapFree gap hread with ⟨hlen, -⟩ | ⟨-, hread'⟩
    · have := congrArg List.length hlen
      simp only [List.nil_append, List.append_eq, List.length_cons, List.length_append] at this
      omega
    · exact hread'

/-! ## What these rules stop at -/

/-- Tokens that an argument or a parameter ends at. -/
def EndsArgument (g : List Token) : Prop :=
  ∃ t g', g = t :: g' ∧ isOneOf [",", ")"] t.toLexeme = true

/-- Tokens that a value or a target ends at. -/
def EndsValue (g : List Token) : Prop := EndsAt (isOneOf [":", "="]) g

theorem isStop_of_isOneOf {ss : List String} (hs : ∀ s ∈ ss, s ∈ stopSymbols) {l : Lexeme}
    (h : isOneOf ss l = true) : isStop l = true := by
  simp only [isOneOf, Bool.and_eq_true, beq_iff_eq, List.contains_iff_mem] at h
  simp [isStop, isOneOf, h.1, hs _ h.2]

theorem EndsArgument.isStop (h : EndsArgument g) : EndsAt isStop g := by
  obtain ⟨t, g', rfl, ht⟩ := h
  intro u hu
  obtain rfl : t = u := by simpa using hu
  exact isStop_of_isOneOf (by decide) ht

theorem EndsValue.isStop (h : EndsValue g) : EndsAt isStop g :=
  EndsAt.mono h fun _ => isStop_of_isOneOf (by decide)

theorem isOneOf_disjoint {ss ss' : List String} (hs : ∀ s ∈ ss, s ∉ ss') {l : Lexeme}
    (h : isOneOf ss l = true) : isOneOf ss' l = false := by
  simp only [isOneOf, Bool.and_eq_true, beq_iff_eq, List.contains_iff_mem] at h
  simp [isOneOf, hs _ h.2]

theorem isSymbol_of_isOneOf {ss : List String} {s : String} (hs : s ∉ ss) {l : Lexeme}
    (h : isOneOf ss l = true) : l.isSymbol s = false := by
  have : isOneOf [s] l = false := isOneOf_disjoint (fun s' hs' heq => hs (by simp_all)) h
  simpa [isOneOf, Lexeme.isSymbol] using this

theorem hintExpr_stops : StopsHere hintExpr :=
  .bind (atSymbol_stops (by decide)) fun _ => .ite (splat_stops (.inner _)) (.inner _)

theorem commaListTo_stops {E : List Token → Prop} {ended : Rule Bool} {p : Rule α}
    (hE : ∀ g, E g → (Ahead.token (·.isSymbol ",")).holds g = false) (he : Stops E ended)
    (hp : Stops E p) : Stops E (commaListTo ended p) := by
  refine .bind hp fun _ => .bind (.many false hE (.bind (.symbol _) fun _ => ?_)) fun _ => .pure _
  exact .bind he fun _ => .ite (.pure _) (.bind hp fun _ => .pure _)

theorem startsItem_of_endsValue : ∀ g, EndsValue g → (Ahead.token startsItem).holds g = false :=
  EndsAt.not_holds fun l hl => by
    simp only [isOneOf, Bool.and_eq_true, beq_iff_eq, List.contains_iff_mem] at hl
    have : ∀ s ∈ [":", "="], itemSymbols.contains s = false := by decide
    rw [startsItem, hl.1, this _ hl.2]

theorem commaList_stops {p : Rule α} (hp : Stops EndsValue p) : Stops EndsValue (commaList p) := by
  refine commaListTo_stops (EndsAt.not_holds fun l => isSymbol_of_isOneOf (by decide)) ?_ hp
  refine .bind (.ahead false (EndsAt.not_holds fun l hl => ?_)) fun _ => .pure _
  have hitem : ∀ s ∈ [":", "="], itemSymbols.contains s = false := by decide
  have hcomma : l.isSymbol "," = false := isSymbol_of_isOneOf (by decide) hl
  simp only [isOneOf, Bool.and_eq_true, beq_iff_eq, List.contains_iff_mem] at hl
  rw [startsItem, hl.1, hitem _ hl.2, hcomma]
  rfl

/-- A value goes on with a comma, so it is read alike only before a colon or an equals sign. -/
theorem assignedValue_stops : Stops EndsValue assignedValue := by
  have hword : ∀ w g, EndsValue g → (Ahead.token (·.isWord w)).holds g = false := fun w =>
    EndsAt.not_holds fun l hl => isWord_of_isStop w (isStop_of_isOneOf (by decide) hl)
  refine .bind (.ahead false (hword _)) fun _ => .ite (.node (.bind (.word _) fun _ => ?_)) ?_
  · refine .bind (.takeWord (hword _)) fun _ => .ite (.bind (.inner _) fun _ => .pure _) ?_
    refine .bind (.ahead false startsItem_of_endsValue) fun _ => .ite ?_ (.pure _)
    exact .bind (commaList_stops (.inner _)) fun _ => .pure _
  · refine .bind (.withText (commaList_stops (.inner _))) ?_
    rintro ⟨text, items, comma⟩
    match items, comma with
    | [only], false => exact .pure _
    | [], _ | [_], true | _ :: _ :: _, _ => exact .pure _

theorem EndsArgument.not_holds {p : Lexeme → Bool} (h : ∀ l, isOneOf [",", ")"] l = true → p l = false) :
    ∀ g, EndsArgument g → (Ahead.token p).holds g = false := by
  rintro g ⟨t, g', rfl, ht⟩
  exact h _ ht

theorem argument_stops : Stops EndsArgument argument := by
  have hat : ∀ s, s ∉ [",", ")"] → Stops EndsArgument (atSymbol s) := fun s hs =>
    .ahead false (EndsArgument.not_holds fun _ => isSymbol_of_isOneOf hs)
  have hsplat : ∀ kind sign, Stops EndsArgument (splat kind sign (.inner .full)) := fun kind sign =>
    .node (.bind (.symbol sign) fun _ => .bind (.inner _) fun _ => .pure _)
  refine .bind (hat _ (by decide)) fun _ => .ite (hsplat _ _) (.bind (hat _ (by decide)) fun _ => ?_)
  refine .ite (hsplat _ _) (.byName false ?_ ?_ (.inner _))
  · rintro g ⟨t, g', rfl, ht⟩
    exact isSymbol_of_isOneOf (by decide) ht
  · exact .node (.bind .anyWord fun _ => .bind (.symbol _) fun _ => .bind (.inner _) fun _ => .pure _)

theorem stopsBefore_of_stopsHere {r : Rule α} (h : StopsHere r) : Stops EndsArgument r :=
  fun _ _ _ _ _ hg hg' hin => h hg.isStop hg'.isStop hin

theorem paramHint_stops : Stops EndsArgument paramHint := by
  refine .bind (.maybe (.takeSymbol ?_) (.withText (stopsBefore_of_stopsHere hintExpr_stops)))
    fun _ => .pure _
  exact EndsArgument.not_holds fun _ => isSymbol_of_isOneOf (by decide)

theorem paramDefault_stops : Stops EndsArgument paramDefault := by
  refine .bind (.maybe (.takeSymbol ?_) (.withText (.inner _))) fun _ => .pure _
  exact EndsArgument.not_holds fun _ => isSymbol_of_isOneOf (by decide)

/-- A star alone is told from the name of other arguments by what a parameter ends at. -/
theorem starParam_stops (kind : ParamKind) : Stops EndsArgument (starParam kind) := by
  refine .bind (.withText (.bind (.symbolIn _) fun _ => .bind (.ahead true ?_) fun _ => ?_)) ?_
  · rintro g ⟨t, g', rfl, ht⟩
    exact ht
  · exact .ite (.pure _) (.bind (.discard .anyWord) fun _ => .pure _)
  · exact fun _ => .ite (.pure _) (.bind paramHint_stops fun _ => .pure _)

theorem param_stops : Stops EndsArgument param := by
  have hnot : ∀ s, s ∉ [",", ")"] → ∀ g, EndsArgument g → (Ahead.token (·.isSymbol s)).holds g = false :=
    fun s hs => EndsArgument.not_holds fun _ => isSymbol_of_isOneOf hs
  refine .bind (.withText (.bind (.takeSymbol (hnot _ (by decide))) fun _ => .ite (.pure _) ?_))
    fun _ => .pure _
  refine .bind (.ahead false (hnot _ (by decide))) fun _ => .ite (starParam_stops _) ?_
  refine .bind (.ahead false (hnot _ (by decide))) fun _ => .ite (starParam_stops _) ?_
  exact .bind .anyWord fun _ => .bind paramHint_stops fun _ => .bind paramDefault_stops fun _ => .pure _

/-! ## They close the brackets they open -/

variable {a : Nat}

theorem hintExpr_nets : Nets a a hintExpr :=
  .bind (.ahead _) fun _ => .ite (splat_nets (by decide) (.inner _)) (.inner _)

theorem expressionList_nets : Nets a a expressionList := by
  refine .bind (.withText (.commaList (.inner _))) ?_
  rintro ⟨text, items, comma⟩
  match items, comma with
  | [only], false => exact .pure _
  | [], _ | [_], true | _ :: _ :: _, _ => exact .pure _

theorem assignedValue_nets : Nets a a assignedValue :=
  .bind (.ahead _) fun _ => .ite yieldExpr_nets expressionList_nets

theorem paramHint_nets : Nets a a paramHint :=
  .bind (.maybe (.takeSymbol (by decide)) (.withText hintExpr_nets)) fun _ => .pure _

theorem starParam_nets (kind : ParamKind) : Nets a a (starParam kind) := by
  refine .bind (b := a)
    (.withText (.bind (.discard (.oneOf (by decide))) fun _ => .bind (.ahead _) fun _ => ?_)) ?_
  · exact .ite (.pure _) (.bind (.discard .anyWord) fun _ => .pure _)
  · exact fun _ => .ite (.pure _) (.bind paramHint_nets fun _ => .pure _)

theorem param_nets : Nets a a param := by
  refine .bind (b := a) (.withText (.bind (.takeSymbol (by decide)) fun _ => .ite (.pure _) ?_))
    fun _ => .pure _
  refine .bind (.ahead _) fun _ => .ite (starParam_nets _) ?_
  refine .bind (.ahead _) fun _ => .ite (starParam_nets _) (.bind .anyWord fun _ => ?_)
  refine .bind paramHint_nets fun _ => .bind ?_ fun _ => .pure _
  exact .bind (.maybe (.takeSymbol (by decide)) (.withText (.inner _))) fun _ => .pure _

/-! ## They keep the text that they take -/

/-- The text of an expression that is read is what was taken for it. -/
def Spelled (f : Reader Expr) : Prop := ∀ ⦃ts e rest⦄, f ts = some (e, rest) → e.text = textSince ts rest

theorem expression_spelled (e : Entry) : Spelled (expression e) := by
  intro ts found rest h
  obtain ⟨inside, -, rfl⟩ := expression_eq_some.1 h
  rfl

theorem node_spelled (kind : ExprKind) (parts : Rule (List Expr)) : Spelled (node kind parts).read := by
  intro ts e rest h
  obtain ⟨⟨text, parts⟩, mid, htext, hpure⟩ := read_bind_eq_some.1 h
  obtain ⟨rfl, rfl⟩ := Prod.mk.inj (Option.some.inj hpure)
  exact (read_withText_eq_some.1 htext).2

theorem ask_spelled {q : Ahead} {yes no : Rule Expr} (hy : Spelled yes.read) (hn : Spelled no.read) :
    Spelled (Rule.ahead q >>= fun b => if b then yes else no).read := by
  intro ts e rest h
  obtain ⟨b, mid, hask, h⟩ := read_bind_eq_some.1 h
  obtain ⟨rfl, rfl⟩ := Prod.mk.inj (Option.some.inj hask)
  split at h
  · exact hy h
  · exact hn h

theorem hintExpr_spelled : Spelled hintExpr.read := ask_spelled (node_spelled _ _) (expression_spelled _)

theorem assignedValue_spelled : Spelled assignedValue.read := by
  refine ask_spelled (node_spelled _ _) fun ts e rest h => ?_
  rcases expressionList_cases h with h | ⟨-, h⟩
  · exact expression_spelled _ h
  · exact h

theorem argument_spelled : Spelled argument.read := by
  refine ask_spelled (node_spelled _ _) (ask_spelled (node_spelled _ _) fun ts e rest h => ?_)
  simp only [Rule.read, run] at h
  split at h
  · next hread =>
    obtain ⟨-, heq⟩ := Option.ite_none_right_eq_some.1 h
    obtain ⟨rfl, rfl⟩ := Prod.mk.inj (Option.some.inj heq)
    split at hread
    · exact node_spelled _ _ hread
    · exact expression_spelled _ hread
  · cases h

/-! ## Readings off a line -/

section Readings

variable {e : Expr}

/-- The text of what was read is the text of the tokens taken. -/
theorem reads_text {E : List Token → Prop} {r : Rule Expr} (hspelled : Spelled r.read)
    (hreads : ∃ us, ts = us ++ rest ∧ Reads E depth r (spanChars us) e) (h : r.read ts = some (e, rest)) :
    Reads E depth r e.text.toList e := by
  obtain ⟨us, rfl, hus⟩ := hreads
  rwa [hspelled h, textSince_append_right, String.toList_ofList]

theorem reads_hint (hscan : Scanned depth ts) (hrest : EndsAt isStop rest)
    (h : hintExpr.read ts = some (e, rest)) :
    Reads (EndsAt isStop) depth hintExpr e.text.toList e :=
  reads_text hintExpr_spelled
    (reads_of_read hintExpr_stops (fun _ hg => hg) hintExpr_nets hintExpr_starts hscan hrest h) h

theorem reads_expression (hscan : Scanned depth ts) (hrest : EndsAt isStop rest)
    (h : (Rule.inner .full).read ts = some (e, rest)) :
    Reads (EndsAt isStop) depth (.inner .full) e.text.toList e :=
  reads_text (expression_spelled .full)
    (reads_of_read (.inner _) (fun _ hg => hg) (.inner _) (.inner _) hscan hrest h) h

theorem reads_value (hscan : Scanned depth ts) (hrest : EndsValue rest)
    (h : assignedValue.read ts = some (e, rest)) :
    Reads EndsValue depth assignedValue e.text.toList e :=
  reads_text assignedValue_spelled (reads_of_read assignedValue_stops (fun _ hg => hg.isStop)
    assignedValue_nets assignedValue_starts hscan hrest h) h

theorem reads_argument (hscan : Scanned depth ts) (hrest : EndsArgument rest)
    (h : argument.read ts = some (e, rest)) :
    Reads EndsArgument depth argument e.text.toList e :=
  reads_text argument_spelled (reads_of_read argument_stops (fun _ hg => hg.isStop) argument_nets
    argument_starts hscan hrest h) h

theorem reads_param {p : Param} (hscan : Scanned depth ts) (hrest : EndsArgument rest)
    (h : param.read ts = some (p, rest)) :
    Reads EndsArgument depth param p.text.toList p := by
  obtain ⟨us, rfl, hreads⟩ := reads_of_read param_stops (fun _ hg => hg.isStop) param_nets param_starts
    hscan hrest h
  obtain ⟨⟨text, bare⟩, mid, hbare, hp⟩ := read_bind_eq_some.1 h
  obtain ⟨rfl, rfl⟩ := Prod.mk.inj (Option.some.inj hp)
  have hchars : text.toList = spanChars us := by
    rw [(read_withText_eq_some.1 hbare).2, textSince_append_right, String.toList_ofList]
  exact hchars ▸ hreads

end Readings

end TypedStubs.Syntax
