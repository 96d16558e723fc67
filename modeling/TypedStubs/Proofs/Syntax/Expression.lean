import TypedStubs.Proofs.Syntax.Rule

/-! # Expressions end where nothing goes on with them

No expression goes on with a comma, a closing parenthesis, a colon or an equals sign that is not its
own.  So each rule of the grammar reads alike before any of them and before the end of the tokens, and
an expression can be moved from one such place to another (`expression_alike`, `Rule.read_alike`).
-/
namespace TypedStubs.Syntax

open Rule

/-- The symbols that no expression goes on with. -/
def stopSymbols : List String := [",", ")", ":", "="]

/-- Whether no expression goes on with a lexeme. -/
def isStop (l : Lexeme) : Bool := l.isComment || isOneOf stopSymbols l

/-- Tokens that are none or start with a lexeme that satisfies `p`. -/
def EndsAt (p : Lexeme → Bool) (g : List Token) : Prop :=
  ∀ t, g.head? = some t → p t.toLexeme = true

theorem EndsAt.nil (p : Lexeme → Bool) : EndsAt p [] := fun t h => by simp at h

theorem EndsAt.mono {p q : Lexeme → Bool} {g : List Token} (h : EndsAt p g)
    (hpq : ∀ l, p l = true → q l = true) : EndsAt q g := fun t ht => hpq _ (h t ht)

/-- The answer to a question is no where what stops an expression answers no. -/
theorem EndsAt.not_holds {p q : Lexeme → Bool} (h : ∀ l, p l = true → q l = false) :
    ∀ g, EndsAt p g → (Ahead.token q).holds g = false := by
  intro g hg
  cases g with
  | nil => rfl
  | cons t g => exact h _ (hg t rfl)

theorem isWord_of_isStop (w : String) {l : Lexeme} (h : isStop l = true) : l.isWord w = false := by
  simp only [isStop, Lexeme.isComment, isOneOf, Bool.or_eq_true, Bool.and_eq_true,
    beq_iff_eq] at h
  rcases h with h | h <;> simp [Lexeme.isWord, h]

theorem isOneOf_of_isStop {ss : List String} (hs : ∀ s ∈ ss, s ∉ stopSymbols) {l : Lexeme}
    (h : isStop l = true) : isOneOf ss l = false := by
  simp only [isStop, Lexeme.isComment, isOneOf, Bool.or_eq_true, Bool.and_eq_true,
    beq_iff_eq, List.contains_iff_mem] at h
  rcases h with h | h
  · simp [isOneOf, h]
  · have hn : l.text ∉ ss := fun hm => hs l.text hm h.2
    simp [isOneOf, hn]

theorem isSymbol_of_isStop {s : String} (hs : s ∉ stopSymbols) {l : Lexeme} (h : isStop l = true) :
    l.isSymbol s = false := by
  have : isOneOf [s] l = false := isOneOf_of_isStop (by simpa using hs) h
  simpa [isOneOf, Lexeme.isSymbol] using this

theorem kind_of_isStop {k : TokenKind} (hc : k ≠ .comment) (hs : k ≠ .symbol) {l : Lexeme}
    (h : isStop l = true) : (l.kind == k) = false := by
  simp only [isStop, Lexeme.isComment, isOneOf, Bool.or_eq_true, Bool.and_eq_true,
    beq_iff_eq] at h
  rcases h with h | h
  · simp [h, hc.symm]
  · simp [h.1, hs.symm]

theorem isString_of_isStop {l : Lexeme} (h : isStop l = true) : isString l = false := by
  simp only [isStop, Lexeme.isComment, isOneOf, Bool.or_eq_true, Bool.and_eq_true,
    beq_iff_eq] at h
  rcases h with h | h <;> simp [isString, h]

theorem startsComparison_of_isStop {l : Lexeme} (h : isStop l = true) :
    startsComparison l = false := by
  rw [startsComparison, isWord_of_isStop _ h, isWord_of_isStop _ h, isWord_of_isStop _ h,
    isOneOf_of_isStop (by decide) h]
  rfl

theorem noLoop_of_endsAt {g : List Token} (h : EndsAt isStop g) : NoLoop g := by
  cases g with
  | nil => rfl
  | cons t g => exact isWord_of_isStop _ (h t rfl)

/-! ## The rules of the grammar -/

/-- A rule reads alike before whatever no expression goes on with. -/
abbrev StopsHere {α : Type} (r : Rule α) : Prop := Stops (EndsAt isStop) r

/-- A rule ends with a token of its own. -/
abbrev ClosesHere {α : Type} (r : Rule α) : Prop := Closes (EndsAt isStop) r

section Questions
variable {α : Type}

theorem atWord_stops (w : String) : StopsHere (atWord w) :=
  .ahead false (EndsAt.not_holds fun _ => isWord_of_isStop w)

theorem takeWord_stops (w : String) : StopsHere (takeWord w) :=
  .takeWord (EndsAt.not_holds fun _ => isWord_of_isStop w)

theorem atSymbol_stops {s : String} (hs : s ∉ stopSymbols) : StopsHere (atSymbol s) :=
  .ahead false (EndsAt.not_holds fun _ => isSymbol_of_isStop hs)

theorem takeSymbol_stops {s : String} (hs : s ∉ stopSymbols) : StopsHere (takeSymbol s) :=
  .takeSymbol (EndsAt.not_holds fun _ => isSymbol_of_isStop hs)

theorem atOneOf_stops {ss : List String} (hs : ∀ s ∈ ss, s ∉ stopSymbols) :
    StopsHere (atToken (isOneOf ss)) :=
  .ahead false (EndsAt.not_holds fun _ => isOneOf_of_isStop hs)

theorem atKind_stops {k : TokenKind} (hc : k ≠ .comment) (hs : k ≠ .symbol) :
    StopsHere (atToken (·.kind == k)) :=
  .ahead false (EndsAt.not_holds fun _ => kind_of_isStop hc hs)

end Questions

theorem leftChain_stops {kind : ExprKind} {isOperator : Lexeme → Bool} {operand : Rule Expr}
    (ho : ∀ l, isStop l = true → isOperator l = false) (h : StopsHere operand) :
    StopsHere (leftChain kind isOperator operand) :=
  .extend false (EndsAt.not_holds ho) h
    (.bind (.discard (.take _)) fun _ => .bind h fun _ => .pure _)

theorem splat_stops {kind : ExprKind} {sign : String} {operand : Rule Expr} (h : StopsHere operand) :
    StopsHere (splat kind sign operand) :=
  .node (.bind (.symbol sign) fun _ => .bind h fun _ => .pure _)

theorem lambdaExpr_stops : StopsHere lambdaExpr := by
  have body : ClosesHere (do symbol ":"; return [← .inner .full] : Rule (List Expr)) :=
    .bind_left (.symbol ":") fun _ => .bind (.inner _) fun _ => .pure _
  have params : ClosesHere (do
      if !(← atSymbol ":") then discard (commaListTo (atSymbol ":") lambdaParam)
      symbol ":"
      return [← .inner .full] : Rule (List Expr)) :=
    .bind fun _ => .ite (.bind fun _ => body) body
  exact .node (.bind (.word _) fun _ => params.stops)

theorem stringExpr_stops : StopsHere stringExpr := .bind (.string _) fun _ => .pure _

theorem stringsExpr_stops : StopsHere stringsExpr := by
  refine .bind (.withText (.bind stringExpr_stops fun _ => .bind ?_ fun _ => .pure _)) ?_
  · exact .many false (EndsAt.not_holds fun _ => isString_of_isStop) stringExpr_stops
  · exact fun _ => .ite (.pure _) (.pure _)

theorem contents_closes (closing : String) (comprehension several only : ExprKind) :
    ClosesHere (contents closing comprehension several only) := by
  have one : ∀ a : ExprKind × List Expr, ClosesHere (do symbol closing; return a) :=
    fun a => .bind_left (.symbol closing) fun _ => .pure _
  refine .bind fun first => .bind fun _ => .ite (.bind fun _ => one _) (.bind fun _ => .ite ?_ ?_)
  · exact .bind_left (.commaListUpTo closing _) fun _ => .pure _
  · exact one _

theorem parenthesized_stops : StopsHere parenthesized := by
  refine .bind (.withText (.bind (.symbol _) fun _ => ?_)) fun _ => .pure _
  exact (Closes.takeSymbol (.pure _) (contents_closes _ _ _ _)).stops

theorem bracketed_stops : StopsHere bracketed := by
  refine .bind (.withText (.bind (.symbol _) fun _ => ?_)) fun _ => .pure _
  exact (Closes.takeSymbol (.pure _) (contents_closes _ _ _ _)).stops

theorem braced_stops : StopsHere braced := by
  refine .bind (.withText (.bind (.symbol _) fun _ => ?_)) fun _ => .pure _
  have one : ∀ a : ExprKind × List Expr, ClosesHere (do symbol braceClosing; return a) :=
    fun a => .bind_left (.symbol _) fun _ => .pure _
  have list : ∀ (p : Rule Expr) (f : List Expr → ExprKind × List Expr),
      ClosesHere (do return f (← commaListUpTo braceClosing p)) :=
    fun p f => .bind_left (.commaListUpTo _ p) fun _ => .pure _
  refine (Closes.takeSymbol (.pure _) (.bind fun _ => .ite (list _ _) ?_)).stops
  refine .bind fun first => .bind fun _ => .ite (.bind fun _ => one _) ?_
  exact .bind fun _ => .ite (list _ _) (one _)

theorem starred_stops : StopsHere starred :=
  splat_stops (.bind (.inner _) fun _ => .bind (.require _) fun _ => .pure _)

theorem leaf_stops (kind : ExprKind) (p : Lexeme → Bool) : StopsHere (leaf kind p) :=
  .bind (.take p) fun _ => .pure _

theorem wordExpr_stops : StopsHere wordExpr := .bind (.take _) fun _ => .pure _

theorem atom_stops : StopsHere atom := by
  refine .bind (atKind_stops (by decide) (by decide)) fun _ => .ite wordExpr_stops ?_
  refine .bind (atKind_stops (by decide) (by decide)) fun _ => .ite (leaf_stops _ _) ?_
  refine .bind (atKind_stops (by decide) (by decide)) fun _ => .ite (leaf_stops _ _) ?_
  refine .bind (.ahead false (EndsAt.not_holds fun _ => isString_of_isStop)) fun _ =>
    .ite stringsExpr_stops ?_
  refine .bind (atSymbol_stops (by decide)) fun _ => .ite parenthesized_stops ?_
  refine .bind (atSymbol_stops (by decide)) fun _ => .ite bracketed_stops ?_
  refine .bind (atSymbol_stops (by decide)) fun _ => .ite braced_stops ?_
  exact .bind (atSymbol_stops (by decide)) fun _ => .ite starred_stops (leaf_stops _ _)

theorem callArguments_closes : ClosesHere callArguments := by
  have one : ∀ a : List Expr, ClosesHere (do symbol ")"; return a) :=
    fun a => .bind_left (.symbol _) fun _ => .pure _
  refine .takeSymbol (.pure _) (.bind fun first => .bind fun _ => .ite (.bind fun _ => one _) ?_)
  exact .bind fun _ => .ite (.bind_left (.commaListUpTo _ _) fun _ => .pure _) (one _)

theorem trailer_stops : StopsHere trailer := by
  refine .bind (takeSymbol_stops (by decide)) fun _ => .ite (.bind .anyWord fun _ => .pure _) ?_
  refine .bind (takeSymbol_stops (by decide)) fun _ =>
    .ite (.bind callArguments_closes.stops fun _ => .pure _) ?_
  refine .bind (.symbol _) fun _ => Closes.stops (.bind fun _ => ?_)
  exact .bind_left (.symbol _) fun _ => .pure _

theorem primaryExpr_stops : StopsHere primaryExpr :=
  .extend false (EndsAt.not_holds fun _ => isOneOf_of_isStop (by decide)) atom_stops trailer_stops

theorem power_stops : StopsHere power := by
  have operand {kind : ExprKind} : StopsHere (do return (kind, [← .inner .unary])) :=
    .bind (.inner _) fun _ => .pure _
  refine .bind (atWord_stops _) fun _ => .ite (.node (.bind (.word _) fun _ => ?_)) ?_
  · exact .bind (.inner _) fun _ => .pure _
  · exact .extend false (EndsAt.not_holds fun _ => isSymbol_of_isStop (by decide)) primaryExpr_stops
      (.bind (.symbol _) fun _ => operand)

theorem unaryExpr_stops : StopsHere unaryExpr := by
  refine .bind (atOneOf_stops (by decide)) fun _ => .ite (.node ?_) power_stops
  exact .bind (.symbolIn _) fun _ => .bind (.inner _) fun _ => .pure _

theorem binaryExpr_stops : StopsHere binaryExpr := by
  have chain {ops : List String} (h : ∀ s ∈ ops, s ∉ stopSymbols) {operand : Rule Expr}
      (ho : StopsHere operand) : StopsHere (leftChain .binary (isOneOf ops) operand) :=
    leftChain_stops (fun _ => isOneOf_of_isStop h) ho
  exact chain (by decide) <| chain (by decide) <| chain (by decide) <| chain (by decide) <|
    chain (by decide) <| chain (by decide) unaryExpr_stops

theorem comparisonOperator_stops : StopsHere comparisonOperator := by
  refine .bind (takeWord_stops _) fun _ => .ite (.pure _) ?_
  refine .bind (takeWord_stops _) fun _ => .ite (.word _) ?_
  exact .bind (takeWord_stops _) fun _ => .ite (.discard (takeWord_stops _)) (.discard (.take _))

theorem comparisonExpr_stops : StopsHere comparisonExpr := by
  refine .bind (.withText (.bind binaryExpr_stops fun _ => .bind ?_ fun _ => .pure _)) ?_
  · exact .many false (EndsAt.not_holds fun _ => startsComparison_of_isStop)
      (.bind comparisonOperator_stops fun _ => binaryExpr_stops)
  · exact fun _ => .ite (.pure _) (.pure _)

theorem negationExpr_stops : StopsHere negationExpr := by
  refine .bind (atWord_stops _) fun _ => .ite (.node ?_) comparisonExpr_stops
  exact .bind (.word _) fun _ => .bind (.inner _) fun _ => .pure _

theorem disjunctionExpr_stops : StopsHere disjunctionExpr :=
  leftChain_stops (fun _ => isWord_of_isStop _)
    (leftChain_stops (fun _ => isWord_of_isStop _) negationExpr_stops)

theorem plainExpr_stops : StopsHere plainExpr := by
  refine .bind (atWord_stops _) fun _ => .ite lambdaExpr_stops (.bind (.withText ?_) ?_)
  · refine .bind disjunctionExpr_stops fun e => .bind (takeWord_stops _) fun _ => .ite ?_ (.ite ?_ ?_)
    · exact .bind (.inner _) fun _ => .bind (.word _) fun _ => .bind (.inner _) fun _ => .pure _
    · exact .bind (takeSymbol_stops (by decide)) fun _ =>
        .ite (.bind (.inner _) fun _ => .pure _) (.pure _)
    · exact .pure _
  · exact fun _ => .ite (.pure _) (.pure _)

theorem fullExpr_stops : StopsHere fullExpr :=
  .extend false (EndsAt.not_holds fun _ => isWord_of_isStop _) plainExpr_stops
    (.bind (.word _) fun _ => .bind (.inner _) fun _ => .pure _)

/-- Every rule for an expression reads alike before whatever no expression goes on with. -/
theorem ruleOf_stops (e : Entry) : StopsHere (ruleOf e) := by
  cases e with
  | full => exact fullExpr_stops
  | disjunction => exact disjunctionExpr_stops
  | negation => exact negationExpr_stops
  | unary => exact unaryExpr_stops

/-! ## Expressions -/

/-- The readers of the expressions inside one, which has fewer characters than `n`. -/
abbrev innerOf (n : Nat) (e : Entry) (us : List Token) : Option (Expr × List Token) :=
  if weight us < n then expression e us else none

/-- An expression is read by its rule, and its text is what was taken for it. -/
theorem expression_eq_some {e : Entry} {ts rest : List Token} {found : Expr} :
    expression e ts = some (found, rest) ↔
      ∃ inside, (ruleOf e).run (innerOf (weight ts)) ts = some (inside, rest) ∧
        found = .node inside.kind (textSince ts rest) inside.parts := by
  rw [expression]
  simp only [run]
  constructor
  · intro h
    split at h
    · next text inside rest' hrun =>
      split at hrun
      · next inside' mid hmid =>
        simp only [Option.some.injEq, Prod.mk.injEq] at h hrun
        obtain ⟨⟨rfl, rfl⟩, rfl⟩ := hrun
        obtain ⟨rfl, rfl⟩ := h
        exact ⟨_, hmid, rfl⟩
      · simp at hrun
    · simp at h
  · rintro ⟨inside, hrun, rfl⟩
    rw [hrun]

theorem expression_consumes (e : Entry) : Consumes (expression e) := by
  have h : ∀ n e ts found rest, weight ts ≤ n → expression e ts = some (found, rest) → rest <:+ ts := by
    intro n
    induction n with
    | zero =>
      intro e ts found rest hn hrun
      obtain ⟨inside, hrun, -⟩ := expression_eq_some.1 hrun
      refine run_consumes (fun e us a rest h => ?_) (ruleOf e) hrun
      have : ¬ weight us < weight ts := by omega
      simp [innerOf, this] at h
    | succ n ih =>
      intro e ts found rest hn hrun
      obtain ⟨inside, hrun, -⟩ := expression_eq_some.1 hrun
      refine run_consumes (fun e us a rest h => ?_) (ruleOf e) hrun
      simp only [innerOf, Option.ite_none_right_eq_some] at h
      exact ih e us a rest (by omega) h.2
  exact fun ts found rest hrun => h (weight ts) e ts found rest (Nat.le_refl _) hrun

theorem innerOf_consumes (n : Nat) (e : Entry) : Consumes (innerOf n e) := by
  intro us a rest h
  simp only [innerOf, Option.ite_none_right_eq_some] at h
  exact expression_consumes e h.2

/-- An expression reads alike before whatever it cannot go on with. -/
theorem expression_alike {g g' : List Token} (hg : EndsAt isStop g) (hg' : EndsAt isStop g')
    (n : Nat) (e : Entry) : Alike (fun _ => True) n g g' (expression e) (expression e) := by
  intro us
  induction hw : weight us using Nat.strongRecOn generalizing us e with
  | _ w ih =>
    intro found rest hn _ hrun
    subst hw
    obtain ⟨inside, hinside, rfl⟩ := expression_eq_some.1 hrun
    have hin : Inners (weight us) g g' (innerOf (weight (us ++ g))) (innerOf (weight (us ++ g'))) := {
      consumes := innerOf_consumes _
      same := by
        intro e vs hvs
        have h : weight vs < weight (us ++ g) := by rw [weight_append]; omega
        have h' : weight vs < weight (us ++ g') := by rw [weight_append]; omega
        simp only [innerOf, h, h', if_true]
      alike := by
        intro e vs a rest hvs _ h
        simp only [innerOf, weight_append, Option.ite_none_right_eq_some,
          Nat.add_lt_add_iff_right] at h ⊢
        exact ⟨h.1, ih (weight vs) h.1 e rfl (by omega) trivial h.2⟩
      left := noLoop_of_endsAt hg
      right := noLoop_of_endsAt hg' }
    refine expression_eq_some.2 ⟨inside, ?_, by rw [textSince_append, textSince_append]⟩
    exact ruleOf_stops e hg hg' hin (Nat.le_refl _) trivial hinside

/-- The readers of expressions, before what no expression goes on with. -/
theorem inners_expression {g g' : List Token} (hg : EndsAt isStop g) (hg' : EndsAt isStop g')
    (n : Nat) : Inners n g g' expression expression where
  consumes := expression_consumes
  same := fun _ _ _ => rfl
  alike := expression_alike hg hg' n
  left := noLoop_of_endsAt hg
  right := noLoop_of_endsAt hg'

/-- No expression looks at the gap before its first token. -/
theorem expression_gapFree (e : Entry) : GapFree (expression e) := by
  intro t ts
  induction hw : weight (t :: ts) using Nat.strongRecOn generalizing t ts e with
  | _ w ih =>
    intro found rest gap hrun
    subst hw
    obtain ⟨inside, hinside, rfl⟩ := expression_eq_some.1 hrun
    have hinner : ∀ e, GapFree (innerOf (weight (t :: ts)) e) := by
      intro e u us a rest gap h
      simp only [innerOf, Option.ite_none_right_eq_some] at h
      have h' : weight (u.behind gap :: us) < weight (t :: ts) := h.1
      simp only [innerOf, if_pos h']
      exact ih _ h.1 e rfl gap h.2
    have hweight : weight (t.behind gap :: ts) = weight (t :: ts) := rfl
    rcases run_gapFree (innerOf_consumes _) hinner (ruleOf e) gap hinside with
      ⟨rfl, hrun'⟩ | ⟨hts, hrun'⟩
    · refine .inl ⟨rfl, expression_eq_some.2 ⟨inside, by rw [hweight, hrun'], ?_⟩⟩
      rw [textSince_self, textSince_self]
    · refine .inr ⟨hts, expression_eq_some.2 ⟨inside, by rw [hweight, hrun'], ?_⟩⟩
      rw [textSince_behind gap hts]

theorem Rule.read_gapFree {α : Type} (r : Rule α) : GapFree r.read :=
  run_gapFree expression_consumes expression_gapFree r

theorem Rule.read_consumes {α : Type} (r : Rule α) : Consumes r.read :=
  run_consumes expression_consumes r

/-- What a rule reads before `g` it reads before `g'`, if it stops at both. -/
theorem Rule.Stops.read {α : Type} {E : List Token → Prop} {r : Rule α} (hr : Stops E r)
    (hE : ∀ g, E g → EndsAt isStop g) {us rest g g' : List Token} {a : α} (hg : E g) (hg' : E g')
    (h : r.read (us ++ g) = some (a, rest ++ g)) : r.read (us ++ g') = some (a, rest ++ g') :=
  hr hg hg' (inners_expression (hE g hg) (hE g' hg') (weight us)) (Nat.le_refl _) trivial h

end TypedStubs.Syntax
