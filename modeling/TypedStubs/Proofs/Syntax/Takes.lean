import TypedStubs.Proofs.Syntax.Path

/-! # What rules take

A rule finds its way through tokens: `TakesTo inner r ts g` says that `r` reads something off `ts` and leaves `g`.
Rules are put together, and so is what they take.  Where nothing goes on with an operand, every layer of an
expression takes what the layer below it takes (`run_fullExpr`).
-/
namespace TypedStubs.Syntax

open Rule

variable {α β : Type} {inner : Entry → Reader Expr} {ts mid g : List Token} {e : Expr}

/-! ## What rules take -/

/-- A rule reads something off `ts` and leaves `g`. -/
def TakesTo (inner : Entry → Reader Expr) (r : Rule α) (ts g : List Token) : Prop :=
  ∃ a, r.run inner ts = some (a, g)

namespace TakesTo

theorem pure (a : α) (ts : List Token) : TakesTo inner (Pure.pure a : Rule α) ts ts := ⟨a, rfl⟩

theorem bind {first : Rule α} {next : α → Rule β} (h : TakesTo inner first ts mid)
    (hnext : ∀ a, TakesTo inner (next a) mid g) : TakesTo inner (first >>= next) ts g := by
  obtain ⟨a, ha⟩ := h
  obtain ⟨b, hb⟩ := hnext a
  exact ⟨b, run_bind_eq_some.2 ⟨a, mid, ha, hb⟩⟩

/-- What is done with a known answer. -/
theorem answered {first : Rule α} {next : α → Rule β} {a : α} (h : first.run inner ts = some (a, mid))
    (hnext : TakesTo inner (next a) mid g) : TakesTo inner (first >>= next) ts g := by
  obtain ⟨b, hb⟩ := hnext
  exact ⟨b, run_bind_eq_some.2 ⟨a, mid, h, hb⟩⟩

theorem discard {r : Rule α} (h : TakesTo inner r ts g) : TakesTo inner (discard r) ts g :=
  bind h fun _ => pure _ _

theorem withText {r : Rule α} (h : TakesTo inner r ts g) : TakesTo inner (.withText r) ts g := by
  obtain ⟨a, ha⟩ := h
  exact ⟨_, run_withText_eq_some.2 ⟨ha, rfl⟩⟩

theorem node {kind : ExprKind} {parts : Rule (List Expr)} (h : TakesTo inner parts ts g) :
    TakesTo inner (node kind parts) ts g :=
  bind (withText h) fun _ => pure _ _

theorem take {p : Lexeme → Bool} {t : Token} (h : p t.toLexeme = true) (ts : List Token) :
    TakesTo inner (.take p) (t :: ts) ts := ⟨_, run_take_eq_some.2 ⟨t, rfl, rfl, h⟩⟩

theorem symbol (s : String) (gap : List Char) (ts : List Token) :
    TakesTo inner (symbol s) (sign s gap :: ts) ts := discard (take (by simp) ts)

end TakesTo

/-- A question is answered by the tokens ahead. -/
theorem run_ahead {q : Ahead} {b : Bool} (h : q.holds ts = b) : (Rule.ahead q).run inner ts = some (b, ts) :=
  h ▸ rfl

theorem run_atToken {p : Lexeme → Bool} {b : Bool} (h : (Ahead.token p).holds ts = b) :
    (atToken p).run inner ts = some (b, ts) := run_ahead h

/-- A symbol that is not next is not taken. -/
theorem run_takeSymbol_not {s : String} (h : (Ahead.token (·.isSymbol s)).holds ts = false) :
    (takeSymbol s).run inner ts = some (false, ts) := run_bind_eq_some.2 ⟨_, _, run_atToken h, rfl⟩

theorem run_takeWord_not {w : String} (h : (Ahead.token (·.isWord w)).holds ts = false) :
    (takeWord w).run inner ts = some (false, ts) := run_bind_eq_some.2 ⟨_, _, run_atToken h, rfl⟩

theorem run_takeSymbol_sign (s : String) (gap : List Char) (ts : List Token) :
    (takeSymbol s).run inner (sign s gap :: ts) = some (true, ts) := by
  have hat : (Ahead.token (·.isSymbol s)).holds (sign s gap :: ts) = true := by simp [Ahead.holds]
  obtain ⟨u, hu⟩ : TakesTo inner (symbol s) (sign s gap :: ts) ts := .symbol s gap ts
  exact run_bind_eq_some.2 ⟨_, _, run_atToken hat, run_bind_eq_some.2 ⟨u, _, hu, rfl⟩⟩

/-- Nothing is read when the tokens ahead do not ask for it. -/
theorem run_many_stop {go : Ahead} (hgo : go.holds ts = false) (r : Rule α) :
    (Rule.many go r).run inner ts = some ([], ts) := by
  rw [run, manyFrom, if_neg (by simp [hgo])]

theorem TakesTo.many_cons {go : Ahead} {r : Rule α} (hgo : go.holds ts = true) (h : TakesTo inner r ts mid)
    (hlt : mid.length < ts.length) (hmore : TakesTo inner (.many go r) mid g) :
    TakesTo inner (.many go r) ts g := by
  obtain ⟨a, ha⟩ := h
  obtain ⟨as, has⟩ := hmore
  refine ⟨a :: as, ?_⟩
  simp only [run] at has ⊢
  rw [manyFrom, if_pos hgo, ha]
  simp only [if_pos hlt, has]

/-! ### Expressions that go on -/

/-- Whatever was read goes on through `ts` and leaves `g`. -/
def Continues (inner : Entry → Reader Expr) (go : Ahead) (step : Rule (ExprKind × List Expr))
    (ts g : List Token) : Prop :=
  ∀ start e, ∃ e', Rule.extendFrom start go (step.run inner) e ts = some (e', g)

variable {go : Ahead} {step : Rule (ExprKind × List Expr)}

theorem Continues.stop (hgo : go.holds g = false) : Continues inner go step g g :=
  fun start e => ⟨e, by rw [Rule.extendFrom, if_neg (by simp [hgo])]⟩

theorem Continues.cons (hgo : go.holds ts = true) (h : TakesTo inner step ts mid)
    (hlt : mid.length < ts.length) (hmore : Continues inner go step mid g) :
    Continues inner go step ts g := by
  obtain ⟨⟨kind, parts⟩, hstep⟩ := h
  intro start e
  obtain ⟨e', he'⟩ := hmore start (.node kind (textSince start mid) (e :: parts))
  refine ⟨e', ?_⟩
  rw [Rule.extendFrom, if_pos hgo, hstep]
  simp only [if_pos hlt, he']

theorem TakesTo.extend {first : Rule Expr} (h : TakesTo inner first ts mid)
    (hmore : Continues inner go step mid g) : TakesTo inner (.extend first go step) ts g := by
  obtain ⟨e, he⟩ := h
  obtain ⟨e', he'⟩ := hmore ts e
  refine ⟨e', ?_⟩
  simp only [run, he, he']

/-- What does not go on is handed on as it is. -/
theorem run_extend_stop {first : Rule Expr} (h : first.run inner ts = some (e, g))
    (hgo : go.holds g = false) : (Rule.extend first go step).run inner ts = some (e, g) := by
  simp only [run, h]
  rw [Rule.extendFrom, if_neg (by simp [hgo])]

/-! ## The layers above an operand -/

/-- Whether a lexeme is a comment or one of the given symbols. -/
def isEnd (ends : List String) (l : Lexeme) : Bool := l.isComment || isOneOf ends l

/-- The symbols that an item in brackets ends at. -/
def itemEnds : List String := [",", "]"]

/-- The symbols that nothing in a hint goes on with. -/
def hintEnds : List String := "]" :: stopSymbols

/-- The symbols that no member of a union goes on with. -/
def memberEnds : List String := "|" :: hintEnds

theorem isEnd_mono {ends more : List String} (h : ∀ s ∈ ends, s ∈ more) {l : Lexeme} (hl : isEnd ends l = true) :
    isEnd more l = true := by
  simp only [isEnd, isOneOf, Bool.or_eq_true, Bool.and_eq_true, List.contains_iff_mem] at hl ⊢
  exact hl.imp_right fun hsymbol => ⟨hsymbol.1, h _ hsymbol.2⟩

theorem not_isOneOf_of_isEnd {ends ss : List String} (hs : ∀ s ∈ ss, s ∉ ends) {l : Lexeme}
    (h : isEnd ends l = true) : isOneOf ss l = false := by
  refine Bool.eq_false_iff.2 fun hl => ?_
  simp only [isEnd, Lexeme.isComment, isOneOf, Bool.or_eq_true, Bool.and_eq_true, beq_iff_eq,
    List.contains_iff_mem] at h hl
  rcases h with hc | ⟨-, hmem⟩
  · cases hl.1.symm.trans hc
  · exact hs _ hl.2 hmem

theorem not_isWord_of_isEnd {ends : List String} (w : String) {l : Lexeme} (h : isEnd ends l = true) :
    l.isWord w = false := by
  refine Bool.eq_false_iff.2 fun hl => ?_
  simp only [isEnd, Lexeme.isComment, Lexeme.isWord, isOneOf, Bool.or_eq_true, Bool.and_eq_true,
    beq_iff_eq] at h hl
  rcases h with hc | ⟨hc, -⟩ <;> cases hl.1.symm.trans hc

variable {ends : List String}

theorem not_oneOf (hg : EndsAt (isEnd ends) g) {ss : List String} (hs : ∀ s ∈ ss, s ∉ ends) :
    (Ahead.token (isOneOf ss)).holds g = false :=
  EndsAt.not_holds (fun _ => not_isOneOf_of_isEnd hs) g hg

theorem not_symbol (hg : EndsAt (isEnd ends) g) {s : String} (hs : s ∉ ends) :
    (Ahead.token (·.isSymbol s)).holds g = false := by
  refine EndsAt.not_holds (fun l hl => ?_) g hg
  have hone : isOneOf [s] l = false := not_isOneOf_of_isEnd (by simpa using hs) hl
  simpa [isOneOf, Lexeme.isSymbol] using hone

theorem not_word (hg : EndsAt (isEnd ends) g) (w : String) :
    (Ahead.token (·.isWord w)).holds g = false :=
  EndsAt.not_holds (fun _ => not_isWord_of_isEnd w) g hg

theorem not_clause (hg : EndsAt (isEnd ends) g) (conditions : Bool) :
    (Ahead.clause conditions).holds g = false := by
  cases g with
  | nil => rfl
  | cons t g =>
    have hword : ∀ w, t.isWord w = false := fun w => not_isWord_of_isEnd w (hg t rfl)
    simp [Ahead.holds, hword]

/-- What an operand between bars is read by. -/
def memberExpr : Rule Expr :=
  binaryOperators.tail.foldr (fun ops operand => leftChain .binary (isOneOf ops) operand) unaryExpr

/-- Operators that are not next do not go on with an operand. -/
theorem run_leftChains {opss : List (List String)} {operand : Rule Expr}
    (h : operand.run inner ts = some (e, g))
    (hg : ∀ ops ∈ opss, (Ahead.token (isOneOf ops)).holds g = false) :
    (opss.foldr (fun ops operand => leftChain .binary (isOneOf ops) operand) operand).run inner ts =
      some (e, g) := by
  induction opss with
  | nil => exact h
  | cons ops opss ih =>
    exact run_extend_stop (ih fun more hmore => hg more (List.mem_cons_of_mem _ hmore))
      (hg ops List.mem_cons_self)

theorem run_memberExpr (h : unaryExpr.run inner ts = some (e, g)) (hg : EndsAt (isEnd memberEnds) g) :
    memberExpr.run inner ts = some (e, g) :=
  run_leftChains h fun ops hops => not_oneOf hg (by revert ops; decide)

theorem run_unaryExpr (h : primaryExpr.run inner ts = some (e, g)) (hg : EndsAt (isEnd memberEnds) g)
    (hsign : (Ahead.token (isOneOf ["-", "+", "~"])).holds ts = false)
    (hawait : (Ahead.token (·.isWord "await")).holds ts = false) : unaryExpr.run inner ts = some (e, g) := by
  refine run_bind_eq_some.2 ⟨_, _, run_atToken hsign, ?_⟩
  exact run_bind_eq_some.2 ⟨_, _, run_atToken hawait, run_extend_stop h (not_symbol hg (by decide))⟩

/-- **Every layer hands on what the layer of the binary operators reads.** -/
theorem run_fullExpr (h : binaryExpr.run inner ts = some (e, g)) (hg : EndsAt (isEnd hintEnds) g)
    (hnot : (Ahead.token (·.isWord "not")).holds ts = false)
    (hlambda : (Ahead.token (·.isWord "lambda")).holds ts = false) :
    fullExpr.run inner ts = some (e, g) := by
  have hcomparison : comparisonExpr.run inner ts = some (e, g) := by
    have hstarts : (Ahead.token startsComparison).holds g = false := by
      refine EndsAt.not_holds (fun l hl => ?_) g hg
      have hone : isOneOf ["<", "<=", "==", "!=", ">=", ">", "<>"] l = false :=
        not_isOneOf_of_isEnd (by decide) hl
      simp [startsComparison, not_isWord_of_isEnd _ hl, hone]
    refine run_bind_eq_some.2 ⟨(_, e, []), g, run_withText_eq_some.2 ⟨?_, rfl⟩, rfl⟩
    exact run_bind_eq_some.2 ⟨e, g, h, run_bind_eq_some.2 ⟨_, _, run_many_stop hstarts _, rfl⟩⟩
  have hnegation : negationExpr.run inner ts = some (e, g) :=
    run_bind_eq_some.2 ⟨_, _, run_atToken hnot, hcomparison⟩
  have hdisjunction : disjunctionExpr.run inner ts = some (e, g) :=
    run_extend_stop (run_extend_stop hnegation (not_word hg "and")) (not_word hg "or")
  have hplain : plainExpr.run inner ts = some (e, g) := by
    have hif : (takeWord "if").run inner g = some (false, g) := run_takeWord_not (not_word hg "if")
    have hgiven : (takeSymbol ":=").run inner g = some (false, g) :=
      run_takeSymbol_not (not_symbol hg (by decide))
    refine run_bind_eq_some.2 ⟨_, _, run_atToken hlambda, ?_⟩
    refine run_bind_eq_some.2 ⟨(_, e, e.kind, []), g, run_withText_eq_some.2 ⟨?_, rfl⟩, rfl⟩
    refine run_bind_eq_some.2 ⟨e, g, hdisjunction, run_bind_eq_some.2 ⟨_, _, hif, ?_⟩⟩
    cases hname : e.isName with
    | false =>
      simp only [Bool.false_eq_true, if_false]
      rfl
    | true =>
      simp only [if_true, Bool.false_eq_true, if_false]
      exact run_bind_eq_some.2 ⟨_, _, hgiven, rfl⟩
  exact run_extend_stop hplain (not_word hg "as")

end TypedStubs.Syntax
