import TypedStubs.Proofs.Syntax.SimpleStatement
import TypedStubs.Syntax.Block

/-! # No statement of its own ends with a colon

The word `match` may start a statement with cases or be a name.  A head of cases ends with a colon,
and no expression or assignment does (`expressionStatement_ends`), so no line is both
(`simpleStatements_of_matchHead`).  `Ends` says that the last token a rule takes is no colon; `Solid`
says besides that it takes one.
-/
namespace TypedStubs.Syntax

open Rule

variable {α β : Type}

/-- Tokens whose last one, if there is one, is no colon. -/
def NoColon (taken : List Token) : Prop :=
  ∀ t, taken.getLast? = some t → t.isSymbol ":" = false

theorem NoColon.nil : NoColon [] := fun t ht => by simp at ht

theorem NoColon.append {ts us : List Token} (h : us = [] → NoColon ts) (h' : NoColon us) :
    NoColon (ts ++ us) := by
  intro t ht
  rw [List.getLast?_append] at ht
  cases hus : us.getLast? with
  | none =>
    rw [hus, Option.none_or] at ht
    exact h (List.getLast?_eq_none_iff.1 hus) t ht
  | some u =>
    rw [hus, Option.some_or] at ht
    exact h' t (hus.trans ht)

/-- A reader takes tokens off the front whose last one is no colon; at least one of them if `must`. -/
def EndsAs (must : Bool) (f : Reader α) : Prop :=
  ∀ ⦃ts x rest⦄, f ts = some (x, rest) →
    ∃ taken, ts = taken ++ rest ∧ NoColon taken ∧ (must = true → taken ≠ [])

theorem EndsAs.consumes {must : Bool} {f : Reader α} (h : EndsAs must f) : Consumes f := by
  intro ts x rest hrun
  obtain ⟨taken, rfl, -⟩ := h hrun
  exact List.suffix_append _ _

namespace Rule

/-- The last token a rule takes is no colon; it takes one if `must`. -/
def EndsIn (must : Bool) (r : Rule α) : Prop :=
  ∀ ⦃inner⦄, (∀ e, EndsAs true (inner e)) → EndsAs must (r.run inner)

/-- The last token a rule takes, if it takes one, is no colon. -/
abbrev Ends (r : Rule α) : Prop := EndsIn false r

/-- A rule takes tokens, the last of which is no colon. -/
abbrev Solid (r : Rule α) : Prop := EndsIn true r

namespace EndsIn

variable {must : Bool}

theorem weaken {r : Rule α} (h : Solid r) : EndsIn must r := by
  intro inner hin ts x rest hrun
  obtain ⟨taken, hts, hcolon, hne⟩ := h hin hrun
  exact ⟨taken, hts, hcolon, fun _ => hne rfl⟩

theorem pure (x : α) : Ends (Pure.pure x : Rule α) := by
  intro inner hin ts y rest h
  simp only [Pure.pure, run, Option.some.injEq, Prod.mk.injEq] at h
  exact ⟨[], h.2 ▸ rfl, .nil, fun hm => by cases hm⟩

theorem fail : EndsIn must (Rule.fail : Rule α) := by
  intro inner hin ts x rest h
  simp [run] at h

theorem ahead (q : Ahead) : Ends (.ahead q) := by
  intro inner hin ts y rest h
  simp only [run, Option.some.injEq, Prod.mk.injEq] at h
  exact ⟨[], h.2 ▸ rfl, .nil, fun hm => by cases hm⟩

theorem take {p : Lexeme → Bool} (h : ∀ l, p l = true → l.isSymbol ":" = false) :
    EndsIn must (.take p) := by
  intro inner hin ts l rest hrun
  cases ts with
  | nil => simp [run] at hrun
  | cons t ts =>
    simp only [run, Option.ite_none_right_eq_some, Option.some.injEq, Prod.mk.injEq] at hrun
    obtain ⟨hp, rfl, rfl⟩ := hrun
    refine ⟨[t], rfl, fun u hu => ?_, fun _ => List.cons_ne_nil _ _⟩
    obtain rfl : t = u := by simpa using hu
    exact h _ hp

theorem inner (e : Entry) : EndsIn must (.inner e) := by
  refine weaken ?_
  intro inner hin ts x rest h
  exact hin e h

/-- A rule behind any other one, if it takes something itself. -/
theorem bind {first : Rule α} {next : α → Rule β} (hn : ∀ x, Solid (next x)) :
    EndsIn must (first >>= next) := by
  intro inner hin ts y rest h
  simp only [Bind.bind, run_bind] at h
  split at h
  · next x mid hmid =>
    obtain ⟨taken, rfl⟩ := run_consumes (fun e => (hin e).consumes) first hmid
    obtain ⟨taken', rfl, hcolon, hne⟩ := hn x hin h
    refine ⟨taken ++ taken', by simp, .append (fun hnil => absurd hnil (hne rfl)) hcolon, fun _ => ?_⟩
    exact fun hnil => hne rfl (List.append_eq_nil_iff.1 hnil).2
  · simp at h

/-- A rule that may take nothing behind another one. -/
theorem bind_left {first : Rule α} {next : α → Rule β} (hf : EndsIn must first)
    (hn : ∀ x, Ends (next x)) : EndsIn must (first >>= next) := by
  intro inner hin ts y rest h
  simp only [Bind.bind, run_bind] at h
  split at h
  · next x mid hmid =>
    obtain ⟨taken, rfl, hcolon, hne⟩ := hf hin hmid
    obtain ⟨taken', rfl, hcolon', -⟩ := hn x hin h
    refine ⟨taken ++ taken', by simp, .append (fun _ => hcolon) hcolon', fun hm => ?_⟩
    exact fun hnil => hne hm (List.append_eq_nil_iff.1 hnil).1
  · simp at h

theorem ite {p : Bool} {yes no : Rule α} (hy : EndsIn must yes) (hn : EndsIn must no) :
    EndsIn must (if p then yes else no) := by
  cases p
  · exact hn
  · exact hy

theorem discard {r : Rule α} (h : EndsIn must r) : EndsIn must (discard r) :=
  bind_left h fun _ => pure _

theorem many {go : Ahead} {r : Rule α} (h : Ends r) : Ends (.many go r) := by
  intro inner hin ts xs rest hrun
  simp only [run] at hrun
  fun_induction manyFrom go (r.run inner) ts generalizing xs rest with
  | case1 ts _ x mid hmid hlt more after hmore ih =>
    obtain ⟨-, rfl⟩ := Prod.mk.inj (Option.some.inj hrun)
    obtain ⟨taken, rfl, hcolon, -⟩ := h hin hmid
    obtain ⟨taken', rfl, hcolon', -⟩ := ih hmore
    exact ⟨taken ++ taken', by simp, .append (fun _ => hcolon) hcolon', fun hm => by cases hm⟩
  | case5 ts _ =>
    obtain ⟨-, rfl⟩ := Prod.mk.inj (Option.some.inj hrun)
    exact ⟨[], rfl, .nil, fun hm => by cases hm⟩
  | _ => simp at hrun

theorem withText {r : Rule α} (h : EndsIn must r) : EndsIn must (.withText r) := by
  intro inner hin ts x rest hrun
  simp only [run] at hrun
  split at hrun
  · next y mid hmid =>
    obtain ⟨-, rfl⟩ := Prod.mk.inj (Option.some.inj hrun)
    exact h hin hmid
  · simp at hrun

theorem extendFrom_endsAs {start : List Token} {go : Ahead} {f : Reader (ExprKind × List Expr)}
    (h : EndsAs false f) (e : Expr) : EndsAs false (extendFrom start go f e) := by
  intro ts x rest hrun
  fun_induction extendFrom start go f e ts with
  | case1 e ts _ kind parts mid hmid hlt ih =>
    obtain ⟨taken, rfl, hcolon, -⟩ := h hmid
    obtain ⟨taken', rfl, hcolon', -⟩ := ih hrun
    exact ⟨taken ++ taken', by simp, .append (fun _ => hcolon) hcolon', fun hm => by cases hm⟩
  | case4 e ts _ =>
    obtain ⟨-, rfl⟩ := Prod.mk.inj (Option.some.inj hrun)
    exact ⟨[], rfl, .nil, fun hm => by cases hm⟩
  | _ => simp at hrun

theorem extend {first : Rule Expr} {go : Ahead} {step : Rule (ExprKind × List Expr)}
    (hf : Solid first) (hs : Ends step) : EndsIn must (.extend first go step) := by
  intro inner hin ts x rest hrun
  simp only [run] at hrun
  split at hrun
  · next e mid hmid =>
    obtain ⟨taken, rfl, hcolon, hne⟩ := hf hin hmid
    obtain ⟨taken', rfl, hcolon', -⟩ := extendFrom_endsAs (hs hin) e hrun
    refine ⟨taken ++ taken', by simp, .append (fun _ => hcolon) hcolon', fun _ => ?_⟩
    exact fun hnil => hne rfl (List.append_eq_nil_iff.1 hnil).1
  · simp at hrun

theorem string (r : Rule α) : EndsIn must (.string r) := by
  intro inner hin ts x rest hrun
  cases ts with
  | nil => simp [run] at hrun
  | cons t ts =>
    simp only [run] at hrun
    split at hrun
    · next sources hkind =>
      simp only [Option.map_eq_some_iff, Prod.mk.injEq] at hrun
      obtain ⟨as, -, -, rfl⟩ := hrun
      refine ⟨[t], rfl, fun u hu => ?_, fun _ => List.cons_ne_nil _ _⟩
      obtain rfl : t = u := by simpa using hu
      simp [Lexeme.isSymbol, hkind]
    · simp at hrun

theorem node {kind : ExprKind} {parts : Rule (List Expr)} (h : EndsIn must parts) :
    EndsIn must (node kind parts) := bind_left (withText h) fun _ => pure _

theorem symbol {s : String} (h : s ≠ ":") : EndsIn must (symbol s) := by
  refine discard (take fun l hl => ?_)
  simp only [Lexeme.isSymbol, Bool.and_eq_true, beq_iff_eq] at hl
  simp [Lexeme.isSymbol, hl.1, hl.2, h]

theorem takeKind {p : Lexeme → Bool} (h : ∀ l, p l = true → l.kind ≠ .symbol) :
    EndsIn must (.take p) := take fun l hl => by simp [Lexeme.isSymbol, h l hl]

theorem word (w : String) : EndsIn must (word w) := by
  refine discard (takeKind fun l hl => ?_)
  simp only [Lexeme.isWord, Bool.and_eq_true, beq_iff_eq] at hl
  simp [hl.1]

theorem anyWord : EndsIn must anyWord := by
  refine bind_left (takeKind fun l hl => ?_) fun _ => pure _
  simp_all

theorem require (p : Bool) : Ends (require p) := ite (pure _) fail

theorem takeSymbol {s : String} (h : s ≠ ":") : Ends (takeSymbol s) :=
  bind_left (ahead _) fun _ => ite (bind_left (symbol h) fun _ => pure _) (pure _)

theorem takeWord (w : String) : Ends (takeWord w) :=
  bind_left (ahead _) fun _ => ite (bind_left (word w) fun _ => pure _) (pure _)

theorem maybe {test : Rule Bool} {r : Rule α} (ht : Ends test) (hr : Ends r) : Ends (maybe test r) :=
  bind_left ht fun _ => ite (bind_left hr fun _ => pure _) (pure _)

/-- What is done after a symbol that may be next, and what is done without it. -/
theorem ifTaken {s : String} {yes no : Rule β}
    (hyes : EndsIn must (Rule.symbol s >>= fun _ => yes)) (hno : EndsIn must no) :
    EndsIn must (Rule.takeSymbol s >>= fun found => if found then yes else no) := by
  have h : EndsIn must (Rule.atSymbol s >>= fun found =>
      if found then Rule.symbol s >>= fun _ => yes else no) := by
    intro inner hin ts x rest hrun
    simp only [atSymbol, atToken, Bind.bind, run_bind, run] at hrun
    exact ite hyes hno hin hrun
  intro inner hin ts x rest hrun
  rw [run_takeSymbol] at hrun
  exact h hin hrun

theorem ifSymbol {s : String} {yes no : Rule β} (hs : s ≠ ":") (hyes : Ends yes)
    (hno : EndsIn must no) :
    EndsIn must (Rule.takeSymbol s >>= fun found => if found then yes else no) :=
  ifTaken (bind_left (symbol hs) fun _ => hyes) hno

/-- What is done after a colon takes something. -/
theorem ifColon {yes no : Rule β} (hyes : Solid yes) (hno : EndsIn must no) :
    EndsIn must (Rule.takeSymbol ":" >>= fun found => if found then yes else no) :=
  ifTaken (bind fun _ => hyes) hno

theorem commaListTo {ended : Rule Bool} {p : Rule α} (he : Ends ended) (hp : Solid p) :
    EndsIn must (commaListTo ended p) := by
  refine bind_left hp.weaken fun _ => bind_left (many ?_) fun _ => pure _
  refine bind_left (symbol (by decide)) fun _ => bind_left he fun _ => ite (pure _) ?_
  exact bind_left hp.weaken fun _ => pure _

theorem commaListUpTo {closer : String} (hc : closer ≠ ":") (p : Rule α) :
    EndsIn must (commaListUpTo closer p) :=
  ifSymbol hc (pure _) (bind fun _ => bind_left (symbol hc) fun _ => pure _)

theorem commaList {p : Rule α} (hp : Solid p) : EndsIn must (commaList p) :=
  commaListTo (bind_left (ahead _) fun _ => pure _) hp

end EndsIn

/-! ## The rules of the grammar -/

variable {must : Bool}

theorem leftChain_solid {kind : ExprKind} {isOperator : Lexeme → Bool} {operand : Rule Expr}
    (h : Solid operand) : EndsIn must (leftChain kind isOperator operand) :=
  .extend h (.bind fun _ => .bind_left h fun _ => .pure _)

theorem splat_solid {kind : ExprKind} {sign : String} {operand : Rule Expr} (h : Solid operand) :
    EndsIn must (splat kind sign operand) := .node (.bind fun _ => .bind_left h fun _ => .pure _)

theorem yieldExpr_solid : EndsIn must yieldExpr := by
  refine .node (.bind_left (.word _) fun _ => .bind_left (.takeWord _) fun _ => .ite ?_ ?_)
  · exact .bind_left (.inner _) fun _ => .pure _
  · refine .bind_left (.ahead _) fun _ => .ite (.bind_left ?_ fun _ => .pure _) (.pure _)
    exact .commaList (.inner _)

theorem lambdaExpr_solid : EndsIn must lambdaExpr := by
  have body : Solid (do symbol ":"; return [← .inner .full] : Rule (List Expr)) :=
    .bind fun _ => .bind_left (.inner _) fun _ => .pure _
  exact .node (.bind fun _ => .bind fun _ => .ite (.bind fun _ => body) body)

theorem stringsExpr_solid : EndsIn must stringsExpr := by
  have one : Solid stringExpr := .bind_left (.string _) fun _ => .pure _
  refine .bind_left (.withText (.bind_left one.weaken fun _ => ?_)) fun _ => .ite (.pure _) (.pure _)
  exact .bind_left (.many one.weaken) fun _ => .pure _

theorem contents_solid {closing : String} (hc : closing ≠ ":")
    (comprehension several only : ExprKind) :
    EndsIn must (contents closing comprehension several only) := by
  have one : ∀ x : ExprKind × List Expr, Solid (do symbol closing; return x) :=
    fun x => .bind_left (.symbol hc) fun _ => .pure _
  refine .bind fun first => .bind fun _ => .ite (.bind fun _ => one _) (.bind fun _ => .ite ?_ ?_)
  · exact .bind_left (.commaListUpTo hc _) fun _ => .pure _
  · exact one _

theorem parenthesized_solid : EndsIn must parenthesized := by
  refine .bind_left (.withText (.bind fun _ => ?_)) fun _ => .pure _
  exact .ifSymbol (by decide) (.pure _) (contents_solid (by decide) _ _ _)

theorem bracketed_solid : EndsIn must bracketed := by
  refine .bind_left (.withText (.bind fun _ => ?_)) fun _ => .pure _
  exact .ifSymbol (by decide) (.pure _) (contents_solid (by decide) _ _ _)

theorem braced_solid : EndsIn must braced := by
  refine .bind_left (.withText (.bind fun _ => ?_)) fun _ => .pure _
  have one : ∀ x : ExprKind × List Expr, Solid (do symbol braceClosing; return x) :=
    fun x => .bind_left (.symbol (by decide)) fun _ => .pure _
  have list : ∀ (p : Rule Expr) (f : List Expr → ExprKind × List Expr),
      Solid (do return f (← commaListUpTo braceClosing p)) :=
    fun p f => .bind_left (.commaListUpTo (by decide) p) fun _ => .pure _
  refine .ifSymbol (by decide) (.pure _) (.bind fun _ => .ite (list _ _) ?_)
  refine .bind fun first => .bind fun _ => .ite (.bind fun _ => one _) ?_
  exact .bind fun _ => .ite (list _ _) (one _)

theorem starred_solid : EndsIn must starred :=
  splat_solid (.bind_left (.inner _) fun _ => .bind_left (.require _) fun _ => .pure _)

theorem wordExpr_solid : EndsIn must wordExpr := by
  refine .bind_left (.takeKind fun l hl => ?_) fun _ => .pure _
  simp only [Bool.and_eq_true, beq_iff_eq] at hl
  simp [hl.1]

theorem number_solid {k : TokenKind} (hk : k ≠ .symbol) (kind : ExprKind) :
    EndsIn must (leaf kind (·.kind == k)) := by
  refine .bind_left (.takeKind fun l hl => ?_) fun _ => .pure _
  obtain rfl : l.kind = k := by simpa using hl
  exact hk

theorem dots_solid : EndsIn must (leaf .ellipsis (·.isSymbol "...")) := by
  refine .bind_left (.take fun l hl => ?_) fun _ => .pure _
  simp only [Lexeme.isSymbol, Bool.and_eq_true, beq_iff_eq] at hl
  simp [Lexeme.isSymbol, hl.2]

theorem atom_solid : EndsIn must atom := by
  refine .bind fun _ => .ite wordExpr_solid (.bind fun _ => .ite (number_solid (by decide) _) ?_)
  refine .bind fun _ => .ite (number_solid (by decide) _) (.bind fun _ => .ite stringsExpr_solid ?_)
  refine .bind fun _ => .ite parenthesized_solid (.bind fun _ => .ite bracketed_solid ?_)
  exact .bind fun _ => .ite braced_solid (.bind fun _ => .ite starred_solid dots_solid)

theorem callArguments_ends : Ends callArguments := by
  have one : ∀ x : List Expr, Solid (do symbol ")"; return x) :=
    fun x => .bind_left (.symbol (by decide)) fun _ => .pure _
  refine .ifSymbol (by decide) (.pure _) (.bind fun first => .bind fun _ => .ite ?_ ?_)
  · exact .bind fun _ => one _
  · refine .bind fun _ => .ite ?_ (one _)
    exact .bind_left (.commaListUpTo (by decide) _) fun _ => .pure _

theorem trailer_ends : Ends trailer := by
  refine .bind_left (.takeSymbol (by decide)) fun _ => .ite (.bind_left .anyWord fun _ => .pure _) ?_
  refine .ifSymbol (by decide) (.bind_left callArguments_ends fun _ => .pure _) ?_
  exact .bind fun _ => .bind fun _ => .bind_left (.symbol (by decide)) fun _ => .pure _

theorem power_solid : EndsIn must power := by
  refine .bind fun _ => .ite (.node (.bind fun _ => .bind_left (.inner _) fun _ => .pure _)) ?_
  refine .extend (.extend atom_solid trailer_ends) (.bind fun _ => ?_)
  exact .bind_left (.inner _) fun _ => .pure _

theorem unaryExpr_solid : EndsIn must unaryExpr := by
  refine .bind fun _ => .ite (.node (.bind fun _ => ?_)) power_solid
  exact .bind_left (.inner _) fun _ => .pure _

theorem binaryExpr_solid : EndsIn must binaryExpr :=
  leftChain_solid <| leftChain_solid <| leftChain_solid <| leftChain_solid <|
    leftChain_solid <| leftChain_solid unaryExpr_solid

theorem comparisonExpr_solid : EndsIn must comparisonExpr := by
  refine .bind_left (.withText (.bind_left binaryExpr_solid fun _ => ?_)) ?_
  · exact .bind_left (.many (.bind fun _ => binaryExpr_solid)) fun _ => .pure _
  · exact fun _ => .ite (.pure _) (.pure _)

theorem negationExpr_solid : EndsIn must negationExpr := by
  refine .bind fun _ => .ite (.node (.bind fun _ => ?_)) comparisonExpr_solid
  exact .bind_left (.inner _) fun _ => .pure _

theorem disjunctionExpr_solid : EndsIn must disjunctionExpr :=
  leftChain_solid (leftChain_solid negationExpr_solid)

theorem plainExpr_solid : EndsIn must plainExpr := by
  refine .bind fun _ => .ite lambdaExpr_solid (.bind_left (.withText ?_) ?_)
  · refine .bind_left disjunctionExpr_solid fun e => .bind_left (.takeWord _) fun _ =>
      .ite ?_ (.ite ?_ (.pure _))
    · exact .bind fun _ => .bind fun _ => .bind_left (.inner _) fun _ => .pure _
    · exact .bind_left (.takeSymbol (by decide)) fun _ =>
        .ite (.bind_left (.inner _) fun _ => .pure _) (.pure _)
  · exact fun _ => .ite (.pure _) (.pure _)

theorem fullExpr_solid : EndsIn must fullExpr :=
  .extend plainExpr_solid (.bind fun _ => .bind_left (.inner _) fun _ => .pure _)

theorem assignedValue_solid : EndsIn must assignedValue := by
  refine .bind fun _ => .ite yieldExpr_solid (.bind_left (.withText (.commaList (.inner _))) ?_)
  rintro ⟨text, items, comma⟩
  match items, comma with
  | [only], false => exact .pure _
  | [], _ | [_], true | _ :: _ :: _, _ => exact .pure _

theorem hintExpr_solid : EndsIn must hintExpr :=
  .bind fun _ => .ite (splat_solid (.inner _)) (.inner _)

/-- An assignment, or expressions for their effect, end with no colon. -/
theorem expressionStatement_solid : EndsIn must expressionStatement := by
  refine .bind_left assignedValue_solid fun first => .bind_left (.ahead _) fun _ => .ite ?_ ?_
  · refine .bind_left (.many (.bind fun _ => assignedValue_solid)) fun _ => ?_
    exact .bind_left (.require _) fun _ => .pure _
  refine .ifColon ?_ (.bind_left (.ahead _) fun _ => .ite ?_ ?_)
  · refine .bind fun _ => .bind_left hintExpr_solid fun _ => .bind_left ?_ fun _ => .pure _
    exact .maybe (.takeSymbol (by decide)) assignedValue_solid
  · exact .bind fun _ => .bind fun _ => .bind_left assignedValue_solid fun _ => .pure _
  · match first with
    | .node kind text parts =>
      cases kind <;> exact .pure _

end Rule

theorem ruleOf_solid (e : Entry) : Rule.Solid (ruleOf e) := by
  cases e with
  | full => exact fullExpr_solid
  | disjunction => exact disjunctionExpr_solid
  | negation => exact negationExpr_solid
  | unary => exact unaryExpr_solid

/-- Every expression takes tokens, the last of which is no colon. -/
theorem expression_solid (e : Entry) : EndsAs true (expression e) := by
  intro ts
  induction hw : weight ts using Nat.strongRecOn generalizing ts e with
  | _ w ih =>
    intro found rest hrun
    subst hw
    obtain ⟨inside, hinside, -⟩ := expression_eq_some.1 hrun
    refine ruleOf_solid e (fun e us a rest h => ?_) hinside
    simp only [innerOf, Option.ite_none_right_eq_some] at h
    exact ih _ h.1 e rfl h.2

theorem Rule.EndsIn.read {must : Bool} {r : Rule α} (h : Rule.EndsIn must r) : EndsAs must r.read :=
  h expression_solid

/-! ## Heads of cases -/

theorem matchHead_nets : Rule.Nets 0 0 matchHead := by
  refine .bind (.word _) fun _ => .bind (.commaListTo (.ahead _) (.inner _)) fun _ => ?_
  exact .bind (.symbol (by decide)) fun _ => .pure _

/-- A head of cases starts with the word `match` and ends with a colon. -/
theorem matchHead_shape {ts rest : List Token} {subjects : List Expr}
    (h : matchHead.read ts = some (subjects, rest)) :
    ∃ t taken colon, ts = t :: (taken ++ colon :: rest) ∧ t.isWord "match" = true ∧
      colon.isSymbol ":" = true := by
  obtain ⟨_, ts₁, hword, h⟩ := Rule.read_bind_eq_some.1 h
  obtain ⟨⟨items, comma⟩, ts₂, hitems, h⟩ := Rule.read_bind_eq_some.1 h
  obtain ⟨_, ts₃, hcolon, h⟩ := Rule.read_bind_eq_some.1 h
  obtain ⟨-, rfl⟩ := Prod.mk.inj (Option.some.inj h)
  obtain ⟨t, rfl, ht⟩ := Rule.read_word_eq_some.1 hword
  obtain ⟨colon, rfl, hc⟩ := Rule.read_symbol_eq_some.1 hcolon
  obtain ⟨taken, rfl⟩ := Rule.read_consumes _ hitems
  exact ⟨t, taken, colon, rfl, ht, hc⟩

/-- A statement that starts with the word `match` ends with no colon. -/
theorem simpleStatement_match {ts : List Token} {t colon : Token} {make : Extent → Stmt}
    (ht : t.isWord "match" = true) (hcolon : colon.isSymbol ":" = true)
    (h : simpleStatement (t :: (ts ++ [colon])) = some make) : False := by
  have hother : ∀ w ∈ statementWords, t.isWord w = false := by
    have hne : ∀ w ∈ statementWords, "match" ≠ w := by decide
    intro w hw
    simp only [Lexeme.isWord, Bool.and_eq_true, beq_iff_eq] at ht
    simp [Lexeme.isWord, ht.2, hne w hw]
  rw [simpleStatement_of_other hother, wholeStatement_eq_some] at h
  have hsolid : Rule.Solid expressionStatement := expressionStatement_solid
  obtain ⟨taken, htaken, hend, -⟩ := hsolid.read h
  rw [List.append_nil, ← List.cons_append] at htaken
  have hlast := hend colon (htaken ▸ List.getLast?_concat)
  rw [hcolon] at hlast
  cases hlast

theorem takeWhile_append_all {p : Token → Bool} {us vs : List Token} (hu : ∀ t ∈ us, p t = true)
    (hv : ∀ t ∈ vs, p t = false) : (us ++ vs).takeWhile p = us ∧ (us ++ vs).dropWhile p = vs := by
  induction us with
  | nil =>
    cases vs with
    | nil => exact ⟨rfl, rfl⟩
    | cons v vs => simp [hv v List.mem_cons_self]
  | cons u us ih =>
    obtain ⟨htake, hdrop⟩ := ih fun t ht => hu t (List.mem_cons_of_mem _ ht)
    simp [hu u List.mem_cons_self, htake, hdrop]

/-- **No line is both the head of a `match` and a statement of its own.** -/
theorem simpleStatements_of_matchHead {column : Nat} {ts rest : List Token} {subjects : List Expr}
    (h : matchHead.read ts = some (subjects, rest)) (hrest : rest.all (·.isComment) = true) :
    simpleStatements column ts = none := by
  obtain ⟨taken', hts', hnet⟩ := matchHead_nets.read h
  obtain ⟨t, taken, colon, hts, ht, hcolon⟩ := matchHead_shape h
  obtain rfl : taken' = t :: (taken ++ [colon]) := by
    have hsame : taken' ++ rest = t :: (taken ++ [colon]) ++ rest := by
      rw [← hts', hts]
      simp
    exact List.append_cancel_right hsame
  subst hts'
  have hcode : ∀ u ∈ t :: (taken ++ [colon]), (!u.isComment) = true ∧ (!u.isSymbol ";") = true := by
    intro u hu
    simpa [Lexeme.isOrdinary] using hnet.ordinary u hu
  have hcomments : ∀ u ∈ rest, (!u.isComment) = false := by
    simpa using hrest
  have htake := (takeWhile_append_all (fun u hu => (hcode u hu).1) hcomments).1
  have hpassed := List.takeWhile_eq_self_iff.2 fun u hu => (hcode u hu).2
  have hnone : simpleStatement (t :: (taken ++ [colon])) = none := by
    cases hs : simpleStatement (t :: (taken ++ [colon])) with
    | none => rfl
    | some make => exact (simpleStatement_match ht hcolon hs).elim
  rw [simpleStatements, htake, statementsBetween, hpassed, hnone]
  rfl

end TypedStubs.Syntax
