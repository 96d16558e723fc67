import TypedStubs.Proofs.Syntax.Reading
import TypedStubs.Syntax.Definition

/-! # What expressions and parameters start with

A rule that reads something has looked at its first token.  So no expression and no parameter starts
with a closing bracket, a comma, an equals sign or the sign of a decorator (`expression_starts`).
-/
namespace TypedStubs.Syntax

open Rule

variable {α β : Type}

/-- Whether an expression or a parameter may start with a lexeme. -/
def startsPiece (l : Lexeme) : Bool := startsItem l || l.isSymbol "/"

/-- What a reader reads starts with a lexeme that something may start with, and it takes that one. -/
def Starting (f : Reader α) : Prop :=
  ∀ ⦃ts x rest⦄, f ts = some (x, rest) →
    ∃ t us, ts = t :: us ∧ startsPiece t.toLexeme = true ∧ rest <:+ us

theorem Starting.consumes {f : Reader α} (h : Starting f) : Consumes f := by
  intro ts x rest hrun
  obtain ⟨t, us, rfl, -, hrest⟩ := h hrun
  exact hrest.trans (List.suffix_cons _ _)

theorem startsPiece_of_kind {l : Lexeme} (hs : l.kind ≠ .symbol) (hc : l.kind ≠ .comment) :
    startsPiece l = true := by
  rw [startsPiece, Bool.or_eq_true]
  left
  unfold startsItem
  split
  · rfl
  · rfl
  · rfl
  · rfl
  · next h => exact absurd h hs
  · next h => exact absurd h hc

theorem startsPiece_of_symbol {l : Lexeme} {s : String} (hs : s ∈ itemSymbols ∨ s = "/")
    (h : l.isSymbol s = true) : startsPiece l = true := by
  rw [startsPiece, Bool.or_eq_true]
  rcases hs with hs | rfl
  · left
    simp only [Lexeme.isSymbol, Bool.and_eq_true, beq_iff_eq] at h
    rw [startsItem, h.1, h.2]
    exact List.contains_iff_mem.2 hs
  · exact .inr h

theorem startsPiece_isSymbol {l : Lexeme} {s : String} (h : startsPiece l = true)
    (hs : s ∉ itemSymbols) (hslash : s ≠ "/") : l.isSymbol s = false := by
  refine Bool.eq_false_iff.2 fun hl => ?_
  simp only [Lexeme.isSymbol, Bool.and_eq_true, beq_iff_eq] at hl
  rw [startsPiece, Bool.or_eq_true] at h
  rcases h with h | h
  · rw [startsItem, hl.1, hl.2] at h
    exact hs (List.contains_iff_mem.1 h)
  · simp only [Lexeme.isSymbol, Bool.and_eq_true, beq_iff_eq] at h
    exact hslash (hl.2.symm.trans h.2)

theorem startsPiece_isComment {l : Lexeme} (h : startsPiece l = true) : l.isComment = false := by
  refine Bool.eq_false_iff.2 fun hl => ?_
  simp only [Lexeme.isComment, beq_iff_eq] at hl
  rw [startsPiece, startsItem, hl] at h
  simp [Lexeme.isSymbol, hl] at h

namespace Rule

/-- What a rule reads starts with a lexeme that something may start with. -/
def Starts (r : Rule α) : Prop := ∀ ⦃inner⦄, (∀ e, Starting (inner e)) → Starting (r.run inner)

namespace Starts

theorem fail : Starts (Rule.fail : Rule α) := by
  intro inner hin ts x rest h
  simp [run] at h

theorem take {p : Lexeme → Bool} (h : ∀ l, p l = true → startsPiece l = true) : Starts (.take p) := by
  intro inner hin ts l rest hrun
  cases ts with
  | nil => simp [run] at hrun
  | cons t ts =>
    simp only [run, Option.ite_none_right_eq_some, Option.some.injEq, Prod.mk.injEq] at hrun
    obtain ⟨hp, -, rfl⟩ := hrun
    exact ⟨t, ts, rfl, h _ hp, List.suffix_refl _⟩

theorem inner (e : Entry) : Starts (.inner e) := fun _ hin => hin e

/-- A rule that starts so, and whatever is read behind it. -/
theorem bind {first : Rule α} {next : α → Rule β} (h : Starts first) : Starts (first >>= next) := by
  intro inner hin ts x rest hrun
  simp only [Bind.bind, run_bind] at hrun
  split at hrun
  · next y mid hmid =>
    obtain ⟨t, us, rfl, ht, hus⟩ := h hin hmid
    have hrest := run_consumes (fun e => (hin e).consumes) (next y) hrun
    exact ⟨t, us, rfl, ht, hrest.trans hus⟩
  · simp at hrun

/-- A question takes nothing. -/
theorem ask {q : Ahead} {next : Bool → Rule β} (h : ∀ b, Starts (next b)) :
    Starts (.ahead q >>= next) := by
  intro inner hin ts x rest hrun
  simp only [Bind.bind, run_bind, run] at hrun
  exact h _ hin hrun

theorem ite {c : Bool} {yes no : Rule α} (hy : Starts yes) (hn : Starts no) :
    Starts (if c then yes else no) := by
  cases c
  · exact hn
  · exact hy

theorem discard {r : Rule α} (h : Starts r) : Starts (discard r) := bind h

theorem withText {r : Rule α} (h : Starts r) : Starts (.withText r) := by
  intro inner hin ts x rest hrun
  simp only [run] at hrun
  split at hrun
  · next y mid hmid =>
    obtain ⟨-, rfl⟩ := Prod.mk.inj (Option.some.inj hrun)
    exact h hin hmid
  · simp at hrun

theorem extend {first : Rule Expr} {go : Ahead} {step : Rule (ExprKind × List Expr)}
    (h : Starts first) : Starts (.extend first go step) := by
  intro inner hin ts x rest hrun
  simp only [run] at hrun
  split at hrun
  · next e mid hmid =>
    obtain ⟨t, us, rfl, ht, hus⟩ := h hin hmid
    have hrest := extendFrom_consumes (run_consumes (fun e => (hin e).consumes) step) e hrun
    exact ⟨t, us, rfl, ht, hrest.trans hus⟩
  · simp at hrun

theorem byName {named plain : Rule α} (hn : Starts named) (hp : Starts plain) :
    Starts (.byName named plain) := by
  intro inner hin ts x rest hrun
  simp only [run] at hrun
  split at hrun
  · next y mid hmid =>
    simp only [Option.ite_none_right_eq_some, Option.some.injEq, Prod.mk.injEq] at hrun
    obtain ⟨-, -, rfl⟩ := hrun
    split at hmid
    · exact hn hin hmid
    · exact hp hin hmid
  · simp at hrun

theorem string (r : Rule α) : Starts (.string r) := by
  intro inner hin ts x rest hrun
  cases ts with
  | nil => simp [run] at hrun
  | cons t ts =>
    simp only [run] at hrun
    split at hrun
    · next sources hk =>
      simp only [Option.map_eq_some_iff, Prod.mk.injEq] at hrun
      obtain ⟨-, -, -, rfl⟩ := hrun
      exact ⟨t, ts, rfl, startsPiece_of_kind (by simp [hk]) (by simp [hk]), List.suffix_refl _⟩
    · simp at hrun

theorem node {kind : ExprKind} {parts : Rule (List Expr)} (h : Starts parts) :
    Starts (node kind parts) := bind (withText h)

theorem word (w : String) : Starts (word w) := by
  refine discard (take fun l hl => ?_)
  simp only [Lexeme.isWord, Bool.and_eq_true, beq_iff_eq] at hl
  exact startsPiece_of_kind (by simp [hl.1]) (by simp [hl.1])

theorem anyWord : Starts anyWord := by
  refine bind (take fun l hl => ?_)
  obtain hl : l.kind = .word := by simpa using hl
  exact startsPiece_of_kind (by simp [hl]) (by simp [hl])

theorem symbol {s : String} (hs : s ∈ itemSymbols ∨ s = "/") : Starts (symbol s) :=
  discard (take fun _ hl => startsPiece_of_symbol hs hl)

theorem symbolIn {ss : List String} (hs : ∀ s ∈ ss, s ∈ itemSymbols) : Starts (symbolIn ss) := by
  refine discard (take fun l hl => ?_)
  simp only [isOneOf, Bool.and_eq_true, beq_iff_eq, List.contains_iff_mem] at hl
  exact startsPiece_of_symbol (.inl (hs _ hl.2)) (by simp [Lexeme.isSymbol, hl.1])

/-- What is done after a symbol that may be next, and what is done without it. -/
theorem takeSymbol {s : String} (hs : s ∈ itemSymbols ∨ s = "/") {yes no : Rule β} (hno : Starts no) :
    Starts (takeSymbol s >>= fun found => if found then yes else no) := by
  have h : Starts (atSymbol s >>= fun found =>
      if found then Rule.symbol s >>= fun _ => yes else no) :=
    ask fun _ => ite (bind (symbol hs)) hno
  intro inner hin ts x rest hrun
  rw [run_takeSymbol] at hrun
  exact h hin hrun

end Starts

/-! ## The rules of the grammar -/

theorem leftChain_starts {kind : ExprKind} {isOperator : Lexeme → Bool} {operand : Rule Expr}
    (h : Starts operand) : Starts (leftChain kind isOperator operand) := .extend h

theorem splat_starts {kind : ExprKind} {s : String} (hs : s ∈ itemSymbols) (operand : Rule Expr) :
    Starts (splat kind s operand) := .node (.bind (.symbol (.inl hs)))

theorem yieldExpr_starts : Starts yieldExpr := .node (.bind (.word _))

theorem stringsExpr_starts : Starts stringsExpr := .bind (.withText (.bind (.bind (.string _))))

theorem leaf_starts {kind : ExprKind} {p : Lexeme → Bool} (h : ∀ l, p l = true → startsPiece l = true) :
    Starts (leaf kind p) := .bind (.take h)

theorem wordExpr_starts : Starts wordExpr := by
  refine .bind (.take fun l hl => ?_)
  simp only [Bool.and_eq_true, beq_iff_eq] at hl
  exact startsPiece_of_kind (by simp [hl.1]) (by simp [hl.1])

theorem number_starts {k : TokenKind} (hs : k ≠ .symbol) (hc : k ≠ .comment) (kind : ExprKind) :
    Starts (leaf kind (·.kind == k)) := by
  refine leaf_starts fun l hl => ?_
  obtain rfl : l.kind = k := by simpa using hl
  exact startsPiece_of_kind hs hc

theorem atom_starts : Starts atom := by
  refine .ask fun _ => .ite wordExpr_starts (.ask fun _ => .ite ?_ (.ask fun _ => .ite ?_ ?_))
  · exact number_starts (by decide) (by decide) _
  · exact number_starts (by decide) (by decide) _
  refine .ask fun _ => .ite stringsExpr_starts (.ask fun _ => .ite ?_ (.ask fun _ => .ite ?_ ?_))
  · exact .bind (.withText (.bind (.symbol (by decide))))
  · exact .bind (.withText (.bind (.symbol (by decide))))
  refine .ask fun _ => .ite ?_ (.ask fun _ => .ite (splat_starts (by decide) _) (leaf_starts ?_))
  · exact .bind (.withText (.bind (.symbol (by decide))))
  · exact fun l hl => startsPiece_of_symbol (by decide) hl

theorem power_starts : Starts power :=
  .ask fun _ => .ite (.node (.bind (.word _))) (.extend (.extend atom_starts))

theorem unaryExpr_starts : Starts unaryExpr :=
  .ask fun _ => .ite (.node (.bind (.symbolIn (by decide)))) power_starts

theorem binaryExpr_starts : Starts binaryExpr :=
  leftChain_starts <| leftChain_starts <| leftChain_starts <| leftChain_starts <|
    leftChain_starts <| leftChain_starts unaryExpr_starts

theorem comparisonExpr_starts : Starts comparisonExpr := .bind (.withText (.bind binaryExpr_starts))

theorem negationExpr_starts : Starts negationExpr :=
  .ask fun _ => .ite (.node (.bind (.word _))) comparisonExpr_starts

theorem disjunctionExpr_starts : Starts disjunctionExpr :=
  leftChain_starts (leftChain_starts negationExpr_starts)

theorem plainExpr_starts : Starts plainExpr :=
  .ask fun _ => .ite (.node (.bind (.word _))) (.bind (.withText (.bind disjunctionExpr_starts)))

theorem ruleOf_starts (e : Entry) : Starts (ruleOf e) := by
  cases e with
  | full => exact .extend plainExpr_starts
  | disjunction => exact disjunctionExpr_starts
  | negation => exact negationExpr_starts
  | unary => exact unaryExpr_starts

theorem hintExpr_starts : Starts hintExpr :=
  .ask fun _ => .ite (splat_starts (by decide) _) (.inner _)

theorem argument_starts : Starts argument := by
  refine .ask fun _ => .ite (splat_starts (by decide) _) (.ask fun _ => .ite ?_ ?_)
  · exact splat_starts (by decide) _
  · exact .byName (.node (.bind .anyWord)) (.inner _)

theorem expressionList_starts : Starts expressionList := .bind (.withText (.bind (.inner _)))

theorem assignedValue_starts : Starts assignedValue :=
  .ask fun _ => .ite yieldExpr_starts expressionList_starts

theorem starParam_starts (kind : ParamKind) : Starts (starParam kind) :=
  .bind (.withText (.bind (.symbolIn (by decide))))

theorem param_starts : Starts param := by
  refine .bind (.withText (.takeSymbol (.inr rfl) (.ask fun _ => .ite ?_ (.ask fun _ => .ite ?_ ?_))))
  · exact starParam_starts _
  · exact starParam_starts _
  · exact .bind .anyWord

end Rule

/-- **No expression starts with a closing bracket or a sign that is not its own.** -/
theorem expression_starts (e : Entry) : Starting (expression e) := by
  intro ts
  induction hw : weight ts using Nat.strongRecOn generalizing ts e with
  | _ w ih =>
    intro found rest hrun
    subst hw
    obtain ⟨inside, hinside, -⟩ := expression_eq_some.1 hrun
    refine Rule.ruleOf_starts e (fun e us a rest h => ?_) hinside
    simp only [innerOf, Option.ite_none_right_eq_some] at h
    exact ih _ h.1 e rfl h.2

theorem Rule.Starts.read {r : Rule α} (h : Rule.Starts r) : Starting r.read := h expression_starts

end TypedStubs.Syntax
