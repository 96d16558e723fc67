import Mathlib.Data.List.Forall2
import TypedStubs.Proofs.Syntax.Reading
import TypedStubs.Syntax.Definition

/-! # The layers of an expression

The rules for expressions are layers, from the operators that bind loosest to the atoms.  Each layer makes
expressions of kinds of its own, and hands on whatever else the next layer reads (`Through`).  So an expression
whose kind no operator makes is read off the same tokens as a sign and its operand (`ruleOf_through`), and one
whose kind nothing that trails makes either is read as an atom (`unaryExpr_through`).  In particular an
expression that is a name, a number or a string is one token.
-/
namespace TypedStubs.Syntax

open Rule

variable {α β : Type} {inner : Entry → Reader Expr} {ts rest : List Token} {e : Expr} {k : ExprKind}

namespace Rule

/-! ## What rules give -/

/-- What a rule reads satisfies `P`. -/
def Gives (P : α → Prop) (r : Rule α) : Prop :=
  ∀ ⦃inner ts x rest⦄, r.run inner ts = some (x, rest) → P x

namespace Gives

variable {P : α → Prop} {Q : β → Prop}

theorem pure {x : α} (h : P x) : Gives P (Pure.pure x : Rule α) := by
  intro inner ts y rest hrun
  obtain ⟨rfl, -⟩ := Prod.mk.inj (Option.some.inj hrun)
  exact h

theorem bind {first : Rule α} {next : α → Rule β} (h : ∀ a, Gives Q (next a)) :
    Gives Q (first >>= next) := by
  intro inner ts y rest hrun
  obtain ⟨a, mid, -, hnext⟩ := run_bind_eq_some.1 hrun
  exact h a hnext

/-- What is read first is used behind. -/
theorem bind_left {first : Rule α} {next : α → Rule β} (hf : Gives P first)
    (hn : ∀ a, P a → Gives Q (next a)) : Gives Q (first >>= next) := by
  intro inner ts y rest hrun
  obtain ⟨a, mid, hfirst, hnext⟩ := run_bind_eq_some.1 hrun
  exact hn a (hf hfirst) hnext

theorem ite {c : Bool} {yes no : Rule α} (hy : Gives P yes) (hn : Gives P no) :
    Gives P (if c then yes else no) := by
  cases c
  · exact hn
  · exact hy

theorem withText {r : Rule α} (h : Gives P r) : Gives (fun x => P x.2) (.withText r) := by
  rintro inner ts ⟨text, a⟩ rest hrun
  exact h (run_withText_eq_some.1 hrun).1

end Gives

/-- A list that is read as none takes nothing. -/
theorem many_nil {go : Ahead} {r : Rule α}
    (h : (Rule.many go r).run inner ts = some ([], rest)) : rest = ts := by
  simp only [run] at h
  rw [manyFrom] at h
  split at h
  · split at h
    · split at h
      · split at h <;> simp at h
      · simp at h
    · simp at h
  · exact (Prod.mk.inj (Option.some.inj h)).2.symm

/-- What is not taken leaves everything. -/
theorem takeIf_false {p : Lexeme → Bool} {r : Rule α}
    (h : (do if ← atToken p then (do discard r; return true) else return false : Rule Bool).run inner ts =
      some (false, rest)) : rest = ts := by
  obtain ⟨found, mid, hask, h⟩ := run_bind_eq_some.1 h
  obtain ⟨rfl, rfl⟩ := Prod.mk.inj (Option.some.inj hask)
  split at h
  · obtain ⟨_, mid', -, h⟩ := run_bind_eq_some.1 h
    cases (Prod.mk.inj (Option.some.inj h)).1
  · exact (Prod.mk.inj (Option.some.inj h)).2.symm

/-! ## One layer -/

/-- What `r` reads as an expression of kind `k`, `r'` reads too. -/
def Through (k : ExprKind) (r r' : Rule Expr) : Prop :=
  ∀ ⦃inner ts e rest⦄, r.run inner ts = some (e, rest) → e.kind = k → r'.run inner ts = some (e, rest)

namespace Through

variable {r r' r'' : Rule Expr}

theorem refl (r : Rule Expr) : Through k r r := fun _ _ _ _ hrun _ => hrun

theorem trans (h : Through k r r') (h' : Through k r' r'') : Through k r r'' :=
  fun _ _ _ _ hrun hkind => h' (h hrun hkind) hkind

/-- A rule for other kinds. -/
theorem of_gives (h : Gives (fun e => e.kind ≠ k) r) : Through k r r' :=
  fun _ _ _ _ hrun hkind => absurd hkind (h hrun)

theorem node {kind : ExprKind} (hk : kind ≠ k) (parts : Rule (List Expr)) :
    Through k (node kind parts) r' := of_gives (.bind fun _ => .pure hk)

/-- A question takes nothing. -/
theorem ask {q : Ahead} {next : Bool → Rule Expr} (h : ∀ b, Through k (next b) r') :
    Through k (.ahead q >>= next) r' := by
  intro inner ts e rest hrun hkind
  simp only [Bind.bind, run_bind, run] at hrun
  exact h _ hrun hkind

theorem ite {c : Bool} {yes no : Rule Expr} (hy : Through k yes r') (hn : Through k no r') :
    Through k (if c then yes else no) r' := by
  cases c
  · exact hn
  · exact hy

/-- An expression that went on is of a kind that the steps give. -/
theorem extendFrom_eq_self {start : List Token} {go : Ahead} {f : Reader (ExprKind × List Expr)}
    (hf : ∀ ⦃ts x rest⦄, f ts = some (x, rest) → x.1 ≠ k) {e e' : Expr} {ts rest : List Token}
    (h : extendFrom start go f e ts = some (e', rest)) (hkind : e'.kind = k) : e' = e ∧ rest = ts := by
  fun_induction extendFrom start go f e ts with
  | case1 e ts _ kind parts mid hmid hlt ih =>
    obtain ⟨rfl, -⟩ := ih h
    exact absurd hkind (hf hmid)
  | case4 e ts _ =>
    obtain ⟨rfl, rfl⟩ := Prod.mk.inj (Option.some.inj h)
    exact ⟨rfl, rfl⟩
  | _ => simp at h

theorem extend {go : Ahead} {step : Rule (ExprKind × List Expr)} (hs : Gives (fun x => x.1 ≠ k) step) :
    Through k (.extend r go step) r := by
  intro inner ts e rest hrun hkind
  simp only [run] at hrun
  split at hrun
  · next e' mid hmid =>
    obtain ⟨rfl, rfl⟩ := extendFrom_eq_self (fun _ _ _ h => hs h) hrun hkind
    exact hmid
  · cases hrun

end Through

/-! ## The operators -/

theorem leftChain_through {kind : ExprKind} (hk : kind ≠ k) (isOperator : Lexeme → Bool)
    (operand : Rule Expr) : Through k (leftChain kind isOperator operand) operand :=
  .extend (.bind fun _ => .bind fun _ => .pure hk)

theorem binaryExpr_through (hk : .binary ≠ k) : Through k binaryExpr unaryExpr :=
  (leftChain_through hk _ _).trans <| (leftChain_through hk _ _).trans <|
    (leftChain_through hk _ _).trans <| (leftChain_through hk _ _).trans <|
    (leftChain_through hk _ _).trans (leftChain_through hk _ _)

theorem comparisonExpr_through (hk : .comparison ≠ k) : Through k comparisonExpr binaryExpr := by
  intro inner ts e rest hrun hkind
  obtain ⟨⟨text, first, more⟩, mid, hparts, hrest⟩ := run_bind_eq_some.1 hrun
  cases more with
  | nil =>
    obtain ⟨rfl, rfl⟩ := Prod.mk.inj (Option.some.inj hrest)
    obtain ⟨hparts, -⟩ := run_withText_eq_some.1 hparts
    obtain ⟨first, ts₁, hfirst, hparts⟩ := run_bind_eq_some.1 hparts
    obtain ⟨more, ts₂, hmore, hparts⟩ := run_bind_eq_some.1 hparts
    obtain ⟨heq, rfl⟩ := Prod.mk.inj (Option.some.inj hparts)
    obtain ⟨rfl, rfl⟩ := Prod.mk.inj heq
    rwa [many_nil hmore]
  | cons next more =>
    obtain ⟨rfl, rfl⟩ := Prod.mk.inj (Option.some.inj hrest)
    exact absurd hkind hk

theorem negationExpr_through (hk : .negation ≠ k) : Through k negationExpr comparisonExpr :=
  .ask fun _ => .ite (.node hk _) (.refl _)

theorem disjunctionExpr_through (hk : .boolean ≠ k) : Through k disjunctionExpr negationExpr :=
  (leftChain_through hk _ _).trans (leftChain_through hk _ _)

/-- What goes on after an operand with a condition or a value is of a kind of its own; else it is the operand. -/
theorem plainExpr_through (hl : .lambda ≠ k) (hc : .conditional ≠ k) (hw : .walrus ≠ k) :
    Through k plainExpr disjunctionExpr := by
  refine .ask fun _ => .ite (.node hl _) ?_
  intro inner ts e rest hrun hkind
  obtain ⟨⟨text, operand, kind, more⟩, mid, hparts, hrest⟩ := run_bind_eq_some.1 hrun
  obtain ⟨operand', ts₁, hoperand, htail⟩ := run_bind_eq_some.1 (run_withText_eq_some.1 hparts).1
  obtain ⟨isIf, ts₂, hif, hchoice⟩ := run_bind_eq_some.1 htail
  -- there are no parts exactly where the operand is all there is
  have hplain : (more = [] ∧ operand = operand' ∧ mid = ts₁) ∨ (more ≠ [] ∧ kind ≠ k) := by
    cases isIf with
    | true =>
      obtain ⟨_, _, -, h⟩ := run_bind_eq_some.1 hchoice
      obtain ⟨_, _, -, h⟩ := run_bind_eq_some.1 h
      obtain ⟨_, _, -, h⟩ := run_bind_eq_some.1 h
      obtain ⟨rfl, rfl, rfl⟩ : operand' = operand ∧ ExprKind.conditional = kind ∧ _ = more := by
        simpa using (Prod.mk.inj (Option.some.inj h)).1
      exact .inr ⟨List.cons_ne_nil _ _, hc⟩
    | false =>
      obtain rfl := takeIf_false (r := .take (·.isWord "if")) hif
      simp only [Bool.false_eq_true, if_false] at hchoice
      split at hchoice
      · obtain ⟨isWalrus, ts₃, hwalrus, hvalue⟩ := run_bind_eq_some.1 hchoice
        cases isWalrus with
        | true =>
          obtain ⟨_, _, -, h⟩ := run_bind_eq_some.1 hvalue
          obtain ⟨rfl, rfl, rfl⟩ : operand' = operand ∧ ExprKind.walrus = kind ∧ _ = more := by
            simpa using (Prod.mk.inj (Option.some.inj h)).1
          exact .inr ⟨List.cons_ne_nil _ _, hw⟩
        | false =>
          obtain rfl := takeIf_false (r := .take (·.isSymbol ":=")) hwalrus
          obtain ⟨heq, rfl⟩ := Prod.mk.inj (Option.some.inj hvalue)
          obtain ⟨rfl, -, rfl⟩ : operand' = operand ∧ _ = kind ∧ [] = more := by simpa using heq
          exact .inl ⟨rfl, rfl, rfl⟩
      · obtain ⟨heq, rfl⟩ := Prod.mk.inj (Option.some.inj hchoice)
        obtain ⟨rfl, -, rfl⟩ : operand' = operand ∧ _ = kind ∧ [] = more := by simpa using heq
        exact .inl ⟨rfl, rfl, rfl⟩
  rcases hplain with ⟨rfl, rfl, rfl⟩ | ⟨hmore, hne⟩
  · obtain ⟨rfl, rfl⟩ := Prod.mk.inj (Option.some.inj hrest)
    exact hoperand
  · obtain ⟨part, more, rfl⟩ := List.exists_cons_of_ne_nil hmore
    obtain ⟨rfl, -⟩ := Prod.mk.inj (Option.some.inj hrest)
    exact absurd hkind hne

theorem fullExpr_through (hk : .renaming ≠ k) : Through k fullExpr plainExpr :=
  .extend (.bind fun _ => .bind fun _ => .pure hk)

/-- The kinds of expressions that operators looser than signs make. -/
def looseKinds : List ExprKind :=
  [.renaming, .lambda, .conditional, .walrus, .boolean, .negation, .comparison, .binary]

/-- **What no loose operator makes is read with the rule for signs.** -/
theorem ruleOf_through (hk : ∀ loose ∈ looseKinds, loose ≠ k) (e : Entry) :
    Through k (ruleOf e) unaryExpr := by
  simp only [looseKinds, List.forall_mem_cons] at hk
  obtain ⟨hrenaming, hlambda, hconditional, hwalrus, hboolean, hnegation, hcomparison, hbinary, -⟩ := hk
  have hcompared := (comparisonExpr_through hcomparison).trans (binaryExpr_through hbinary)
  have hnegated := (negationExpr_through hnegation).trans hcompared
  have hjoined := (disjunctionExpr_through hboolean).trans hnegated
  cases e with
  | full =>
    exact (fullExpr_through hrenaming).trans ((plainExpr_through hlambda hconditional hwalrus).trans hjoined)
  | disjunction => exact hjoined
  | negation => exact hnegated
  | unary => exact .refl _

/-! ## Signs and trailers -/

theorem trailer_gives (ha : .attribute ≠ k) (hc : .call ≠ k) (hs : .subscript ≠ k) :
    Gives (fun x => x.1 ≠ k) trailer := by
  refine .bind fun _ => .ite (.bind fun _ => .pure ha) (.bind fun _ => .ite ?_ ?_)
  · exact .bind fun _ => .pure hc
  · exact .bind fun _ => .bind fun _ => .bind fun _ => .pure hs

/-- The kinds of expressions that powers and trailers make. -/
def tightKinds : List ExprKind := [.await, .binary, .attribute, .call, .subscript]

theorem power_through (hk : ∀ tight ∈ tightKinds, tight ≠ k) : Through k power atom := by
  simp only [tightKinds, List.forall_mem_cons] at hk
  obtain ⟨hawait, hbinary, hattribute, hcall, hsubscript, -⟩ := hk
  refine .ask fun _ => .ite (.node hawait _) ?_
  have hpower : Gives (fun x => x.1 ≠ k) (do symbol "**"; return (.binary, [← .inner .unary])) :=
    .bind fun _ => .bind fun _ => .pure hbinary
  exact (Through.extend hpower).trans (.extend (trailer_gives hattribute hcall hsubscript))

/-- **What no sign and no trailer makes is an atom.** -/
theorem unaryExpr_through (hunary : .unary ≠ k) (hk : ∀ tight ∈ tightKinds, tight ≠ k) :
    Through k unaryExpr atom := .ask fun _ => .ite (.node hunary _) (power_through hk)

/-! ## Atoms -/

/-- Brackets make expressions of their own kinds. -/
theorem contents_gives {closing : String} {comprehension several only : ExprKind}
    (hc : comprehension ≠ k) (hs : several ≠ k) (ho : only ≠ k) :
    Gives (fun x => x.1 ≠ k) (contents closing comprehension several only) := by
  refine .bind fun _ => .bind fun _ => .ite ?_ (.bind fun _ => .ite ?_ ?_)
  · exact .bind fun _ => .bind fun _ => .pure hc
  · exact .bind fun _ => .pure hs
  · exact .bind fun _ => .pure ho

/-- What is made of a kind and parts is of that kind. -/
theorem ofKind_gives {r : Rule (ExprKind × List Expr)} (h : Gives (fun x => x.1 ≠ k) r) :
    Gives (fun e : Expr => e.kind ≠ k) (do
      let (text, kind, parts) ← .withText r
      return Expr.node kind text parts) :=
  .bind_left h.withText fun _ hx => .pure hx

theorem leaf_gives {kind : ExprKind} (hk : kind ≠ k) (p : Lexeme → Bool) :
    Gives (fun e => e.kind ≠ k) (leaf kind p) := .bind fun _ => .pure hk

theorem wordExpr_gives (hk : ∀ kind ∈ [ExprKind.trueValue, .falseValue, .noneValue, .name], kind ≠ k) :
    Gives (fun e => e.kind ≠ k) wordExpr := by
  refine .bind fun l => .pure (hk _ ?_)
  rw [Expr.kind, wordKind]
  split
  · decide
  split
  · decide
  split <;> decide

theorem stringsExpr_gives (hs : .string ≠ k) (ha : .adjacentStrings ≠ k) :
    Gives (fun e => e.kind ≠ k) stringsExpr := by
  have one : Gives (fun e => e.kind ≠ k) stringExpr := .bind fun _ => .pure hs
  refine .bind_left (P := fun x => x.2.1.kind ≠ k) ?_ fun x hx => .ite (.pure hx) (.pure ha)
  exact (Gives.bind_left one fun e he => .bind fun _ => .pure he :
    Gives (fun x : Expr × List Expr => x.1.kind ≠ k) _).withText

/-- The kinds of expressions in brackets, and of what starts with a star or is three dots. -/
def bracketKinds : List ExprKind :=
  [.tuple, .parenthesized, .generator, .list, .listComprehension, .dictionary, .dictionaryComprehension, .set,
    .setComprehension, .listSplat, .ellipsis]

/-- An atom that is neither in brackets nor a star nor dots is read with a rule for tokens of one kind. -/
theorem atom_through {r : Rule Expr} (hk : ∀ kind ∈ bracketKinds, kind ≠ k) (hword : Through k wordExpr r)
    (hinteger : Through k (leaf .integer (·.kind == .integer)) r)
    (hfloat : Through k (leaf .float (·.kind == .float)) r) (hstrings : Through k stringsExpr r) :
    Through k atom r := by
  simp only [bracketKinds, List.forall_mem_cons] at hk
  obtain ⟨htuple, hparens, hgenerator, hlist, hlists, hdict, hdicts, hset, hsets, hstar, hdots, -⟩ := hk
  refine .ask fun _ => .ite hword (.ask fun _ => .ite hinteger (.ask fun _ => .ite hfloat ?_))
  refine .ask fun _ => .ite hstrings (.ask fun _ => .ite (.of_gives ?_) (.ask fun _ => .ite (.of_gives ?_) ?_))
  · exact ofKind_gives (.bind fun _ => .bind fun _ =>
      .ite (.pure htuple) (contents_gives hgenerator htuple hparens))
  · exact ofKind_gives (.bind fun _ => .bind fun _ =>
      .ite (.pure hlist) (contents_gives hlists hlist hlist))
  refine .ask fun _ => .ite (.of_gives (ofKind_gives ?_)) (.ask fun _ => .ite (.node hstar _) ?_)
  · have hkinds : ∀ b : Bool, (if b then ExprKind.dictionary else .set) ≠ k := by
      intro b
      cases b
      · exact hset
      · exact hdict
    refine .bind fun _ => .bind fun _ => .ite (.pure hdict) (.bind fun _ => .ite (.bind fun _ => .pure hdict) ?_)
    refine .bind fun first => .bind fun _ => .ite (.bind fun _ => .bind fun _ => .pure ?_) ?_
    · dsimp only
      split
      · exact hdicts
      · exact hsets
    · exact .bind fun _ => .ite (.bind fun _ => .pure (hkinds _)) (.bind fun _ => .pure (hkinds _))
  · exact .of_gives (leaf_gives hdots _)

/-- An expression of signs is a sign and its operand. -/
theorem unaryExpr_eq_some (h : unaryExpr.run inner ts = some (e, rest)) (hkind : e.kind = .unary) :
    ∃ t us operand text, ts = t :: us ∧ isOneOf ["-", "+", "~"] t.toLexeme = true ∧
      inner .unary us = some (operand, rest) ∧ e = .node .unary text [operand] := by
  obtain ⟨isSign, mid, hask, h⟩ := run_bind_eq_some.1 h
  obtain ⟨-, rfl⟩ := Prod.mk.inj (Option.some.inj hask)
  cases isSign with
  | false =>
    -- nothing else makes an expression of signs
    have hfail : Through .unary power .fail := by
      refine (power_through (by decide)).trans (atom_through (by decide) ?_ ?_ ?_ ?_)
      · exact .of_gives (wordExpr_gives (by decide))
      · exact .of_gives (leaf_gives (by decide) _)
      · exact .of_gives (leaf_gives (by decide) _)
      · exact .of_gives (stringsExpr_gives (by decide) (by decide))
    cases hfail h hkind
  | true =>
    obtain ⟨⟨text, parts⟩, mid, htext, hpure⟩ := run_bind_eq_some.1 h
    obtain ⟨rfl, rfl⟩ := Prod.mk.inj (Option.some.inj hpure)
    obtain ⟨hparts, -⟩ := run_withText_eq_some.1 htext
    obtain ⟨_, ts₁, hsign, hparts⟩ := run_bind_eq_some.1 hparts
    obtain ⟨operand, ts₂, hoperand, hpure⟩ := run_bind_eq_some.1 hparts
    obtain ⟨rfl, rfl⟩ := Prod.mk.inj (Option.some.inj hpure)
    obtain ⟨l, ts₃, htake, hpure⟩ := run_bind_eq_some.1 hsign
    obtain ⟨-, rfl⟩ := Prod.mk.inj (Option.some.inj hpure)
    obtain ⟨t, rfl, rfl, hsign⟩ := run_take_eq_some.1 htake
    exact ⟨t, _, operand, text, rfl, hsign, hoperand, rfl⟩

/-! ## Single tokens -/

theorem leaf_eq_some {kind : ExprKind} {p : Lexeme → Bool} (h : (leaf kind p).run inner ts = some (e, rest)) :
    ∃ t, ts = t :: rest ∧ p t.toLexeme = true ∧ e = .node kind t.text [] := by
  obtain ⟨l, mid, htake, hpure⟩ := run_bind_eq_some.1 h
  obtain ⟨rfl, rfl⟩ := Prod.mk.inj (Option.some.inj hpure)
  obtain ⟨t, rfl, rfl, hp⟩ := run_take_eq_some.1 htake
  exact ⟨t, rfl, hp, rfl⟩

theorem wordExpr_eq_some (h : wordExpr.run inner ts = some (e, rest)) :
    ∃ t, ts = t :: rest ∧ t.kind = .word := by
  obtain ⟨l, mid, htake, hpure⟩ := run_bind_eq_some.1 h
  obtain ⟨-, rfl⟩ := Prod.mk.inj (Option.some.inj hpure)
  obtain ⟨t, rfl, rfl, hp⟩ := run_take_eq_some.1 htake
  simp only [Bool.and_eq_true, beq_iff_eq] at hp
  exact ⟨t, rfl, hp.1⟩

/-- An expression that is the string `t`. -/
def IsStringOf (t : Token) (e : Expr) : Prop :=
  isString t.toLexeme = true ∧ ∃ parts, e = .node .string t.text parts

theorem stringExpr_eq_some (h : stringExpr.run inner ts = some (e, rest)) :
    ∃ t, ts = t :: rest ∧ IsStringOf t e := by
  obtain ⟨⟨text, parts⟩, mid, hstring, hpure⟩ := run_bind_eq_some.1 h
  obtain ⟨rfl, rfl⟩ := Prod.mk.inj (Option.some.inj hpure)
  cases ts with
  | nil => simp [run] at hstring
  | cons t ts =>
    simp only [run] at hstring
    split at hstring
    · next sources hkind =>
      obtain ⟨as, -, heq⟩ := Option.map_eq_some_iff.1 hstring
      obtain ⟨hpair, rfl⟩ := Prod.mk.inj heq
      obtain ⟨rfl, rfl⟩ := Prod.mk.inj hpair
      exact ⟨t, rfl, by rw [isString, hkind], _, rfl⟩
    · cases hstring

/-- What takes one token each time takes as many tokens as it reads things. -/
theorem many_tokens {go : Ahead} {r : Rule α} {P : Token → α → Prop} {as : List α}
    (hr : ∀ ⦃ts a rest⦄, r.run inner ts = some (a, rest) → ∃ t, ts = t :: rest ∧ P t a)
    (h : (Rule.many go r).run inner ts = some (as, rest)) :
    ∃ us, ts = us ++ rest ∧ List.Forall₂ P us as := by
  simp only [run] at h
  fun_induction manyFrom go (r.run inner) ts generalizing as rest with
  | case1 ts _ a mid hmid hlt more after hmore ih =>
    obtain ⟨rfl, rfl⟩ := Prod.mk.inj (Option.some.inj h)
    obtain ⟨t, rfl, ht⟩ := hr hmid
    obtain ⟨us, rfl, hus⟩ := ih hmore
    exact ⟨t :: us, rfl, .cons ht hus⟩
  | case5 ts _ =>
    obtain ⟨rfl, rfl⟩ := Prod.mk.inj (Option.some.inj h)
    exact ⟨[], rfl, .nil⟩
  | _ => simp at h

/-- String literals are one string or several. -/
theorem stringsExpr_eq_some (h : stringsExpr.run inner ts = some (e, rest)) :
    (∃ t, ts = t :: rest ∧ IsStringOf t e) ∨
      ∃ us text parts, ts = us ++ rest ∧ List.Forall₂ IsStringOf us parts ∧
        e = .node .adjacentStrings text parts := by
  obtain ⟨⟨text, first, more⟩, mid, htext, hpure⟩ := run_bind_eq_some.1 h
  obtain ⟨hparts, -⟩ := run_withText_eq_some.1 htext
  obtain ⟨first', ts₁, hfirst, hparts⟩ := run_bind_eq_some.1 hparts
  obtain ⟨more', ts₂, hmore, hparts⟩ := run_bind_eq_some.1 hparts
  obtain ⟨heq, rfl⟩ := Prod.mk.inj (Option.some.inj hparts)
  obtain ⟨rfl, rfl⟩ := Prod.mk.inj heq
  obtain ⟨t, rfl, ht⟩ := stringExpr_eq_some hfirst
  cases more' with
  | nil =>
    obtain ⟨rfl, rfl⟩ := Prod.mk.inj (Option.some.inj hpure)
    rw [many_nil hmore]
    exact .inl ⟨t, rfl, ht⟩
  | cons next more =>
    obtain ⟨rfl, rfl⟩ := Prod.mk.inj (Option.some.inj hpure)
    obtain ⟨us, rfl, hus⟩ := many_tokens (fun _ _ _ => stringExpr_eq_some) hmore
    exact .inr ⟨t :: us, text, _, rfl, .cons ht hus, rfl⟩

end Rule

/-! ## Expressions of one kind -/

theorem textSince_append_right (us rest : List Token) :
    textSince (us ++ rest) rest = String.ofList (spanChars us) := by
  have : (us ++ rest).length - rest.length = us.length := by simp
  rw [textSince, takenSince, this, List.take_left]

theorem textSince_single (t : Token) (rest : List Token) : textSince (t :: rest) rest = t.text := by
  rw [← List.singleton_append, textSince_append_right]
  simp [spanChars, Lexeme.text]

variable {place : Entry} {found : Expr}

/-- An expression of a kind that no operator and no trailer makes is read with the rule for that kind of atom. -/
theorem expression_through {r : Rule Expr} (hloose : ∀ loose ∈ looseKinds, loose ≠ k) (hunary : .unary ≠ k)
    (htight : ∀ tight ∈ tightKinds, tight ≠ k) (hatom : Through k atom r)
    (h : expression place ts = some (found, rest)) (hkind : found.kind = k) :
    ∃ inside, r.run (innerOf (weight ts)) ts = some (inside, rest) ∧ inside.kind = k ∧
      found = .node k (textSince ts rest) inside.parts := by
  obtain ⟨inside, hinside, rfl⟩ := expression_eq_some.1 h
  have hk : inside.kind = k := hkind
  have hthrough := ((ruleOf_through hloose place).trans (unaryExpr_through hunary htight)).trans hatom
  exact ⟨inside, hthrough hinside hk, hk, by rw [hk]⟩

/-- **An expression that is a name is one word.** -/
theorem expression_name (h : expression place ts = some (found, rest)) (hkind : found.kind = .name) :
    ∃ t, ts = t :: rest ∧ t.kind = .word := by
  have hatom : Through .name atom wordExpr := by
    refine atom_through (by decide) (.refl _) ?_ ?_ ?_
    · exact .of_gives (leaf_gives (by decide) _)
    · exact .of_gives (leaf_gives (by decide) _)
    · exact .of_gives (stringsExpr_gives (by decide) (by decide))
  obtain ⟨inside, hinside, -⟩ := expression_through (by decide) (by decide) (by decide) hatom h hkind
  exact wordExpr_eq_some hinside

/-- A whole number is one token. -/
theorem expression_integer (h : expression place ts = some (found, rest)) (hkind : found.kind = .integer) :
    ∃ t, ts = t :: rest ∧ t.kind = .integer ∧ found = .node .integer t.text [] := by
  have hatom : Through .integer atom (leaf .integer (·.kind == .integer)) := by
    refine atom_through (by decide) ?_ (.refl _) ?_ ?_
    · exact .of_gives (wordExpr_gives (by decide))
    · exact .of_gives (leaf_gives (by decide) _)
    · exact .of_gives (stringsExpr_gives (by decide) (by decide))
  obtain ⟨inside, hinside, -, hfound⟩ := expression_through (by decide) (by decide) (by decide) hatom h hkind
  obtain ⟨t, rfl, ht, rfl⟩ := leaf_eq_some hinside
  exact ⟨t, rfl, by simpa using ht, by rw [hfound, textSince_single]; rfl⟩

/-- A number with a fraction or an exponent is one token. -/
theorem expression_float (h : expression place ts = some (found, rest)) (hkind : found.kind = .float) :
    ∃ t, ts = t :: rest ∧ t.kind = .float ∧ found = .node .float t.text [] := by
  have hatom : Through .float atom (leaf .float (·.kind == .float)) := by
    refine atom_through (by decide) ?_ ?_ (.refl _) ?_
    · exact .of_gives (wordExpr_gives (by decide))
    · exact .of_gives (leaf_gives (by decide) _)
    · exact .of_gives (stringsExpr_gives (by decide) (by decide))
  obtain ⟨inside, hinside, -, hfound⟩ := expression_through (by decide) (by decide) (by decide) hatom h hkind
  obtain ⟨t, rfl, ht, rfl⟩ := leaf_eq_some hinside
  exact ⟨t, rfl, by simpa using ht, by rw [hfound, textSince_single]; rfl⟩

/-- A string is one token. -/
theorem expression_string (h : expression place ts = some (found, rest)) (hkind : found.kind = .string) :
    ∃ t, ts = t :: rest ∧ IsStringOf t found := by
  have hatom : Through .string atom stringsExpr := by
    refine atom_through (by decide) ?_ ?_ ?_ (.refl _)
    · exact .of_gives (wordExpr_gives (by decide))
    · exact .of_gives (leaf_gives (by decide) _)
    · exact .of_gives (leaf_gives (by decide) _)
  obtain ⟨inside, hinside, hk, hfound⟩ :=
    expression_through (by decide) (by decide) (by decide) hatom h hkind
  obtain ⟨t, rfl, hstring, parts, rfl⟩ | ⟨us, text, parts, -, -, rfl⟩ := stringsExpr_eq_some hinside
  · exact ⟨t, rfl, hstring, parts, by rw [hfound, textSince_single]; rfl⟩
  · cases hk

/-- Strings side by side are one token each. -/
theorem expression_adjacentStrings (h : expression place ts = some (found, rest))
    (hkind : found.kind = .adjacentStrings) :
    ∃ us, ts = us ++ rest ∧ List.Forall₂ IsStringOf us found.parts := by
  have hatom : Through .adjacentStrings atom stringsExpr := by
    refine atom_through (by decide) ?_ ?_ ?_ (.refl _)
    · exact .of_gives (wordExpr_gives (by decide))
    · exact .of_gives (leaf_gives (by decide) _)
    · exact .of_gives (leaf_gives (by decide) _)
  obtain ⟨inside, hinside, hk, hfound⟩ :=
    expression_through (by decide) (by decide) (by decide) hatom h hkind
  obtain ⟨t, -, -, parts, rfl⟩ | ⟨us, text, parts, rfl, hparts, rfl⟩ := stringsExpr_eq_some hinside
  · cases hk
  · exact ⟨us, rfl, by rw [hfound]; exact hparts⟩

/-- An expression of signs is a sign and its operand. -/
theorem expression_unary (h : expression place ts = some (found, rest)) (hkind : found.kind = .unary) :
    ∃ t us operand, ts = t :: us ∧ isOneOf ["-", "+", "~"] t.toLexeme = true ∧
      expression .unary us = some (operand, rest) ∧ found = .node .unary (textSince ts rest) [operand] := by
  obtain ⟨inside, hinside, rfl⟩ := expression_eq_some.1 h
  have hread := ruleOf_through (by decide) place hinside hkind
  obtain ⟨t, us, operand, text, rfl, hsign, hoperand, rfl⟩ := unaryExpr_eq_some hread hkind
  simp only [innerOf, Option.ite_none_right_eq_some] at hoperand
  exact ⟨t, us, operand, rfl, hsign, hoperand.2, rfl⟩

/-! ## Lists of expressions -/

/-- One expression without a comma is itself; several are a tuple with the text of them all. -/
theorem expressionList_cases {inner : Entry → Reader Expr}
    (h : expressionList.run inner ts = some (e, rest)) :
    inner .full ts = some (e, rest) ∨ (e.kind = .bareTuple ∧ e.text = textSince ts rest) := by
  obtain ⟨⟨text, items, comma⟩, mid, hitems, hrest⟩ := run_bind_eq_some.1 h
  obtain ⟨hlist, rfl⟩ := run_withText_eq_some.1 hitems
  obtain ⟨first, ts₁, hfirst, htail⟩ := run_bind_eq_some.1 hlist
  obtain ⟨more, ts₂, hmore, hpure⟩ := run_bind_eq_some.1 htail
  obtain ⟨heq, rfl⟩ := Prod.mk.inj (Option.some.inj hpure)
  obtain ⟨rfl, rfl⟩ := Prod.mk.inj heq
  cases more with
  | nil =>
    obtain ⟨rfl, rfl⟩ := Prod.mk.inj (Option.some.inj hrest)
    rw [many_nil hmore]
    exact .inl hfirst
  | cons next more =>
    obtain ⟨parts, rfl, rfl⟩ : ∃ parts, .node .bareTuple _ parts = e ∧ ts₂ = rest := by
      cases hfilter : (next :: more).filterMap id with
      | nil => exact ⟨_, by simpa [hfilter, Pure.pure, run] using hrest⟩
      | cons item items => exact ⟨_, by simpa [hfilter, Pure.pure, run] using hrest⟩
    exact .inr ⟨rfl, rfl⟩

/-- An assigned value that is a name is one word. -/
theorem assignedValue_name (h : assignedValue.read ts = some (e, rest)) (hkind : e.kind = .name) :
    ∃ t, ts = t :: rest ∧ t.kind = .word := by
  have hthrough : Through .name assignedValue expressionList := .ask fun _ => .ite (.node (by decide) _) (.refl _)
  rcases expressionList_cases (hthrough h hkind) with h | ⟨h, -⟩
  · exact expression_name h hkind
  · cases hkind.symm.trans h

end TypedStubs.Syntax
