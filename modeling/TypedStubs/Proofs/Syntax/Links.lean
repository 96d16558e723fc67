import Mathlib.Data.List.Chain
import TypedStubs.Proofs.Syntax.Balance
import TypedStubs.Proofs.Syntax.Reading

/-! # Which words stand behind an operand

An operand that ends with a number, a string or a closing bracket is followed by no name: the word behind it, if
there is one, is a connective such as `or` or `if` (`expression_links`).  `Links a b` says this of the tokens
that a rule takes, the token before them included: `a` says whether that one must not end an operand, and `b`
whether the last one taken ends none either.  A word may end an operand too, but a blank stands behind it.
-/
namespace TypedStubs.Syntax

open Rule

variable {α β : Type} {a b c : Bool} {ts us : List Token}

/-- The symbols that an operand may end with. -/
def operandEnds : List String := ["...", ")", "]", braceClosing]

/-- Whether a lexeme is no word and may be the last one of an operand. -/
def Lexeme.endsOperand (l : Lexeme) : Bool :=
  match l.kind with
  | .integer | .float | .string _ => true
  | .symbol => operandEnds.contains l.text
  | .word | .comment => false

/-- The words that may stand behind an operand. -/
def connectives : List String := ["or", "and", "not", "in", "is", "if", "else", "as", "for", "async"]

/-- A token may stand behind another one: behind the end of an operand no word but a connective. -/
def Joins (t u : Token) : Prop := t.endsOperand = true → u.kind = .word → u.text ∈ connectives

/-- Tokens that a rule takes off the front, each of which may stand behind the one before it.  If `a`, they stand
behind a token that ends no operand; if `b`, the last of them ends none either. -/
structure Linking (a b : Bool) (taken : List Token) : Prop where
  /-- Each may stand where it does. -/
  chain : ∀ t, (a = true → t.endsOperand = false) → (t :: taken).IsChain Joins
  /-- What the last one is. -/
  last : ∀ t, (a = true → t.endsOperand = false) → b = true → (taken.getLastD t).endsOperand = false

theorem Linking.nil (h : b = true → a = true) : Linking a b [] :=
  ⟨fun t _ => .singleton t, fun _ ht hb => ht (h hb)⟩

theorem Linking.append (h : Linking a b ts) (h' : Linking b c us) : Linking a c (ts ++ us) where
  chain := by
    intro t ht
    -- the tokens behind stand behind the last of those in front
    have hlast := h'.chain (ts.getLastD t) (h.last t ht)
    have hfront := h.chain t ht
    rw [← List.cons_append, List.isChain_append]
    refine ⟨hfront, hlast.tail, fun x hx y hy => ?_⟩
    obtain rfl : ts.getLastD t = x := by simpa [List.getLast?_cons] using hx
    exact hlast.rel_head? hy
  last := by
    intro t ht hc
    have hlast : (ts ++ us).getLastD t = us.getLastD (ts.getLastD t) := by
      simp only [List.getLastD_eq_getLast?, List.getLast?_append]
      cases us.getLast? <;> rfl
    rw [hlast]
    exact h'.last _ (h.last t ht) hc

/-- A reader takes tokens that link. -/
def LinksAs (a b : Bool) (f : Reader α) : Prop :=
  ∀ ⦃ts x rest⦄, f ts = some (x, rest) → ∃ taken, ts = taken ++ rest ∧ Linking a b taken

/-- Readers of inner expressions that take tokens that link, and stand behind what ends no operand. -/
def Linked (inner : Entry → Reader Expr) : Prop := ∀ e, LinksAs true false (inner e)

namespace Rule

/-- What a rule takes links. -/
def Links (a b : Bool) (r : Rule α) : Prop := ∀ ⦃inner⦄, Linked inner → LinksAs a b (r.run inner)

namespace Links

theorem taking (h : b = true → a = true) (x : α) : Links a b (Pure.pure x : Rule α) := by
  intro inner hin ts y rest hrun
  obtain ⟨-, rfl⟩ := Prod.mk.inj (Option.some.inj hrun)
  exact ⟨[], rfl, .nil h⟩

/-- What takes nothing leaves everything as it is. -/
theorem pure (x : α) : Links a a (Pure.pure x : Rule α) := taking id x

/-- Behind a token that ends no operand there is nothing to ask for. -/
theorem nothing (x : α) : Links true b (Pure.pure x : Rule α) := taking (fun _ => rfl) x

theorem fail : Links a b (Rule.fail : Rule α) := by
  intro inner hin ts x rest h
  cases h

theorem ahead (q : Ahead) : Links a a (.ahead q) := by
  intro inner hin ts x rest hrun
  obtain ⟨-, rfl⟩ := Prod.mk.inj (Option.some.inj hrun)
  exact ⟨[], rfl, .nil id⟩

theorem inner (e : Entry) : Links true false (.inner e) := fun _ hin => hin e

theorem bind {first : Rule α} {next : α → Rule β} (hf : Links a b first) (hn : ∀ x, Links b c (next x)) :
    Links a c (first >>= next) := by
  intro inner hin ts y rest hrun
  obtain ⟨x, mid, hfirst, hnext⟩ := run_bind_eq_some.1 hrun
  obtain ⟨taken, rfl, hlink⟩ := hf hin hfirst
  obtain ⟨taken', rfl, hlink'⟩ := hn x hin hnext
  exact ⟨taken ++ taken', by simp, hlink.append hlink'⟩

theorem ite {p : Bool} {yes no : Rule α} (hy : Links a b yes) (hn : Links a b no) :
    Links a b (if p then yes else no) := by
  cases p
  · exact hn
  · exact hy

theorem discard {r : Rule α} (h : Links a b r) : Links a b (discard r) := bind h fun _ => pure _

theorem many {go : Ahead} {r : Rule α} (h : Links a a r) : Links a a (.many go r) := by
  intro inner hin ts xs rest hrun
  simp only [run] at hrun
  fun_induction manyFrom go (r.run inner) ts generalizing xs rest with
  | case1 ts _ x mid hmid hlt more after hmore ih =>
    obtain ⟨-, rfl⟩ := Prod.mk.inj (Option.some.inj hrun)
    obtain ⟨taken, rfl, hlink⟩ := h hin hmid
    obtain ⟨taken', rfl, hlink'⟩ := ih hmore
    exact ⟨taken ++ taken', by simp, hlink.append hlink'⟩
  | case5 ts _ =>
    obtain ⟨-, rfl⟩ := Prod.mk.inj (Option.some.inj hrun)
    exact ⟨[], rfl, .nil id⟩
  | _ => simp at hrun

theorem withText {r : Rule α} (h : Links a b r) : Links a b (.withText r) := by
  rintro inner hin ts ⟨text, x⟩ rest hrun
  exact h hin (run_withText_eq_some.1 hrun).1

theorem node {kind : ExprKind} {parts : Rule (List Expr)} (h : Links a b parts) :
    Links a b (node kind parts) := bind (withText h) fun _ => pure _

theorem extendFrom_linksAs {start : List Token} {go : Ahead} {f : Reader (ExprKind × List Expr)}
    (h : LinksAs a a f) (e : Expr) : LinksAs a a (extendFrom start go f e) := by
  intro ts x rest hrun
  fun_induction extendFrom start go f e ts with
  | case1 e ts _ kind parts mid hmid hlt ih =>
    obtain ⟨taken, rfl, hlink⟩ := h hmid
    obtain ⟨taken', rfl, hlink'⟩ := ih hrun
    exact ⟨taken ++ taken', by simp, hlink.append hlink'⟩
  | case4 e ts _ =>
    obtain ⟨-, rfl⟩ := Prod.mk.inj (Option.some.inj hrun)
    exact ⟨[], rfl, .nil id⟩
  | _ => simp at hrun

theorem extend {first : Rule Expr} {go : Ahead} {step : Rule (ExprKind × List Expr)}
    (hf : Links a b first) (hs : Links b b step) : Links a b (.extend first go step) := by
  intro inner hin ts x rest hrun
  simp only [run] at hrun
  split at hrun
  · next e mid hmid =>
    obtain ⟨taken, rfl, hlink⟩ := hf hin hmid
    obtain ⟨taken', rfl, hlink'⟩ := extendFrom_linksAs (hs hin) e hrun
    exact ⟨taken ++ taken', by simp, hlink.append hlink'⟩
  · cases hrun

theorem byName {named plain : Rule α} (hn : Links a b named) (hp : Links a b plain) :
    Links a b (.byName named plain) := by
  intro inner hin ts x rest hrun
  simp only [run] at hrun
  split at hrun
  · next y mid hmid =>
    simp only [Option.ite_none_right_eq_some] at hrun
    obtain ⟨-, rfl⟩ := Prod.mk.inj (Option.some.inj hrun.2)
    split at hmid
    · exact hn hin hmid
    · exact hp hin hmid
  · cases hrun

/-! ## Single tokens -/

theorem linking_single {t : Token} (hword : a = true ∨ (t.kind = .word → t.text ∈ connectives))
    (hend : b = true → t.endsOperand = false) : Linking a b [t] where
  chain := by
    intro u hu
    refine List.isChain_pair.2 fun hends hkind => ?_
    rcases hword with ha | hword
    · rw [hu ha] at hends
      cases hends
    · exact hword hkind
  last := fun _ _ => hend

theorem take {p : Lexeme → Bool}
    (hword : ∀ l, p l = true → a = true ∨ (l.kind = .word → l.text ∈ connectives))
    (hend : ∀ l, p l = true → b = true → l.endsOperand = false) : Links a b (.take p) := by
  intro inner hin ts l rest hrun
  obtain ⟨t, rfl, rfl, hp⟩ := run_take_eq_some.1 hrun
  exact ⟨[t], rfl, linking_single (hword _ hp) (hend _ hp)⟩

/-- A token that is no word stands behind anything. -/
theorem takeKind {p : Lexeme → Bool} (h : ∀ l, p l = true → l.kind ≠ .word) : Links a false (.take p) :=
  take (fun l hl => .inr fun hkind => absurd hkind (h l hl)) fun _ _ hb => by cases hb

/-- Any symbol stands behind anything. -/
theorem closing (s : String) : Links a false (Rule.symbol s) := by
  refine discard (takeKind fun l hl hkind => ?_)
  simp [Lexeme.isSymbol, hkind] at hl

theorem endsOperand_of_isOneOf {ss : List String} (hs : ∀ s ∈ ss, s ∉ operandEnds) {l : Lexeme}
    (hl : isOneOf ss l = true) : l.kind ≠ .word ∧ l.endsOperand = false := by
  simp only [isOneOf, Bool.and_eq_true, beq_iff_eq, List.contains_iff_mem] at hl
  simp [Lexeme.endsOperand, hl.1, hs _ hl.2]

theorem oneOf {ss : List String} (hs : ∀ s ∈ ss, s ∉ operandEnds) : Links a b (.take (isOneOf ss)) :=
  take (fun _ hl => .inr fun hkind => absurd hkind (endsOperand_of_isOneOf hs hl).1)
    fun _ hl _ => (endsOperand_of_isOneOf hs hl).2

theorem symbol {s : String} (hs : s ∉ operandEnds) : Links a b (Rule.symbol s) := by
  have hone : Links a b (.take (isOneOf [s])) := oneOf (by simpa using hs)
  have hsame : (fun l : Lexeme => l.isSymbol s) = isOneOf [s] := by
    funext l
    simp [Lexeme.isSymbol, isOneOf, Bool.beq_eq_decide_eq]
  exact discard (hsame ▸ hone)

theorem takeWords {p : Lexeme → Bool} (hp : ∀ l, p l = true → l.kind = .word)
    (hword : ∀ l, p l = true → a = true ∨ l.text ∈ connectives) : Links a b (.take p) :=
  take (fun l hl => (hword l hl).imp_right fun hmem _ => hmem)
    fun l hl _ => by simp [Lexeme.endsOperand, hp l hl]

theorem isWord_iff {l : Lexeme} {w : String} (h : l.isWord w = true) : l.kind = .word ∧ l.text = w := by
  simpa [Lexeme.isWord] using h

/-- A connective stands behind anything. -/
theorem connective {w : String} (hw : w ∈ connectives) : Links a b (Rule.word w) :=
  discard (takeWords (fun _ hl => (isWord_iff hl).1) fun _ hl => .inr ((isWord_iff hl).2 ▸ hw))

/-- Any word stands behind what ends no operand. -/
theorem word (w : String) : Links true b (Rule.word w) :=
  discard (takeWords (fun _ hl => (isWord_iff hl).1) fun _ _ => .inl rfl)

theorem anyWord : Links true b anyWord :=
  bind (takeWords (fun _ hl => by simpa using hl) fun _ _ => .inl rfl) fun _ => pure _

theorem string (r : Rule α) : Links a false (.string r) := by
  intro inner hin ts x rest hrun
  cases ts with
  | nil => cases hrun
  | cons t ts =>
    simp only [run] at hrun
    split at hrun
    · next sources hkind =>
      simp only [Option.map_eq_some_iff, Prod.mk.injEq] at hrun
      obtain ⟨as, -, -, rfl⟩ := hrun
      exact ⟨[t], rfl, linking_single (.inr (by simp [hkind])) fun hb => by cases hb⟩
    · cases hrun

/-! ## Choices and lists -/

theorem require (p : Bool) : Links a a (require p) := ite (pure _) fail

theorem congr {r r' : Rule α} (h : ∀ inner, r.run inner = r'.run inner) (hr : Links a b r) :
    Links a b r' := by
  intro inner hin
  rw [← h inner]
  exact hr hin

/-- What is done after a symbol that may be next, and what is done without it. -/
theorem ifTaken {s : String} {yes no : Rule β} (hs : Links a b (Rule.symbol s)) (hyes : Links b c yes)
    (hno : Links a c no) : Links a c (takeSymbol s >>= fun found => if found then yes else no) := by
  have h : Links a c (atSymbol s >>= fun found => if found then Rule.symbol s >>= fun _ => yes else no) :=
    bind (ahead _) fun _ => ite (bind hs fun _ => hyes) hno
  exact h.congr fun inner => (run_takeSymbol s yes no inner).symm

theorem ifSymbol {s : String} {yes no : Rule β} (hs : s ∉ operandEnds) (hyes : Links true c yes)
    (hno : Links a c no) : Links a c (takeSymbol s >>= fun found => if found then yes else no) :=
  ifTaken (symbol hs) hyes hno

/-- What is done after a connective that may be next, and what is done without it. -/
theorem ifWord {w : String} {yes no : Rule β} (hw : w ∈ connectives) (hyes : Links true c yes)
    (hno : Links a c no) : Links a c (Rule.takeWord w >>= fun found => if found then yes else no) := by
  have h : Links a c (atWord w >>= fun found => if found then Rule.word w >>= fun _ => yes else no) :=
    bind (ahead _) fun _ => ite (bind (connective hw) fun _ => hyes) hno
  exact h.congr fun inner => (run_takeWord w yes no inner).symm

theorem takeWord {w : String} (hw : w ∈ connectives) : Links a a (takeWord w) :=
  bind (ahead _) fun _ => ite (bind (connective (b := a) hw) fun _ => pure _) (pure _)

theorem commaListTo {ended : Rule Bool} {p : Rule α} (he : Links true true ended) (hp : Links true b p) :
    Links true b (commaListTo ended p) := by
  refine bind hp fun _ => bind (many (bind (b := true) (symbol (by decide)) fun _ => ?_)) fun _ => pure _
  exact bind he fun _ => ite (nothing _) (bind hp fun _ => pure _)

theorem commaListUpTo {p : Rule α} (closer : String) (hp : Links true false p) :
    Links true false (commaListUpTo closer p) :=
  ifTaken (closing _) (pure _) (bind (commaListTo (ahead _) hp) fun _ => bind (closing _) fun _ => pure _)

theorem commaList {p : Rule α} (hp : Links true b p) : Links true b (commaList p) :=
  commaListTo (bind (ahead _) fun _ => pure _) hp

end Links

/-! ## The rules of the grammar -/

theorem leftChain_links {kind : ExprKind} {isOperator : Lexeme → Bool} {operand : Rule Expr}
    (ho : Links false true (.take isOperator)) (h : Links true false operand) :
    Links true false (leftChain kind isOperator operand) :=
  .extend h (.bind (.discard ho) fun _ => .bind h fun _ => .pure _)

theorem splat_links {kind : ExprKind} {sign : String} {operand : Rule Expr} (hs : sign ∉ operandEnds)
    (h : Links true false operand) : Links true false (splat kind sign operand) :=
  .node (.bind (.symbol hs) fun _ => .bind h fun _ => .pure _)

theorem element_links : Links true false element :=
  .bind (.ahead _) fun _ => .ite (splat_links (by decide) (.inner _)) (.inner _)

theorem yieldExpr_links : Links true false yieldExpr := by
  refine .node (.bind (b := true) (.word _) fun _ => ?_)
  have hfrom : Links true true (takeWord "from") :=
    .bind (.ahead _) fun _ => .ite (.bind (b := true) (.word _) fun _ => .pure _) (.pure _)
  refine .bind hfrom fun _ => .ite (.bind (.inner _) fun _ => .pure _) ?_
  refine .bind (.ahead _) fun _ => .ite (.bind (.commaList (.inner _)) fun _ => .pure _) (.nothing _)

theorem elementOrYield_links : Links true false elementOrYield :=
  .bind (.ahead _) fun _ => .ite yieldExpr_links element_links

theorem lambdaParam_links : Links true false lambdaParam := by
  refine .ifSymbol (by decide) (.discard .anyWord) (.ifSymbol (by decide) ?_ ?_)
  · exact .bind (.ahead _) fun _ => .ite (.discard .anyWord) (.nothing _)
  · refine .ifSymbol (by decide) (.nothing _) (.bind (b := true) (.discard .anyWord) fun _ => ?_)
    exact .ifSymbol (by decide) (.discard (.inner _)) (.nothing _)

theorem lambdaExpr_links : Links true false lambdaExpr := by
  have body : ∀ a, Links a false (do symbol ":"; return [← .inner .full] : Rule (List Expr)) :=
    fun a => .bind (b := true) (.symbol (by decide)) fun _ => .bind (.inner _) fun _ => .pure _
  refine .node (.bind (b := true) (.word _) fun _ => .bind (.ahead _) fun _ => .ite ?_ (body _))
  exact .bind (.discard (.commaListTo (.ahead _) lambdaParam_links)) fun _ => body _

theorem stringExpr_links : Links a false stringExpr := .bind (.string _) fun _ => .pure _

theorem stringsExpr_links : Links true false stringsExpr := by
  refine .bind (.withText (.bind stringExpr_links fun _ => ?_)) fun _ => .ite (.pure _) (.pure _)
  exact .bind (.many stringExpr_links) fun _ => .pure _

theorem namedArgument_links : Links true false namedArgument :=
  .node (.bind (b := true) .anyWord fun _ => .bind (b := true) (.symbol (by decide)) fun _ =>
    .bind (.inner _) fun _ => .pure _)

theorem argument_links : Links true false argument := by
  refine .bind (.ahead _) fun _ => .ite (splat_links (by decide) (.inner _)) ?_
  refine .bind (.ahead _) fun _ => .ite (splat_links (by decide) (.inner _)) ?_
  exact .byName namedArgument_links (.inner _)

theorem sliceBound_links : Links true false sliceBound :=
  .bind (.ahead _) fun _ => .ite (.nothing _) (.bind (.inner _) fun _ => .pure _)

theorem sliceStep_links : Links false false sliceStep :=
  .ifSymbol (by decide) sliceBound_links (.pure _)

theorem subscriptItem_links : Links true false subscriptItem := by
  refine .bind (b := false) (.withText (.bind sliceBound_links fun low => ?_)) ?_
  · refine .ifSymbol (by decide) ?_ (.pure _)
    exact .bind sliceBound_links fun _ => .bind sliceStep_links fun _ => .pure _
  · rintro ⟨text, low, isSlice, more⟩
    refine .ite (.pure _) ?_
    match low with
    | [only] => exact .pure _
    | [] | _ :: _ :: _ => exact .fail

theorem loopTarget_links : Links true false loopTarget := by
  refine .bind (.ahead _) fun _ => .bind (.require _) fun _ => .bind (.ahead _) fun _ => .ite ?_ ?_
  · exact .bind (splat_links (by decide) (.inner _)) fun _ => .bind (.require _) fun _ => .pure _
  · exact .bind (.inner _) fun _ => .bind (.require _) fun _ => .pure _

theorem loopTargets_links : Links true false loopTargets :=
  .bind (.commaListTo (.ahead _) loopTarget_links) fun _ => .pure _

theorem forClause_links : Links false false forClause := by
  refine .node (.bind (.discard (.takeWord (by decide))) fun _ => ?_)
  refine .bind (b := true) (.connective (by decide)) fun _ => .bind loopTargets_links fun _ => ?_
  exact .bind (b := true) (.connective (by decide)) fun _ => .bind (.inner _) fun _ => .pure _

theorem ifClause_links : Links false false ifClause :=
  .node (.bind (b := true) (.connective (by decide)) fun _ => .bind (.inner _) fun _ => .pure _)

theorem clauses_links : Links false false clauses := by
  refine .bind forClause_links fun _ => .bind (.many ?_) fun _ => .pure _
  exact .bind (.ahead _) fun _ => .ite ifClause_links forClause_links

theorem contents_links (closing : String) (comprehension several only : ExprKind) :
    Links true false (contents closing comprehension several only) := by
  have one : ∀ x : ExprKind × List Expr, Links false false (do symbol closing; return x) :=
    fun x => .bind (.closing _) fun _ => .pure _
  refine .bind elementOrYield_links fun first => .bind (.ahead _) fun _ => .ite ?_ ?_
  · exact .bind clauses_links fun _ => one _
  · refine .ifSymbol (by decide) ?_ (one _)
    exact .bind (.commaListUpTo _ elementOrYield_links) fun _ => .pure _

theorem parenthesized_links : Links true false parenthesized := by
  refine .bind (.withText (.bind (b := true) (.symbol (by decide)) fun _ => ?_)) fun _ => .pure _
  exact .ifTaken (.closing _) (.pure _) (contents_links _ _ _ _)

theorem bracketed_links : Links true false bracketed := by
  refine .bind (.withText (.bind (b := true) (.symbol (by decide)) fun _ => ?_)) fun _ => .pure _
  exact .ifTaken (.closing _) (.pure _) (contents_links _ _ _ _)

theorem entry_links : Links true false entry := by
  refine .bind (.ahead _) fun _ => .ite (splat_links (by decide) (.inner _)) (.node ?_)
  exact .bind (.inner _) fun _ => .bind (b := true) (.symbol (by decide)) fun _ =>
    .bind (.inner _) fun _ => .pure _

theorem firstEntry_links : Links true false firstEntry := by
  refine .bind (b := false) (.withText (.bind elementOrYield_links fun first => ?_)) ?_
  · exact .ifSymbol (by decide) (.bind (.inner _) fun _ => .pure _) (.pure _)
  · rintro ⟨text, parts⟩
    match parts with
    | [only] => exact .pure _
    | [] | _ :: _ :: _ => exact .pure _

theorem braced_links : Links true false braced := by
  refine .bind (.withText (.bind (b := true) (.symbol (by decide)) fun _ => ?_)) fun _ => .pure _
  have one : ∀ x : ExprKind × List Expr, Links false false (do symbol braceClosing; return x) :=
    fun x => .bind (.closing _) fun _ => .pure _
  have list : ∀ {p : Rule Expr} (f : List Expr → ExprKind × List Expr), Links true false p →
      Links true false (do return f (← commaListUpTo braceClosing p)) :=
    fun f hp => .bind (.commaListUpTo _ hp) fun _ => .pure _
  refine .ifTaken (.closing _) (.pure _) (.bind (.ahead _) fun _ => .ite (list _ entry_links) ?_)
  refine .bind firstEntry_links fun first => .bind (.ahead _) fun _ => .ite ?_ ?_
  · exact .bind clauses_links fun _ => one _
  · refine .ifSymbol (by decide) (list _ ?_) (one _)
    exact .ite entry_links elementOrYield_links

theorem starred_links : Links true false starred :=
  splat_links (by decide) (.bind (.inner _) fun _ => .bind (.require _) fun _ => .pure _)

theorem wordExpr_links : Links true b wordExpr :=
  .bind (.takeWords (fun _ hl => (by simpa using hl : _ ∧ _).1) fun _ _ => .inl rfl) fun _ => .pure _

theorem leaf_links {kind : ExprKind} {p : Lexeme → Bool} (h : ∀ l, p l = true → l.kind ≠ .word) :
    Links a false (leaf kind p) := .bind (.takeKind h) fun _ => .pure _

theorem atom_links : Links true false atom := by
  refine .bind (.ahead _) fun _ => .ite wordExpr_links (.bind (.ahead _) fun _ => .ite (leaf_links ?_) ?_)
  · intro l hl
    simp_all
  refine .bind (.ahead _) fun _ => .ite (leaf_links ?_) ?_
  · intro l hl
    simp_all
  refine .bind (.ahead _) fun _ => .ite stringsExpr_links (.bind (.ahead _) fun _ => .ite parenthesized_links ?_)
  refine .bind (.ahead _) fun _ => .ite bracketed_links (.bind (.ahead _) fun _ => .ite braced_links ?_)
  refine .bind (.ahead _) fun _ => .ite starred_links (leaf_links fun l hl hkind => ?_)
  simp [Lexeme.isSymbol, hkind] at hl

theorem callArguments_links : Links true false callArguments := by
  have one : ∀ x : List Expr, Links false false (do symbol ")"; return x) :=
    fun x => .bind (.closing _) fun _ => .pure _
  refine .ifTaken (.closing _) (.pure _) (.bind argument_links fun first => .bind (.ahead _) fun _ => .ite ?_ ?_)
  · exact .bind clauses_links fun _ => one _
  · refine .ifSymbol (by decide) ?_ (one _)
    exact .bind (.commaListUpTo _ argument_links) fun _ => .pure _

theorem trailer_links : Links false false trailer := by
  refine .ifSymbol (by decide) (.bind .anyWord fun _ => .pure _) ?_
  refine .ifSymbol (by decide) (.bind callArguments_links fun _ => .pure _) ?_
  refine .bind (b := true) (.symbol (by decide)) fun _ => ?_
  exact .bind (.commaListTo (.ahead _) subscriptItem_links) fun _ => .bind (.closing _) fun _ => .pure _

theorem power_links : Links true false power := by
  refine .bind (.ahead _) fun _ => .ite (.node (.bind (b := true) (.word _) fun _ => ?_)) ?_
  · exact .bind (.inner _) fun _ => .pure _
  · refine .extend (.extend atom_links trailer_links) (.bind (b := true) (.symbol (by decide)) fun _ => ?_)
    exact .bind (.inner _) fun _ => .pure _

theorem unaryExpr_links : Links true false unaryExpr := by
  refine .bind (.ahead _) fun _ => .ite (.node ?_) power_links
  exact .bind (b := true) (.discard (.oneOf (by decide))) fun _ => .bind (.inner _) fun _ => .pure _

theorem binaryExpr_links : Links true false binaryExpr :=
  leftChain_links (.oneOf (by decide)) <| leftChain_links (.oneOf (by decide)) <|
    leftChain_links (.oneOf (by decide)) <| leftChain_links (.oneOf (by decide)) <|
    leftChain_links (.oneOf (by decide)) <| leftChain_links (.oneOf (by decide)) unaryExpr_links

theorem startsComparison_links : Links false true (.take startsComparison) := by
  have hsymbols : ∀ s ∈ ["<", "<=", "==", "!=", ">=", ">", "<>"], s ∉ operandEnds := by decide
  have hwords : ∀ w ∈ ["in", "not", "is"], w ∈ connectives := by decide
  have hcases : ∀ l, startsComparison l = true → (l.kind = .word ∧ l.text ∈ ["in", "not", "is"]) ∨
      isOneOf ["<", "<=", "==", "!=", ">=", ">", "<>"] l = true := by
    intro l hl
    simp only [startsComparison, Bool.or_eq_true] at hl
    rcases hl with ((hl | hl) | hl) | hl
    · exact .inl ((Links.isWord_iff hl).imp_right (by simp [·]))
    · exact .inl ((Links.isWord_iff hl).imp_right (by simp [·]))
    · exact .inl ((Links.isWord_iff hl).imp_right (by simp [·]))
    · exact .inr hl
  refine .take (fun l hl => .inr fun hkind => ?_) fun l hl _ => ?_
  · rcases hcases l hl with ⟨-, hmem⟩ | hsymbol
    · exact hwords _ hmem
    · exact absurd hkind (Links.endsOperand_of_isOneOf hsymbols hsymbol).1
  · rcases hcases l hl with ⟨hkind, -⟩ | hsymbol
    · simp [Lexeme.endsOperand, hkind]
    · exact (Links.endsOperand_of_isOneOf hsymbols hsymbol).2

theorem comparisonOperator_links : Links false true comparisonOperator := by
  refine .ifWord (by decide) (.nothing _) (.ifWord (by decide) (.word _) (.ifWord (by decide) ?_ ?_))
  · exact .discard (.takeWord (by decide))
  · exact .discard startsComparison_links

theorem comparisonExpr_links : Links true false comparisonExpr := by
  refine .bind (.withText (.bind binaryExpr_links fun _ => .bind (.many ?_) fun _ => .pure _)) ?_
  · exact .bind comparisonOperator_links fun _ => binaryExpr_links
  · exact fun _ => .ite (.pure _) (.pure _)

theorem negationExpr_links : Links true false negationExpr := by
  refine .bind (.ahead _) fun _ => .ite (.node (.bind (b := true) (.word _) fun _ => ?_)) comparisonExpr_links
  exact .bind (.inner _) fun _ => .pure _

theorem takeConnective_links {w : String} (hw : w ∈ connectives) : Links a b (.take (·.isWord w)) :=
  .takeWords (fun _ hl => (Links.isWord_iff hl).1) fun _ hl => .inr ((Links.isWord_iff hl).2 ▸ hw)

theorem disjunctionExpr_links : Links true false disjunctionExpr :=
  leftChain_links (takeConnective_links (by decide)) <|
    leftChain_links (takeConnective_links (by decide)) negationExpr_links

theorem plainExpr_links : Links true false plainExpr := by
  refine .bind (.ahead _) fun _ => .ite lambdaExpr_links (.bind (b := false) (.withText ?_) ?_)
  · refine .bind disjunctionExpr_links fun e => .ifWord (by decide) ?_ (.ite ?_ (.pure _))
    · refine .bind (.inner _) fun _ => .bind (b := true) (.connective (by decide)) fun _ => ?_
      exact .bind (.inner _) fun _ => .pure _
    · exact .ifSymbol (by decide) (.bind (.inner _) fun _ => .pure _) (.pure _)
  · exact fun _ => .ite (.pure _) (.pure _)

theorem fullExpr_links : Links true false fullExpr :=
  .extend plainExpr_links (.bind (b := true) (.connective (by decide)) fun _ =>
    .bind (.inner _) fun _ => .pure _)

end Rule

theorem ruleOf_links (e : Entry) : Rule.Links true false (ruleOf e) := by
  cases e with
  | full => exact fullExpr_links
  | disjunction => exact disjunctionExpr_links
  | negation => exact negationExpr_links
  | unary => exact unaryExpr_links

/-- **Behind the end of an operand no word stands in an expression but a connective.** -/
theorem expression_links : Linked expression := by
  intro e ts
  induction hw : weight ts using Nat.strongRecOn generalizing ts e with
  | _ w ih =>
    intro found rest hrun
    subst hw
    obtain ⟨inside, hinside, -⟩ := expression_eq_some.1 hrun
    refine ruleOf_links e (fun e us a rest h => ?_) hinside
    simp only [innerOf, Option.ite_none_right_eq_some] at h
    exact ih _ h.1 e rfl h.2

end TypedStubs.Syntax
