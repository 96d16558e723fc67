import TypedStubs.Proofs.Syntax.Expression
import TypedStubs.Proofs.Syntax.Scanner

/-! # Rules close the brackets they open

What a rule takes holds no comment and no semicolon, and each bracket that it opens it closes again.
A rule is part of a larger one between brackets, so `Nets a b` says that where `a` brackets are open
before what a rule takes, `b` are open after it (and likewise with more brackets around).  Every
expression nets as many as before (`expression_nets`).
-/
namespace TypedStubs.Syntax

open Rule

variable {α β : Type}

/-- Whether a lexeme is neither a comment nor a semicolon. -/
def Lexeme.isOrdinary (l : Lexeme) : Bool := !l.isComment && !l.isSymbol ";"

/-- Tokens that a rule takes off the front: ordinary ones, after which `b` brackets are open where `a`
were open before them. -/
structure Netting (a b : Nat) (taken : List Token) : Prop where
  /-- There is no comment and no semicolon among them. -/
  ordinary : ∀ t ∈ taken, t.isOrdinary = true
  /-- How many brackets are open after them. -/
  level : ∀ d, depthThrough (d + a) taken = d + b

theorem Netting.nil (a : Nat) : Netting a a [] := ⟨fun t ht => by simp at ht, fun d => rfl⟩

theorem Netting.append {a b c : Nat} {ts us : List Token} (h : Netting a b ts) (h' : Netting b c us) :
    Netting a c (ts ++ us) where
  ordinary := fun t ht => (List.mem_append.1 ht).elim (h.ordinary t) (h'.ordinary t)
  level := fun d => by rw [depthThrough_append, h.level, h'.level]

theorem Netting.up {a b : Nat} {ts : List Token} (h : Netting a b ts) (k : Nat) :
    Netting (a + k) (b + k) ts where
  ordinary := h.ordinary
  level := fun d => by
    have := h.level (d + k)
    rw [Nat.add_right_comm, Nat.add_right_comm d k b] at this
    rwa [← Nat.add_assoc, ← Nat.add_assoc]

/-- A reader that takes tokens off the front that net `b` brackets where `a` are open. -/
def Opens (a b : Nat) (f : Reader α) : Prop :=
  ∀ ⦃ts x rest⦄, f ts = some (x, rest) → ∃ taken, ts = taken ++ rest ∧ Netting a b taken

/-- Readers of inner expressions that close the brackets they open. -/
def Balanced (inner : Entry → Reader Expr) : Prop := ∀ e, Opens 0 0 (inner e)

namespace Rule

/-- What a rule takes nets `b` brackets where `a` are open. -/
def Nets (a b : Nat) (r : Rule α) : Prop := ∀ ⦃inner⦄, Balanced inner → Opens a b (r.run inner)

namespace Nets

variable {a b c : Nat}

theorem pure (x : α) : Nets a a (Pure.pure x : Rule α) := by
  intro inner hin ts y rest h
  simp only [Pure.pure, run, Option.some.injEq, Prod.mk.injEq] at h
  exact ⟨[], h.2 ▸ rfl, .nil a⟩

theorem fail : Nets a b (Rule.fail : Rule α) := by
  intro inner hin ts x rest h
  simp [run] at h

theorem take {p : Lexeme → Bool}
    (h : ∀ l, p l = true → l.isOrdinary = true ∧ ∀ d, depthAfter (d + a) l = d + b) :
    Nets a b (.take p) := by
  intro inner hin ts l rest hrun
  cases ts with
  | nil => simp [run] at hrun
  | cons t ts =>
    simp only [run, Option.ite_none_right_eq_some, Option.some.injEq, Prod.mk.injEq] at hrun
    obtain ⟨hp, rfl, rfl⟩ := hrun
    refine ⟨[t], rfl, fun u hu => ?_, fun d => ?_⟩
    · obtain rfl : u = t := by simpa using hu
      exact (h _ hp).1
    · exact (h _ hp).2 d

theorem ahead (q : Ahead) : Nets a a (.ahead q) := by
  intro inner hin ts x rest h
  simp only [run, Option.some.injEq, Prod.mk.injEq] at h
  exact ⟨[], h.2 ▸ rfl, .nil a⟩

theorem inner (e : Entry) : Nets a a (.inner e) := by
  intro inner hin ts x rest h
  obtain ⟨taken, rfl, hnet⟩ := hin e h
  exact ⟨taken, rfl, by simpa using hnet.up a⟩

theorem bind {first : Rule α} {next : α → Rule β} (hf : Nets a b first)
    (hn : ∀ x, Nets b c (next x)) : Nets a c (first >>= next) := by
  intro inner hin ts y rest h
  simp only [Bind.bind, run_bind] at h
  split at h
  · next x mid hmid =>
    obtain ⟨taken, rfl, hnet⟩ := hf hin hmid
    obtain ⟨taken', rfl, hnet'⟩ := hn x hin h
    exact ⟨taken ++ taken', by simp, hnet.append hnet'⟩
  · simp at h

theorem ite {p : Bool} {yes no : Rule α} (hy : Nets a b yes) (hn : Nets a b no) :
    Nets a b (if p then yes else no) := by
  cases p
  · exact hn
  · exact hy

theorem discard {r : Rule α} (h : Nets a b r) : Nets a b (discard r) := bind h fun _ => pure _

theorem many {go : Ahead} {r : Rule α} (h : Nets a a r) : Nets a a (.many go r) := by
  intro inner hin ts xs rest hrun
  simp only [run] at hrun
  fun_induction manyFrom go (r.run inner) ts generalizing xs rest with
  | case1 ts _ x mid hmid hlt more after hmore ih =>
    obtain ⟨-, rfl⟩ := Prod.mk.inj (Option.some.inj hrun)
    obtain ⟨taken, rfl, hnet⟩ := h hin hmid
    obtain ⟨taken', rfl, hnet'⟩ := ih hmore
    exact ⟨taken ++ taken', by simp, hnet.append hnet'⟩
  | case5 ts _ =>
    obtain ⟨-, rfl⟩ := Prod.mk.inj (Option.some.inj hrun)
    exact ⟨[], rfl, .nil a⟩
  | _ => simp at hrun

theorem withText {r : Rule α} (h : Nets a b r) : Nets a b (.withText r) := by
  intro inner hin ts x rest hrun
  simp only [run] at hrun
  split at hrun
  · next y mid hmid =>
    obtain ⟨-, rfl⟩ := Prod.mk.inj (Option.some.inj hrun)
    exact h hin hmid
  · simp at hrun

theorem extendFrom_opens {start : List Token} {go : Ahead} {f : Reader (ExprKind × List Expr)}
    (h : Opens a a f) (e : Expr) : Opens a a (extendFrom start go f e) := by
  intro ts x rest hrun
  fun_induction extendFrom start go f e ts with
  | case1 e ts _ kind parts mid hmid hlt ih =>
    obtain ⟨taken, rfl, hnet⟩ := h hmid
    obtain ⟨taken', rfl, hnet'⟩ := ih hrun
    exact ⟨taken ++ taken', by simp, hnet.append hnet'⟩
  | case4 e ts _ =>
    obtain ⟨-, rfl⟩ := Prod.mk.inj (Option.some.inj hrun)
    exact ⟨[], rfl, .nil a⟩
  | _ => simp at hrun

theorem extend {first : Rule Expr} {go : Ahead} {step : Rule (ExprKind × List Expr)}
    (hf : Nets a b first) (hs : Nets b b step) : Nets a b (.extend first go step) := by
  intro inner hin ts x rest hrun
  simp only [run] at hrun
  split at hrun
  · next e mid hmid =>
    obtain ⟨taken, rfl, hnet⟩ := hf hin hmid
    obtain ⟨taken', rfl, hnet'⟩ := extendFrom_opens (hs hin) e hrun
    exact ⟨taken ++ taken', by simp, hnet.append hnet'⟩
  · simp at hrun

theorem byName {named plain : Rule α} (hnamed : Nets a b named) (hplain : Nets a b plain) :
    Nets a b (.byName named plain) := by
  intro inner hin ts x rest hrun
  simp only [run] at hrun
  split at hrun
  · next y mid hmid =>
    simp only [Option.ite_none_right_eq_some, Option.some.injEq, Prod.mk.injEq] at hrun
    obtain ⟨-, rfl, rfl⟩ := hrun
    split at hmid
    · exact hnamed hin hmid
    · exact hplain hin hmid
  · simp at hrun

theorem string (r : Rule α) : Nets a a (.string r) := by
  intro inner hin ts x rest hrun
  cases ts with
  | nil => simp [run] at hrun
  | cons t ts =>
    simp only [run] at hrun
    split at hrun
    · next sources hkind =>
      simp only [Option.map_eq_some_iff, Prod.mk.injEq] at hrun
      obtain ⟨as, -, -, rfl⟩ := hrun
      refine ⟨[t], rfl, fun u hu => ?_, fun d => ?_⟩
      · obtain rfl : u = t := by simpa using hu
        simp [Lexeme.isOrdinary, Lexeme.isComment, Lexeme.isSymbol, hkind]
      · simp [depthAfter, hkind]
    · simp at hrun

theorem node {kind : ExprKind} {parts : Rule (List Expr)} (h : Nets a b parts) :
    Nets a b (node kind parts) := bind (withText h) fun _ => pure _

/-! ### Single tokens -/

/-- The symbols that open brackets. -/
def openings : List String := ["(", "[", braceOpening]

/-- The symbols that close brackets. -/
def closings : List String := [")", "]", braceClosing]

theorem chars_of_isSymbol {l : Lexeme} {s : String} (h : l.isSymbol s = true) :
    l.kind = .symbol ∧ l.chars = s.toList := by
  simp only [Lexeme.isSymbol, Lexeme.text, Bool.and_eq_true, beq_iff_eq] at h
  exact ⟨h.1, by rw [← h.2, String.toList_ofList]⟩

theorem ordinary_of_isSymbol {l : Lexeme} {s : String} (h : l.isSymbol s = true) (hs : s ≠ ";") :
    l.isOrdinary = true := by
  simp only [Lexeme.isSymbol, Bool.and_eq_true, beq_iff_eq] at h
  simp [Lexeme.isOrdinary, Lexeme.isComment, Lexeme.isSymbol, h.1, h.2, hs]

theorem ordinary_of_kind {l : Lexeme} (hc : l.kind ≠ .comment) (hs : l.kind ≠ .symbol) :
    l.isOrdinary = true := by
  simp [Lexeme.isOrdinary, Lexeme.isComment, Lexeme.isSymbol, hc, hs]

theorem depthAfter_of_kind {l : Lexeme} (h : l.kind ≠ .symbol) (d : Nat) : depthAfter d l = d := by
  simp [depthAfter, h]

theorem depthAfter_opening {l : Lexeme} {s : String} (h : l.isSymbol s = true) (hs : s ∈ openings)
    (d : Nat) : depthAfter d l = d + 1 := by
  obtain ⟨hkind, hchars⟩ := chars_of_isSymbol h
  have hmem : ∀ s ∈ openings, [['('], ['['], [openBrace]].contains s.toList = true := by decide
  simp only [depthAfter, hkind, hchars]
  rw [if_neg (by decide), if_pos (hmem s hs)]

theorem depthAfter_closing {l : Lexeme} {s : String} (h : l.isSymbol s = true) (hs : s ∈ closings)
    (d : Nat) : depthAfter d l = d - 1 := by
  obtain ⟨hkind, hchars⟩ := chars_of_isSymbol h
  have hmem : ∀ s ∈ closings, [['('], ['['], [openBrace]].contains s.toList = false ∧
      [[')'], [']'], [closeBrace]].contains s.toList = true := by decide
  obtain ⟨hopen, hclose⟩ := hmem s hs
  simp only [depthAfter, hkind, hchars]
  rw [if_neg (by decide), if_neg (by rw [hopen]; decide), if_pos hclose]

theorem depthAfter_symbol {l : Lexeme} {s : String} (h : l.isSymbol s = true)
    (ho : s ∉ openings) (hc : s ∉ closings) (d : Nat) : depthAfter d l = d := by
  obtain ⟨hkind, hchars⟩ := chars_of_isSymbol h
  have hno {bracket : String} (hb : s ≠ bracket) : s.toList ≠ bracket.toList :=
    fun heq => hb (String.toList_inj.1 heq)
  simp only [openings, closings, List.mem_cons, List.not_mem_nil, or_false, not_or] at ho hc
  simp only [depthAfter, hkind, hchars]
  rw [if_neg (by decide), if_neg, if_neg]
  · have h1 := hno hc.1
    have h2 := hno hc.2.1
    have h3 := hno hc.2.2
    simp only [List.contains_cons, List.contains_nil, Bool.or_false, Bool.or_eq_true, beq_iff_eq]
    rintro (h | h | h)
    · exact h1 h
    · exact h2 h
    · exact h3 (h.trans (by decide))
  · have h1 := hno ho.1
    have h2 := hno ho.2.1
    have h3 := hno ho.2.2
    simp only [List.contains_cons, List.contains_nil, Bool.or_false, Bool.or_eq_true, beq_iff_eq]
    rintro (h | h | h)
    · exact h1 h
    · exact h2 h
    · exact h3 (h.trans (by decide))

/-- A symbol that is no bracket. -/
structure IsPlain (s : String) : Prop where
  /-- It opens none. -/
  opening : s ∉ openings
  /-- It closes none. -/
  closing : s ∉ closings
  /-- It separates no statements. -/
  semicolon : s ≠ ";"

instance (s : String) : Decidable (IsPlain s) :=
  decidable_of_iff (s ∉ openings ∧ s ∉ closings ∧ s ≠ ";")
    ⟨fun ⟨h1, h2, h3⟩ => ⟨h1, h2, h3⟩, fun ⟨h1, h2, h3⟩ => ⟨h1, h2, h3⟩⟩

theorem symbol {s : String} (h : IsPlain s) : Nets a a (symbol s) :=
  discard (take fun _ hl =>
    ⟨ordinary_of_isSymbol hl h.semicolon, fun _ => depthAfter_symbol hl h.opening h.closing _⟩)

/-- Symbols that open and close nothing. -/
theorem plain_of_isOneOf {ss : List String} (h : ∀ s ∈ ss, IsPlain s) {l : Lexeme}
    (hl : isOneOf ss l = true) : l.isOrdinary = true ∧ ∀ d, depthAfter d l = d := by
  simp only [isOneOf, Bool.and_eq_true, beq_iff_eq, List.contains_iff_mem] at hl
  have hsymbol : l.isSymbol l.text = true := by simp [Lexeme.isSymbol, hl.1]
  obtain ⟨ho, hc, hs⟩ := h _ hl.2
  exact ⟨ordinary_of_isSymbol hsymbol hs, depthAfter_symbol hsymbol ho hc⟩

theorem oneOf {ss : List String} (h : ∀ s ∈ ss, IsPlain s) : Nets a a (.take (isOneOf ss)) :=
  take fun _ hl => ⟨(plain_of_isOneOf h hl).1, fun _ => (plain_of_isOneOf h hl).2 _⟩

theorem opening {s : String} (h : s ∈ openings) : Nets a (a + 1) (Rule.symbol s) := by
  refine discard (take fun _ hl => ⟨ordinary_of_isSymbol hl ?_, fun d => ?_⟩)
  · rintro rfl
    revert h
    decide
  · rw [depthAfter_opening hl h]
    rfl

theorem closing {s : String} (h : s ∈ closings) : Nets (a + 1) a (Rule.symbol s) := by
  refine discard (take fun _ hl => ⟨ordinary_of_isSymbol hl ?_, fun d => ?_⟩)
  · rintro rfl
    revert h
    decide
  · rw [depthAfter_closing hl h]
    rfl

/-- Takes a token of a kind that is no symbol and no comment. -/
theorem takeKind {p : Lexeme → Bool} (h : ∀ l, p l = true → l.kind ≠ .comment ∧ l.kind ≠ .symbol) :
    Nets a a (.take p) :=
  take fun l hl => ⟨ordinary_of_kind (h l hl).1 (h l hl).2, fun _ => depthAfter_of_kind (h l hl).2 _⟩

theorem word (w : String) : Nets a a (word w) := by
  refine discard (takeKind fun l hl => ?_)
  simp only [Lexeme.isWord, Bool.and_eq_true, beq_iff_eq] at hl
  simp [hl.1]

theorem anyWord : Nets a a anyWord := by
  refine bind (takeKind fun l hl => ?_) fun _ => pure _
  simp_all

theorem require (p : Bool) : Nets a a (require p) := ite (pure _) fail

theorem congr {r r' : Rule α} (h : ∀ inner, r.run inner = r'.run inner) (hr : Nets a b r) :
    Nets a b r' := by
  intro inner hin
  rw [← h inner]
  exact hr hin

/-- What is done after a symbol that may be next, and what is done without it. -/
theorem ifSymbol {s : String} {yes no : Rule β} (hs : Nets a b (Rule.symbol s)) (hyes : Nets b c yes)
    (hno : Nets a c no) : Nets a c (takeSymbol s >>= fun found => if found then yes else no) := by
  have h : Nets a c (atSymbol s >>= fun found =>
      if found then Rule.symbol s >>= fun _ => yes else no) :=
    bind (ahead _) fun _ => ite (bind hs fun _ => hyes) hno
  exact h.congr fun inner => (run_takeSymbol s yes no inner).symm

theorem takeSymbol {s : String} (h : IsPlain s) : Nets a a (takeSymbol s) :=
  bind (ahead _) fun _ => ite (bind (symbol h) fun _ => pure _) (pure _)

theorem takeWord (w : String) : Nets a a (takeWord w) :=
  bind (ahead _) fun _ => ite (bind (word w) fun _ => pure _) (pure _)

theorem maybe {test : Rule Bool} {r : Rule α} (ht : Nets a a test) (hr : Nets a a r) :
    Nets a a (maybe test r) := bind ht fun _ => ite (bind hr fun _ => pure _) (pure _)

theorem commaListTo {ended : Rule Bool} {p : Rule α} (he : Nets a a ended) (hp : Nets a a p) :
    Nets a a (commaListTo ended p) := by
  refine bind hp fun _ => bind (many (bind (symbol (by decide)) fun _ => ?_)) fun _ => pure _
  exact bind he fun _ => ite (pure _) (bind hp fun _ => pure _)

theorem commaListUpTo {closer : String} {p : Rule α} (hc : closer ∈ closings)
    (hp : Nets (a + 1) (a + 1) p) : Nets (a + 1) a (commaListUpTo closer p) := by
  refine ifSymbol (closing hc) (pure _) (bind (commaListTo (ahead _) hp) fun _ => ?_)
  exact bind (closing hc) fun _ => pure _

theorem commaList {p : Rule α} (hp : Nets a a p) : Nets a a (commaList p) :=
  commaListTo (bind (ahead _) fun _ => pure _) hp

end Nets

/-! ## The rules of the grammar -/

variable {a : Nat}

theorem leftChain_nets {kind : ExprKind} {isOperator : Lexeme → Bool} {operand : Rule Expr}
    (ho : Nets a a (.take isOperator)) (h : Nets a a operand) :
    Nets a a (leftChain kind isOperator operand) :=
  .extend h (.bind (.discard ho) fun _ => .bind h fun _ => .pure _)

theorem splat_nets {kind : ExprKind} {sign : String} {operand : Rule Expr} (hs : Nets.IsPlain sign)
    (h : Nets a a operand) : Nets a a (splat kind sign operand) :=
  .node (.bind (.symbol hs) fun _ => .bind h fun _ => .pure _)

theorem element_nets : Nets a a element :=
  .bind (.ahead _) fun _ => .ite (splat_nets (by decide) (.inner _)) (.inner _)

theorem yieldExpr_nets : Nets a a yieldExpr := by
  refine .node (.bind (.word _) fun _ => .bind (.takeWord _) fun _ => .ite ?_ ?_)
  · exact .bind (.inner _) fun _ => .pure _
  · exact .bind (.ahead _) fun _ => .ite (.bind (.commaList (.inner _)) fun _ => .pure _) (.pure _)

theorem elementOrYield_nets : Nets a a elementOrYield :=
  .bind (.ahead _) fun _ => .ite yieldExpr_nets element_nets

theorem lambdaParam_nets : Nets a a lambdaParam := by
  refine .bind (.takeSymbol (by decide)) fun _ => .ite (.discard .anyWord) ?_
  refine .bind (.takeSymbol (by decide)) fun _ => .ite ?_ ?_
  · exact .bind (.ahead _) fun _ => .ite (.discard .anyWord) (.pure _)
  · refine .bind (.takeSymbol (by decide)) fun _ => .ite (.pure _) ?_
    refine .bind (.discard .anyWord) fun _ => .bind (.takeSymbol (by decide)) fun _ => ?_
    exact .ite (.discard (.inner _)) (.pure _)

theorem lambdaExpr_nets : Nets a a lambdaExpr := by
  have body : Nets a a (do symbol ":"; return [← .inner .full] : Rule (List Expr)) :=
    .bind (.symbol (by decide)) fun _ => .bind (.inner _) fun _ => .pure _
  refine .node (.bind (.word _) fun _ => .bind (.ahead _) fun _ => .ite ?_ body)
  exact .bind (.discard (.commaListTo (.ahead _) lambdaParam_nets)) fun _ => body

theorem stringExpr_nets : Nets a a stringExpr := .bind (.string _) fun _ => .pure _

theorem stringsExpr_nets : Nets a a stringsExpr := by
  refine .bind (.withText (.bind stringExpr_nets fun _ => ?_)) fun _ => .ite (.pure _) (.pure _)
  exact .bind (.many stringExpr_nets) fun _ => .pure _

theorem namedArgument_nets : Nets a a namedArgument :=
  .node (.bind .anyWord fun _ => .bind (.symbol (by decide)) fun _ =>
    .bind (.inner _) fun _ => .pure _)

theorem argument_nets : Nets a a argument := by
  refine .bind (.ahead _) fun _ => .ite (splat_nets (by decide) (.inner _)) ?_
  refine .bind (.ahead _) fun _ => .ite (splat_nets (by decide) (.inner _)) ?_
  exact .byName namedArgument_nets (.inner _)

theorem sliceBound_nets : Nets a a sliceBound :=
  .bind (.ahead _) fun _ => .ite (.pure _) (.bind (.inner _) fun _ => .pure _)

theorem sliceStep_nets : Nets a a sliceStep :=
  .bind (.takeSymbol (by decide)) fun _ => .ite sliceBound_nets (.pure _)

theorem subscriptItem_nets : Nets a a subscriptItem := by
  refine .bind (b := a) (.withText (.bind sliceBound_nets fun low => ?_)) ?_
  · refine .bind (.takeSymbol (by decide)) fun _ => .ite ?_ (.pure _)
    exact .bind sliceBound_nets fun _ => .bind sliceStep_nets fun _ => .pure _
  · rintro ⟨text, low, isSlice, more⟩
    refine .ite (.pure _) ?_
    match low with
    | [only] => exact .pure _
    | [] | _ :: _ :: _ => exact .fail

theorem loopTarget_nets : Nets a a loopTarget := by
  refine .bind (.ahead _) fun _ => .bind (.require _) fun _ => .bind (.ahead _) fun _ => .ite ?_ ?_
  · exact .bind (splat_nets (by decide) (.inner _)) fun _ => .bind (.require _) fun _ => .pure _
  · exact .bind (.inner _) fun _ => .bind (.require _) fun _ => .pure _

theorem loopTargets_nets : Nets a a loopTargets :=
  .bind (.commaListTo (.ahead _) loopTarget_nets) fun _ => .pure _

theorem forClause_nets : Nets a a forClause := by
  refine .node (.bind (.discard (.takeWord _)) fun _ => .bind (.word _) fun _ => ?_)
  refine .bind loopTargets_nets fun _ => .bind (.word _) fun _ => ?_
  exact .bind (.inner _) fun _ => .pure _

theorem ifClause_nets : Nets a a ifClause :=
  .node (.bind (.word _) fun _ => .bind (.inner _) fun _ => .pure _)

theorem clauses_nets : Nets a a clauses := by
  refine .bind forClause_nets fun _ => .bind (.many ?_) fun _ => .pure _
  exact .bind (.ahead _) fun _ => .ite ifClause_nets forClause_nets

theorem contents_nets {closing : String} (hc : closing ∈ Nets.closings)
    (comprehension several only : ExprKind) :
    Nets (a + 1) a (contents closing comprehension several only) := by
  have one : ∀ x : ExprKind × List Expr, Nets (a + 1) a (do symbol closing; return x) :=
    fun x => .bind (.closing hc) fun _ => .pure _
  refine .bind elementOrYield_nets fun first => .bind (.ahead _) fun _ => .ite ?_ ?_
  · exact .bind clauses_nets fun _ => one _
  · refine .bind (.takeSymbol (by decide)) fun _ => .ite ?_ (one _)
    exact .bind (.commaListUpTo hc elementOrYield_nets) fun _ => .pure _

theorem parenthesized_nets : Nets a a parenthesized := by
  refine .bind (.withText (.bind (.opening (by decide)) fun _ => ?_)) fun _ => .pure _
  exact .ifSymbol (.closing (by decide)) (.pure _) (contents_nets (by decide) _ _ _)

theorem bracketed_nets : Nets a a bracketed := by
  refine .bind (.withText (.bind (.opening (by decide)) fun _ => ?_)) fun _ => .pure _
  exact .ifSymbol (.closing (by decide)) (.pure _) (contents_nets (by decide) _ _ _)

theorem entry_nets : Nets a a entry := by
  refine .bind (.ahead _) fun _ => .ite (splat_nets (by decide) (.inner _)) (.node ?_)
  exact .bind (.inner _) fun _ => .bind (.symbol (by decide)) fun _ =>
    .bind (.inner _) fun _ => .pure _

theorem firstEntry_nets : Nets a a firstEntry := by
  refine .bind (b := a) (.withText (.bind elementOrYield_nets fun first => ?_)) ?_
  · exact .bind (.takeSymbol (by decide)) fun _ => .ite (.bind (.inner _) fun _ => .pure _) (.pure _)
  · rintro ⟨text, parts⟩
    match parts with
    | [only] => exact .pure _
    | [] | _ :: _ :: _ => exact .pure _

theorem braced_nets : Nets a a braced := by
  refine .bind (.withText (.bind (.opening (by decide)) fun _ => ?_)) fun _ => .pure _
  have one : ∀ x : ExprKind × List Expr, Nets (a + 1) a (do symbol braceClosing; return x) :=
    fun x => .bind (.closing (by decide)) fun _ => .pure _
  have list : ∀ {p : Rule Expr} (f : List Expr → ExprKind × List Expr), Nets (a + 1) (a + 1) p →
      Nets (a + 1) a (do return f (← commaListUpTo braceClosing p)) :=
    fun f hp => .bind (.commaListUpTo (by decide) hp) fun _ => .pure _
  refine .ifSymbol (.closing (by decide)) (.pure _) ?_
  refine .bind (.ahead _) fun _ => .ite (list _ entry_nets) ?_
  refine .bind firstEntry_nets fun first => .bind (.ahead _) fun _ => .ite ?_ ?_
  · exact .bind clauses_nets fun _ => one _
  · exact .bind (.takeSymbol (by decide)) fun _ =>
      .ite (list _ (.ite entry_nets elementOrYield_nets)) (one _)

theorem starred_nets : Nets a a starred :=
  splat_nets (by decide) (.bind (.inner _) fun _ => .bind (.require _) fun _ => .pure _)

theorem wordExpr_nets : Nets a a wordExpr := by
  refine .bind (.takeKind fun l hl => ?_) fun _ => .pure _
  simp only [Bool.and_eq_true, beq_iff_eq] at hl
  simp [hl.1]

theorem leaf_nets {kind : ExprKind} {p : Lexeme → Bool} (h : Nets a a (.take p)) :
    Nets a a (leaf kind p) := .bind h fun _ => .pure _

theorem atom_nets : Nets a a atom := by
  have number {k : TokenKind} (hc : k ≠ .comment) (hs : k ≠ .symbol) (kind : ExprKind) :
      Nets a a (leaf kind (·.kind == k)) := by
    refine leaf_nets (.takeKind fun l hl => ?_)
    obtain rfl : l.kind = k := by simpa using hl
    exact ⟨hc, hs⟩
  refine .bind (.ahead _) fun _ => .ite wordExpr_nets ?_
  refine .bind (.ahead _) fun _ => .ite (number (by decide) (by decide) _) ?_
  refine .bind (.ahead _) fun _ => .ite (number (by decide) (by decide) _) ?_
  refine .bind (.ahead _) fun _ => .ite stringsExpr_nets ?_
  refine .bind (.ahead _) fun _ => .ite parenthesized_nets ?_
  refine .bind (.ahead _) fun _ => .ite bracketed_nets ?_
  refine .bind (.ahead _) fun _ => .ite braced_nets ?_
  refine .bind (.ahead _) fun _ => .ite starred_nets (leaf_nets (.take fun l hl => ?_))
  exact ⟨Nets.ordinary_of_isSymbol hl (by decide), fun _ =>
    Nets.depthAfter_symbol hl (by decide) (by decide) _⟩

theorem callArguments_nets : Nets (a + 1) a callArguments := by
  have one : ∀ x : List Expr, Nets (a + 1) a (do symbol ")"; return x) :=
    fun x => .bind (.closing (by decide)) fun _ => .pure _
  refine .ifSymbol (.closing (by decide)) (.pure _) (.bind argument_nets fun first => ?_)
  refine .bind (.ahead _) fun _ => .ite (.bind clauses_nets fun _ => one _) ?_
  refine .bind (.takeSymbol (by decide)) fun _ => .ite ?_ (one _)
  exact .bind (.commaListUpTo (by decide) argument_nets) fun _ => .pure _

theorem trailer_nets : Nets a a trailer := by
  refine .bind (.takeSymbol (by decide)) fun _ => .ite (.bind .anyWord fun _ => .pure _) ?_
  refine .ifSymbol (.opening (by decide)) (.bind callArguments_nets fun _ => .pure _) ?_
  refine .bind (.opening (by decide)) fun _ => ?_
  refine .bind (.commaListTo (.ahead _) subscriptItem_nets) fun _ => ?_
  exact .bind (.closing (by decide)) fun _ => .pure _

theorem power_nets : Nets a a power := by
  refine .bind (.ahead _) fun _ => .ite (.node (.bind (.word _) fun _ => ?_)) (.extend ?_ ?_)
  · exact .bind (.inner _) fun _ => .pure _
  · exact .extend atom_nets trailer_nets
  · exact .bind (.symbol (by decide)) fun _ => .bind (.inner _) fun _ => .pure _

theorem unaryExpr_nets : Nets a a unaryExpr := by
  refine .bind (.ahead _) fun _ => .ite (.node (.bind (.discard (.oneOf (by decide))) ?_)) power_nets
  exact fun _ => .bind (.inner _) fun _ => .pure _

theorem binaryExpr_nets : Nets a a binaryExpr := by
  have chain {ops : List String} (h : ∀ s ∈ ops, Nets.IsPlain s) {operand : Rule Expr}
      (ho : Nets a a operand) : Nets a a (leftChain .binary (isOneOf ops) operand) :=
    leftChain_nets (.oneOf h) ho
  exact chain (by decide) <| chain (by decide) <| chain (by decide) <| chain (by decide) <|
    chain (by decide) <| chain (by decide) unaryExpr_nets

theorem startsComparison_nets : Nets a a (.take startsComparison) := by
  have oneOf : ∀ l, isOneOf ["<", "<=", "==", "!=", ">=", ">", "<>"] l = true →
      l.isOrdinary = true ∧ ∀ d, depthAfter (d + a) l = d + a := fun l hl =>
    ⟨(Nets.plain_of_isOneOf (by decide) hl).1, fun _ => (Nets.plain_of_isOneOf (by decide) hl).2 _⟩
  have word : ∀ (w : String) (l : Lexeme), l.isWord w = true →
      l.isOrdinary = true ∧ ∀ d, depthAfter (d + a) l = d + a := by
    intro w l hl
    simp only [Lexeme.isWord, Bool.and_eq_true, beq_iff_eq] at hl
    exact ⟨Nets.ordinary_of_kind (by simp [hl.1]) (by simp [hl.1]), fun _ =>
      Nets.depthAfter_of_kind (by simp [hl.1]) _⟩
  refine .take fun l hl => ?_
  simp only [startsComparison, Bool.or_eq_true] at hl
  rcases hl with ((hl | hl) | hl) | hl
  · exact word _ l hl
  · exact word _ l hl
  · exact word _ l hl
  · exact oneOf l hl

theorem comparisonOperator_nets : Nets a a comparisonOperator := by
  refine .bind (.takeWord _) fun _ => .ite (.pure _) ?_
  refine .bind (.takeWord _) fun _ => .ite (.word _) ?_
  refine .bind (.takeWord _) fun _ => .ite (.discard (.takeWord _)) ?_
  exact .discard startsComparison_nets

theorem comparisonExpr_nets : Nets a a comparisonExpr := by
  refine .bind (.withText (.bind binaryExpr_nets fun _ => .bind (.many ?_) fun _ => .pure _)) ?_
  · exact .bind comparisonOperator_nets fun _ => binaryExpr_nets
  · exact fun _ => .ite (.pure _) (.pure _)

theorem negationExpr_nets : Nets a a negationExpr := by
  refine .bind (.ahead _) fun _ => .ite (.node (.bind (.word _) fun _ => ?_)) comparisonExpr_nets
  exact .bind (.inner _) fun _ => .pure _

theorem takeWord_nets (w : String) : Nets a a (.take (·.isWord w)) := by
  refine .takeKind fun l hl => ?_
  simp only [Lexeme.isWord, Bool.and_eq_true, beq_iff_eq] at hl
  simp [hl.1]

theorem disjunctionExpr_nets : Nets a a disjunctionExpr :=
  leftChain_nets (takeWord_nets _) (leftChain_nets (takeWord_nets _) negationExpr_nets)

theorem plainExpr_nets : Nets a a plainExpr := by
  refine .bind (.ahead _) fun _ => .ite lambdaExpr_nets (.bind (b := a) (.withText ?_) ?_)
  · refine .bind disjunctionExpr_nets fun e => .bind (.takeWord _) fun _ => .ite ?_ (.ite ?_ ?_)
    · exact .bind (.inner _) fun _ => .bind (.word _) fun _ => .bind (.inner _) fun _ => .pure _
    · exact .bind (.takeSymbol (by decide)) fun _ =>
        .ite (.bind (.inner _) fun _ => .pure _) (.pure _)
    · exact .pure _
  · exact fun _ => .ite (.pure _) (.pure _)

theorem fullExpr_nets : Nets a a fullExpr :=
  .extend plainExpr_nets (.bind (.word _) fun _ => .bind (.inner _) fun _ => .pure _)

end Rule

theorem ruleOf_nets (e : Entry) : Rule.Nets 0 0 (ruleOf e) := by
  cases e with
  | full => exact fullExpr_nets
  | disjunction => exact disjunctionExpr_nets
  | negation => exact negationExpr_nets
  | unary => exact unaryExpr_nets

/-- **Every expression closes the brackets it opens.** -/
theorem expression_nets : Balanced expression := by
  intro e ts
  induction hw : weight ts using Nat.strongRecOn generalizing ts e with
  | _ w ih =>
    intro found rest hrun
    subst hw
    obtain ⟨inside, hinside, -⟩ := expression_eq_some.1 hrun
    refine ruleOf_nets e (fun e us a rest h => ?_) hinside
    simp only [innerOf, Option.ite_none_right_eq_some] at h
    exact ih _ h.1 e rfl h.2

/-- What a rule takes nets as many brackets as the rule says. -/
theorem Rule.Nets.read {a b : Nat} {r : Rule α} (h : Rule.Nets a b r) : Opens a b r.read :=
  h expression_nets

end TypedStubs.Syntax
