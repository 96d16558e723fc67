import TypedStubs.Proofs.Syntax.Joined
import TypedStubs.Proofs.Syntax.Takes

/-! # Operands with bars between them

Operands with bars between them are read as one expression (`isWhole_joined`).  A path of words is an operand, and
so are a path with items in brackets, a list, a number with or without a sign, a string and three dots.
-/
namespace TypedStubs.Syntax

open Rule

variable {inner : Entry → Reader Expr} {ts mid g us : List Token} {uss : List (List Token)} {n : Nat}
  {gap : List Char}

/-! ## Operands and whole expressions -/

/-- Words that start something else than an operand. -/
def reservedWords : List String := ["not", "lambda", "yield", "await"]

/-- The symbols that an operand of a hint may start with. -/
def openingSymbols : List String := ["[", "-", "..."]

/-- Whether an operand of a hint may start with a lexeme. -/
def startsOperand (l : Lexeme) : Bool :=
  match l.kind with
  | .word => !reservedWords.contains l.text
  | .integer | .float | .string _ => true
  | .symbol => openingSymbols.contains l.text
  | .comment => false

/-- Tokens that start like an operand and have no equals sign among them. -/
structure StartsOperand (us : List Token) : Prop where
  /-- An operand may start with the first of them. -/
  starts : ∃ t more, us = t :: more ∧ startsOperand t.toLexeme = true
  /-- None is an equals sign. -/
  plain : ∀ t ∈ us, t.isSymbol "=" = false

namespace StartsOperand

theorem ne_nil (h : StartsOperand us) : us ≠ [] := by
  obtain ⟨t, more, rfl, -⟩ := h.starts
  exact List.cons_ne_nil _ _

/-- More tokens, which are no equals signs, do not change the start. -/
theorem append (h : StartsOperand us) (hts : ∀ t ∈ ts, t.isSymbol "=" = false) : StartsOperand (us ++ ts) where
  starts := by
    obtain ⟨t, more, rfl, ht⟩ := h.starts
    exact ⟨t, _, rfl, ht⟩
  plain := fun t ht => (List.mem_append.1 ht).elim (h.plain t) (hts t)

theorem plain_fromGap (h : StartsOperand us) (gap : List Char) : ∀ t ∈ fromGap gap us, t.isSymbol "=" = false := by
  intro t ht
  obtain ⟨u, hu, heq⟩ := mem_fromGap ht
  rw [heq]
  exact h.plain u hu

theorem not_word (h : StartsOperand us) {w : String} (hw : w ∈ reservedWords) (gap : List Char) (g : List Token) :
    (Ahead.token (·.isWord w)).holds (fromGap gap us ++ g) = false := by
  obtain ⟨t, more, rfl, ht⟩ := h.starts
  refine Bool.eq_false_iff.2 fun hword => ?_
  have hword : t.isWord w = true := hword
  simp only [Lexeme.isWord, Bool.and_eq_true, beq_iff_eq] at hword
  rw [startsOperand, hword.1, hword.2] at ht
  simp [hw] at ht

theorem not_oneOf (h : StartsOperand us) {ss : List String} (hs : ∀ s ∈ ss, s ∉ openingSymbols) (gap : List Char)
    (g : List Token) : (Ahead.token (isOneOf ss)).holds (fromGap gap us ++ g) = false := by
  obtain ⟨t, more, rfl, ht⟩ := h.starts
  refine Bool.eq_false_iff.2 fun hone => ?_
  have hone : isOneOf ss t.toLexeme = true := hone
  simp only [isOneOf, Bool.and_eq_true, beq_iff_eq, List.contains_iff_mem] at hone
  rw [startsOperand, hone.1] at ht
  exact hs _ hone.2 (List.contains_iff_mem.1 ht)

theorem not_symbol (h : StartsOperand us) {s : String} (hs : s ∉ openingSymbols) (gap : List Char)
    (g : List Token) : (Ahead.token (·.isSymbol s)).holds (fromGap gap us ++ g) = false := by
  have hone : (Ahead.token (isOneOf [s])).holds (fromGap gap us ++ g) = false :=
    h.not_oneOf (by simpa using hs) gap g
  obtain ⟨t, more, rfl, -⟩ := h.starts
  have hone : isOneOf [s] t.toLexeme = false := hone
  have hsymbol : t.isSymbol s = false := by simpa [isOneOf, Lexeme.isSymbol] using hone
  exact hsymbol

end StartsOperand

/-- Tokens that are taken as an operand between bars, behind any gap. -/
structure IsOperand (us : List Token) : Prop where
  /-- They start like one. -/
  opens : StartsOperand us
  /-- They are taken before whatever does not go on with it. -/
  takes : ∀ ⦃n g⦄ gap, EndsAt (isEnd memberEnds) g → weight (us ++ g) ≤ n →
    TakesTo (innerOf n) unaryExpr (fromGap gap us ++ g) g

/-- Tokens that are read as an expression behind any gap. -/
structure IsWhole (us : List Token) : Prop where
  /-- They start like an operand. -/
  opens : StartsOperand us
  /-- They are read before whatever does not go on with it. -/
  reads : ∀ gap ⦃g⦄, EndsAt (isEnd hintEnds) g → ∃ e, expression .full (fromGap gap us ++ g) = some (e, g)

@[simp] theorem weight_fromGap (gap : List Char) (us : List Token) : weight (fromGap gap us) = weight us := by
  cases us <;> rfl

theorem IsWhole.takes (h : IsWhole us) (hg : EndsAt (isEnd hintEnds) g) (hn : weight (us ++ g) < n)
    (gap : List Char) : TakesTo (innerOf n) (.inner .full) (fromGap gap us ++ g) g := by
  obtain ⟨e, he⟩ := h.reads gap hg
  have hlt : weight (fromGap gap us ++ g) < n := by rwa [weight_append, weight_fromGap, ← weight_append]
  refine ⟨e, ?_⟩
  simp only [run, innerOf, if_pos hlt, he]

theorem mem_eachBehind {s : String} {a : List Char} {t : Token} (h : t ∈ eachBehind s a uss) :
    t = sign s a ∨ ∃ us ∈ uss, t ∈ fromGap [' '] us := by
  obtain ⟨us, hus, ht⟩ := List.mem_flatMap.1 h
  exact (List.mem_cons.1 ht).imp_right fun ht => ⟨us, hus, ht⟩

/-- Tokens that start like an operand do so with more such tokens behind marks. -/
theorem opens_joined {s : String} (hs : s ≠ "=") (a : List Char) (hne : uss ≠ [])
    (h : ∀ us ∈ uss, StartsOperand us) : StartsOperand (joined s a uss) := by
  obtain ⟨us, uss, rfl⟩ := List.exists_cons_of_ne_nil hne
  obtain ⟨hus, huss⟩ := List.forall_mem_cons.1 h
  refine hus.append fun t ht => ?_
  rcases mem_eachBehind ht with rfl | ⟨vs, hvs, ht⟩
  · simpa using hs
  · exact (huss vs hvs).plain_fromGap _ t ht

/-- So do whole expressions with commas between them. -/
theorem opens_items (hne : uss ≠ []) (h : ∀ us ∈ uss, IsWhole us) : StartsOperand (joined "," [] uss) :=
  opens_joined (by decide) [] hne fun us hus => (h us hus).opens

/-! ### Unions -/

theorem endsAt_sign {ends : List String} {s : String} (hs : s ∈ ends) (gap : List Char) (ts : List Token) :
    EndsAt (isEnd ends) (sign s gap :: ts) := by
  intro t ht
  obtain rfl : sign s gap = t := by simpa using ht
  have hone : isOneOf ends (sign s gap).toLexeme = true := by simp [isOneOf, hs]
  simp [isEnd, hone]

theorem endsAt_members (h : EndsAt (isEnd hintEnds) g) : EndsAt (isEnd memberEnds) g :=
  EndsAt.mono h fun _ => isEnd_mono fun _ => List.mem_cons_of_mem _

theorem endsAt_eachBehind (hg : EndsAt (isEnd hintEnds) g) (uss : List (List Token)) :
    EndsAt (isEnd memberEnds) (eachBehind "|" [' '] uss ++ g) := by
  cases uss with
  | nil => exact endsAt_members hg
  | cons us uss => exact endsAt_sign (by decide) _ _

theorem IsOperand.takes_member (h : IsOperand us) (hg : EndsAt (isEnd memberEnds) g)
    (hn : weight (us ++ g) ≤ n) (gap : List Char) : TakesTo (innerOf n) memberExpr (fromGap gap us ++ g) g := by
  obtain ⟨e, he⟩ := h.takes gap hg hn
  exact ⟨e, run_memberExpr he hg⟩

/-- What follows the first operand is taken behind it. -/
theorem continues_members (h : ∀ us ∈ uss, IsOperand us) (hg : EndsAt (isEnd hintEnds) g)
    (hn : weight (eachBehind "|" [' '] uss ++ g) ≤ n) :
    Continues (innerOf n) (.token (isOneOf ["|"])) (do
        discard (.take (isOneOf ["|"]))
        return (.binary, [← memberExpr]))
      (eachBehind "|" [' '] uss ++ g) g := by
  induction uss with
  | nil => exact .stop (not_oneOf hg (by decide))
  | cons us uss ih =>
    obtain ⟨hus, huss⟩ := List.forall_mem_cons.1 h
    have htokens : eachBehind "|" [' '] (us :: uss) ++ g =
        sign "|" [' '] :: (fromGap [' '] us ++ (eachBehind "|" [' '] uss ++ g)) := by simp [eachBehind]
    rw [htokens] at hn ⊢
    simp only [weight_cons, weight_append, weight_fromGap] at hn
    have hmember := hus.takes_member (n := n) (endsAt_eachBehind hg uss)
      (by simp only [weight_append]; omega) [' ']
    refine .cons rfl (.bind (.discard (.take rfl _)) fun _ => .bind hmember fun _ => .pure _ _) ?_
      (ih huss (by rw [weight_append]; omega))
    simp only [List.length_cons, List.length_append]
    omega

/-- **Operands with bars between them are an expression.** -/
theorem isWhole_joined (hne : uss ≠ []) (h : ∀ us ∈ uss, IsOperand us) : IsWhole (joined "|" [' '] uss) where
  opens := opens_joined (by decide) _ hne fun us hus => (h us hus).opens
  reads := by
    intro gap g hg
    have hopens : StartsOperand (joined "|" [' '] uss) :=
      opens_joined (by decide) _ hne fun us hus => (h us hus).opens
    obtain ⟨us, uss, rfl⟩ := List.exists_cons_of_ne_nil hne
    obtain ⟨hus, huss⟩ := List.forall_mem_cons.1 h
    have htokens : fromGap gap (joined "|" [' '] (us :: uss)) ++ g =
        fromGap gap us ++ (eachBehind "|" [' '] uss ++ g) := by
      rw [joined, fromGap_append hus.opens.ne_nil, List.append_assoc]
    have hfirst := hus.takes_member (endsAt_eachBehind hg uss) (Nat.le_refl _) gap
    have hmore := continues_members huss hg (n := weight (us ++ (eachBehind "|" [' '] uss ++ g)))
      (by rw [weight_append us]; omega)
    have hbinary : TakesTo _ binaryExpr (fromGap gap us ++ (eachBehind "|" [' '] uss ++ g)) g :=
      hfirst.extend hmore
    obtain ⟨e, he⟩ := hbinary
    have hweight : weight (us ++ (eachBehind "|" [' '] uss ++ g)) =
        weight (fromGap gap us ++ (eachBehind "|" [' '] uss ++ g)) := by
      rw [weight_append, weight_append (fromGap gap us), weight_fromGap]
    rw [hweight, ← htokens] at he
    have hfull := run_fullExpr he hg (hopens.not_word (by decide) gap g) (hopens.not_word (by decide) gap g)
    exact ⟨_, expression_eq_some.2 ⟨e, hfull, rfl⟩⟩

/-! ### Lists of items -/

theorem endsAt_items (uss : List (List Token)) (g : List Token) :
    EndsAt (isEnd itemEnds) (eachBehind "," [] uss ++ sign "]" [] :: g) := by
  cases uss with
  | nil => exact endsAt_sign (by decide) _ _
  | cons us uss => exact endsAt_sign (by decide) _ _

/-- Items of a list behind the first one. -/
theorem takes_items {p : Rule Expr} (huss : ∀ us ∈ uss, StartsOperand us)
    (hp : ∀ us ∈ uss, ∀ g, EndsAt (isEnd itemEnds) g → weight (us ++ g) < n →
      TakesTo (innerOf n) p (fromGap [' '] us ++ g) g)
    (hn : weight (eachBehind "," [] uss ++ sign "]" [] :: g) ≤ n) :
    TakesTo (innerOf n) (.many (.token (·.isSymbol ",")) (do
        symbol ","
        if ← atSymbol "]" then return none else return some (← p)))
      (eachBehind "," [] uss ++ sign "]" [] :: g) (sign "]" [] :: g) := by
  induction uss with
  | nil => exact ⟨[], run_many_stop (by simp [Ahead.holds, eachBehind]) _⟩
  | cons us uss ih =>
    obtain ⟨hus, hmore⟩ := List.forall_mem_cons.1 huss
    obtain ⟨hpus, hpmore⟩ := List.forall_mem_cons.1 hp
    have htokens : eachBehind "," [] (us :: uss) ++ sign "]" [] :: g =
        sign "," [] :: (fromGap [' '] us ++ (eachBehind "," [] uss ++ sign "]" [] :: g)) := by simp [eachBehind]
    rw [htokens] at hn ⊢
    simp only [weight_cons, weight_append, weight_fromGap] at hn
    have hcomma : 0 < (sign "," []).chars.length := by decide
    have hitem := hpus _ (endsAt_items uss g) (by simp only [weight_append, weight_cons]; omega)
    have hended := hus.not_symbol (s := "]") (by decide) [' '] (eachBehind "," [] uss ++ sign "]" [] :: g)
    refine .many_cons (by simp [Ahead.holds]) (.bind (.symbol _ _ _) fun _ => ?_) ?_
      (ih hmore hpmore (by simp only [weight_append, weight_cons]; omega))
    · exact .answered (run_atToken hended) (.bind hitem fun _ => .pure _ _)
    · simp only [List.length_cons, List.length_append]
      omega

/-- **Items with commas between them are taken up to the closing bracket.** -/
theorem takes_commaList {p : Rule Expr} (hne : uss ≠ []) (huss : ∀ us ∈ uss, StartsOperand us)
    (hp : ∀ us ∈ uss, ∀ gap g, EndsAt (isEnd itemEnds) g → weight (us ++ g) < n →
      TakesTo (innerOf n) p (fromGap gap us ++ g) g)
    (hn : weight (joined "," [] uss ++ sign "]" [] :: g) < n) (gap : List Char) :
    TakesTo (innerOf n) (commaListTo (atSymbol "]") p)
      (fromGap gap (joined "," [] uss) ++ sign "]" [] :: g) (sign "]" [] :: g) := by
  obtain ⟨us, uss, rfl⟩ := List.exists_cons_of_ne_nil hne
  obtain ⟨hus, hmore⟩ := List.forall_mem_cons.1 huss
  obtain ⟨hpus, hpmore⟩ := List.forall_mem_cons.1 hp
  rw [joined, List.append_assoc] at hn
  rw [joined, fromGap_append hus.ne_nil, List.append_assoc]
  refine .bind (hpus gap _ (endsAt_items uss g) hn) fun first => .bind ?_ fun more => .pure _ _
  refine takes_items hmore (fun vs hvs => hpmore vs hvs [' ']) ?_
  rw [weight_append] at hn
  omega

/-! ### Paths -/

theorem TakesTo.anyWord (w : String) (gap : List Char) (ts : List Token) :
    TakesTo inner anyWord (spelled w gap :: ts) ts := .bind (.take rfl ts) fun _ => .pure _ _

/-- Words behind the first one of a path. -/
theorem continues_path (words : List String)
    (hmore : Continues inner (.token (isOneOf [".", "(", "["])) trailer ts g) :
    Continues inner (.token (isOneOf [".", "(", "["])) trailer
      ((words.flatMap fun w => [sign "." [], spelled w []]) ++ ts) g := by
  induction words with
  | nil => exact hmore
  | cons w words ih =>
    refine .cons rfl (.answered (run_takeSymbol_sign "." [] _) ?_) ?_ ih
    · exact .bind (.anyWord w [] _) fun _ => .pure _ _
    · simp only [List.flatMap_cons, List.length_append, List.length_cons]
      omega

theorem run_wordExpr {w : String} (hw : w ∉ reservedWords) (gap : List Char) (ts : List Token) :
    atom.run inner (spelled w gap :: ts) = some (.node (wordKind w) w [], ts) := by
  have hnot : w ≠ "not" := fun heq => hw (heq ▸ by decide)
  have hlambda : w ≠ "lambda" := fun heq => hw (heq ▸ by decide)
  refine run_bind_eq_some.2 ⟨true, _, run_atToken rfl, ?_⟩
  refine run_bind_eq_some.2 ⟨(spelled w gap).toLexeme, ts, run_take_eq_some.2 ⟨_, rfl, rfl, ?_⟩, ?_⟩
  · simp [hnot, hlambda]
  · simp only [spelled_text]
    rfl

/-- A path goes on with what trails it. -/
theorem takes_path {w : String} (hw : w ∉ reservedWords) (words : List String)
    (hmore : Continues inner (.token (isOneOf [".", "(", "["])) trailer ts g)
    (hg : EndsAt (isEnd memberEnds) g) (gap : List Char) :
    TakesTo inner unaryExpr (fromGap gap (pathTokens (w :: words)) ++ ts) g := by
  have hawait : w ≠ "await" := fun heq => hw (heq ▸ by decide)
  have hprimary : TakesTo inner primaryExpr (fromGap gap (pathTokens (w :: words)) ++ ts) g :=
    .extend ⟨_, run_wordExpr hw gap _⟩ (continues_path words hmore)
  obtain ⟨e, he⟩ := hprimary
  refine ⟨e, run_unaryExpr he hg rfl ?_⟩
  simp [pathTokens, Ahead.holds, hawait]

theorem opens_path {w : String} (hw : w ∉ reservedWords) (words : List String) :
    StartsOperand (pathTokens (w :: words)) where
  starts := ⟨_, _, rfl, by simp [startsOperand, hw]⟩
  plain := by
    intro t ht
    rcases mem_pathTokens ht with rfl | ⟨v, rfl⟩
    · rfl
    · exact spelled_isSymbol v "=" []

theorem not_trailers (hg : EndsAt (isEnd memberEnds) g) :
    (Ahead.token (isOneOf [".", "(", "["])).holds g = false := not_oneOf hg (by decide)

theorem isOperand_path {w : String} (hw : w ∉ reservedWords) (words : List String) :
    IsOperand (pathTokens (w :: words)) where
  opens := opens_path hw words
  takes := fun _ _ gap hg _ => takes_path hw words (.stop (not_trailers hg)) hg gap

/-! ### Brackets -/

/-- Tokens in square brackets. -/
def inBrackets (us : List Token) : List Token := sign "[" [] :: (us ++ [sign "]" []])

theorem plain_inBrackets (h : ∀ t ∈ us, t.isSymbol "=" = false) : ∀ t ∈ inBrackets us, t.isSymbol "=" = false := by
  intro t ht
  rcases List.mem_cons.1 ht with rfl | ht
  · rfl
  rcases List.mem_append.1 ht with ht | ht
  · exact h t ht
  · obtain rfl := List.mem_singleton.1 ht
    rfl

theorem endsAt_item (h : EndsAt (isEnd itemEnds) g) : EndsAt (isEnd hintEnds) g :=
  EndsAt.mono h fun _ => isEnd_mono (by decide)

/-- An item of a subscript is an expression. -/
theorem IsWhole.takes_subscriptItem (h : IsWhole us) (gap : List Char) (hg : EndsAt (isEnd itemEnds) g)
    (hn : weight (us ++ g) < n) : TakesTo (innerOf n) subscriptItem (fromGap gap us ++ g) g := by
  have hbound : (Ahead.token (isOneOf [":", ",", "]"])).holds (fromGap gap us ++ g) = false :=
    h.opens.not_oneOf (by decide) gap g
  have hcolon : (takeSymbol ":").run (innerOf n) g = some (false, g) :=
    run_takeSymbol_not (not_symbol hg (by decide))
  obtain ⟨e, he⟩ := h.takes (endsAt_item hg) hn gap
  have hlow : sliceBound.run (innerOf n) (fromGap gap us ++ g) = some ([e], g) :=
    run_bind_eq_some.2 ⟨_, _, run_atToken hbound, run_bind_eq_some.2 ⟨e, g, he, rfl⟩⟩
  refine ⟨e, run_bind_eq_some.2 ⟨(_, [e], false, []), g, run_withText_eq_some.2 ⟨?_, rfl⟩, rfl⟩⟩
  exact run_bind_eq_some.2 ⟨[e], g, hlow, run_bind_eq_some.2 ⟨_, _, hcolon, rfl⟩⟩

/-- An item of a list is an expression. -/
theorem IsWhole.takes_elementOrYield (h : IsWhole us) (gap : List Char) (hg : EndsAt (isEnd itemEnds) g)
    (hn : weight (us ++ g) < n) : TakesTo (innerOf n) elementOrYield (fromGap gap us ++ g) g := by
  refine .answered (run_atToken (h.opens.not_word (by decide) gap g)) ?_
  refine .answered (run_atToken (h.opens.not_symbol (by decide) gap g)) ?_
  exact h.takes (endsAt_item hg) hn gap

/-- Items in brackets trail what stands before them. -/
theorem takes_subscript (hne : uss ≠ []) (huss : ∀ us ∈ uss, IsWhole us)
    (hn : weight (inBrackets (fromGap [] (joined "," [] uss)) ++ g) ≤ n) :
    TakesTo (innerOf n) trailer (inBrackets (fromGap [] (joined "," [] uss)) ++ g) g := by
  have htokens : inBrackets (fromGap [] (joined "," [] uss)) ++ g =
      sign "[" [] :: (fromGap [] (joined "," [] uss) ++ sign "]" [] :: g) := by simp [inBrackets]
  rw [htokens] at hn ⊢
  have hopening : 0 < (sign "[" []).chars.length := by decide
  have hitems := takes_commaList (n := n) (g := g) hne (fun us hus => (huss us hus).opens)
    (fun us hus gap g hg hn => (huss us hus).takes_subscriptItem gap hg hn) (by
      simp only [weight_cons, weight_append, weight_fromGap] at hn ⊢
      omega) []
  refine .answered (run_takeSymbol_not rfl) (.answered (run_takeSymbol_not rfl) ?_)
  exact .bind (.symbol "[" [] _) fun _ => .bind hitems fun _ => .bind (.symbol "]" [] _) fun _ => .pure _ _

theorem plain_joined (hne : uss ≠ []) (huss : ∀ us ∈ uss, IsWhole us) :
    ∀ t ∈ inBrackets (fromGap [] (joined "," [] uss)), t.isSymbol "=" = false :=
  plain_inBrackets ((opens_items hne huss).plain_fromGap [])

/-- **A path with items in brackets is an operand.** -/
theorem isOperand_subscript {w : String} (hw : w ∉ reservedWords) (words : List String) (hne : uss ≠ [])
    (huss : ∀ us ∈ uss, IsWhole us) :
    IsOperand (pathTokens (w :: words) ++ inBrackets (fromGap [] (joined "," [] uss))) where
  opens := (opens_path hw words).append (plain_joined hne huss)
  takes := by
    intro n g gap hg hn
    rw [List.append_assoc, weight_append] at hn
    rw [fromGap_append (opens_path hw words).ne_nil, List.append_assoc]
    refine takes_path hw words (.cons rfl (takes_subscript hne huss (by omega)) ?_ (.stop (not_trailers hg))) hg gap
    rw [List.length_append, inBrackets, List.length_cons]
    omega

theorem eachBehind_cons {s : String} {a : List Char} {vs : List Token} (hvs : vs ≠ []) (uss : List (List Token)) :
    eachBehind s a (vs :: uss) = sign s a :: fromGap [' '] (joined s a (vs :: uss)) := by
  simp [eachBehind, joined, fromGap_append hvs]

/-- What stands between the brackets of a list. -/
theorem takes_contents {kinds several only : ExprKind} (hne : uss ≠ []) (huss : ∀ us ∈ uss, IsWhole us)
    (hn : weight (joined "," [] uss ++ sign "]" [] :: g) < n) :
    TakesTo (innerOf n) (contents "]" kinds several only)
      (fromGap [] (joined "," [] uss) ++ sign "]" [] :: g) g := by
  obtain ⟨us, uss, rfl⟩ := List.exists_cons_of_ne_nil hne
  obtain ⟨hus, hmore⟩ := List.forall_mem_cons.1 huss
  have hitem := fun vs hvs gap g => (huss vs hvs).takes_elementOrYield (n := n) (g := g) gap
  rw [joined, List.append_assoc] at hn
  rw [joined, fromGap_append hus.opens.ne_nil, List.append_assoc]
  refine .bind (hus.takes_elementOrYield [] (endsAt_items uss g) hn) fun first => ?_
  refine .answered (run_ahead (not_clause (endsAt_items uss g) false)) ?_
  cases uss with
  | nil => exact .answered (run_takeSymbol_not rfl) (.bind (.symbol "]" [] _) fun _ => .pure _ _)
  | cons vs uss =>
    obtain ⟨hvs, -⟩ := List.forall_mem_cons.1 hmore
    have hopens := opens_items (List.cons_ne_nil vs uss) hmore
    rw [eachBehind_cons hvs.opens.ne_nil, List.cons_append] at hn ⊢
    rw [weight_append, weight_cons, weight_append, weight_fromGap, ← weight_append] at hn
    have hitems := takes_commaList (g := g) (List.cons_ne_nil vs uss) (fun us hus => (hmore us hus).opens)
      (fun us hus => hitem us (List.mem_cons_of_mem _ hus)) (by omega) [' ']
    have hended := hopens.not_symbol (s := "]") (by decide) [' '] (sign "]" [] :: g)
    refine .answered (run_takeSymbol_sign "," [] _) (.bind (.answered (run_takeSymbol_not hended) ?_) fun _ => .pure _ _)
    exact .bind hitems fun _ => .bind (.symbol "]" [] _) fun _ => .pure _ _

/-! ### Atoms -/

/-- An atom that nothing trails is an operand. -/
theorem takes_atom (h : TakesTo inner atom ts g) (hg : EndsAt (isEnd memberEnds) g)
    (hsign : (Ahead.token (isOneOf ["-", "+", "~"])).holds ts = false)
    (hawait : (Ahead.token (·.isWord "await")).holds ts = false) : TakesTo inner unaryExpr ts g := by
  obtain ⟨e, he⟩ := h
  exact ⟨e, run_unaryExpr (run_extend_stop he (not_trailers hg)) hg hsign hawait⟩

theorem takes_bracketed (h : TakesTo inner bracketed (sign "[" gap :: ts) g) :
    TakesTo inner atom (sign "[" gap :: ts) g := by
  refine .answered (run_atToken rfl) (.answered (run_atToken rfl) (.answered (run_atToken rfl) ?_))
  refine .answered (run_atToken rfl) (.answered (run_atToken (sign_isSymbol _ _ _)) ?_)
  exact .answered (run_atToken (sign_isSymbol _ _ _)) h

theorem opens_inBrackets (h : ∀ t ∈ us, t.isSymbol "=" = false) : StartsOperand (inBrackets us) where
  starts := ⟨_, _, rfl, by simp [startsOperand, openingSymbols]⟩
  plain := plain_inBrackets h

/-- **A list is an operand.** -/
theorem isOperand_list (hne : uss ≠ []) (huss : ∀ us ∈ uss, IsWhole us) :
    IsOperand (inBrackets (fromGap [] (joined "," [] uss))) where
  opens := opens_inBrackets ((opens_items hne huss).plain_fromGap [])
  takes := by
    intro n g gap hg hn
    have htokens : ∀ gap, fromGap gap (inBrackets (fromGap [] (joined "," [] uss))) ++ g =
        sign "[" gap :: (fromGap [] (joined "," [] uss) ++ sign "]" [] :: g) := fun gap => by simp [inBrackets]
    have hopening : 0 < (sign "[" gap).chars.length := by simp [sign]
    rw [weight_append, ← weight_fromGap gap, ← weight_append, htokens, weight_cons, weight_append, weight_fromGap,
      ← weight_append] at hn
    rw [htokens]
    refine takes_atom (takes_bracketed ?_) hg (by simp [Ahead.holds, isOneOf]) rfl
    refine .bind (.withText (.bind (.symbol "[" gap _) fun _ => ?_)) fun _ => .pure _ _
    exact .answered (run_takeSymbol_not ((opens_items hne huss).not_symbol (by decide) [] _))
      (takes_contents hne huss (by omega))

theorem isOperand_brackets : IsOperand (inBrackets []) where
  opens := opens_inBrackets (by simp)
  takes := by
    intro n g gap hg _
    refine takes_atom (takes_bracketed ?_) hg (by simp [Ahead.holds, inBrackets, isOneOf]) rfl
    refine .bind (.withText (.bind (.symbol "[" gap _) fun _ => ?_)) fun _ => .pure _ _
    exact .answered (run_takeSymbol_sign "]" [] _) (.pure _ _)

/-- Whether a token of some kind is a value of its own: a number, or a string with nothing embedded in it. -/
def IsValue (kind : TokenKind) : Prop := kind = .integer ∨ kind = .float ∨ kind = .string []

theorem takes_value {kind : TokenKind} (h : IsValue kind) (cs : List Char) (hg : EndsAt (isEnd memberEnds) g)
    (gap : List Char) : TakesTo inner unaryExpr (⟨⟨kind, cs⟩, gap⟩ :: g) g := by
  refine takes_atom ?_ hg ?_ ?_
  · rcases h with rfl | rfl | rfl
    · refine .answered (run_atToken rfl) (.answered (run_atToken rfl) (.bind (.take rfl _) fun _ => .pure _ _))
    · refine .answered (run_atToken rfl) (.answered (run_atToken rfl) (.answered (run_atToken rfl) ?_))
      exact .bind (.take rfl _) fun _ => .pure _ _
    · refine .answered (run_atToken rfl) (.answered (run_atToken rfl) (.answered (run_atToken rfl) ?_))
      refine .answered (run_atToken rfl) ?_
      have hstring : TakesTo inner stringExpr (⟨⟨.string [], cs⟩, gap⟩ :: g) g :=
        .bind ⟨_, rfl⟩ fun _ => .pure _ _
      have hmore : (Ahead.token isString).holds g = false :=
        EndsAt.not_holds (fun l hl => by
          simp only [isEnd, Lexeme.isComment, isOneOf, Bool.or_eq_true, Bool.and_eq_true, beq_iff_eq] at hl
          rcases hl with hl | ⟨hl, -⟩ <;> simp [isString, hl]) g hg
      refine .bind (.withText (.bind hstring fun _ => .bind ⟨[], run_many_stop hmore _⟩ fun _ => .pure _ _)) ?_
      rintro ⟨text, first, more⟩
      cases more with
      | nil => exact .pure _ _
      | cons second more => exact .pure _ _
  · rcases h with rfl | rfl | rfl <;> rfl
  · rcases h with rfl | rfl | rfl <;> rfl

theorem opens_value {kind : TokenKind} (h : IsValue kind) (cs : List Char) :
    StartsOperand [⟨⟨kind, cs⟩, []⟩] where
  starts := ⟨_, _, rfl, by rcases h with rfl | rfl | rfl <;> rfl⟩
  plain := by
    intro t ht
    obtain rfl := List.mem_singleton.1 ht
    rcases h with rfl | rfl | rfl <;> rfl

/-- **A number is an operand**, and so is a string with nothing embedded in it. -/
theorem isOperand_value {kind : TokenKind} (h : IsValue kind) (cs : List Char) : IsOperand [⟨⟨kind, cs⟩, []⟩] where
  opens := opens_value h cs
  takes := fun _ _ gap hg _ => takes_value h cs hg gap

theorem isOperand_dots : IsOperand [sign "..." []] where
  opens := ⟨⟨_, _, rfl, rfl⟩, by simp⟩
  takes := by
    intro n g gap hg _
    refine takes_atom ?_ hg (by simp [Ahead.holds, isOneOf]) rfl
    refine .answered (run_atToken rfl) (.answered (run_atToken rfl) (.answered (run_atToken rfl) ?_))
    refine .answered (run_atToken rfl) (.answered (run_atToken (sign_isSymbol _ _ _)) ?_)
    refine .answered (run_atToken (sign_isSymbol _ _ _)) (.answered (run_atToken (sign_isSymbol _ _ _)) ?_)
    exact .answered (run_atToken (sign_isSymbol _ _ _)) (.bind (.take (by simp) _) fun _ => .pure _ _)

/-- **A value with a sign before it is an operand.** -/
theorem isOperand_negative {kind : TokenKind} (h : IsValue kind) (cs : List Char) :
    IsOperand [sign "-" [], ⟨⟨kind, cs⟩, []⟩] where
  opens := by
    refine ⟨⟨_, _, rfl, rfl⟩, fun t ht => ?_⟩
    rcases List.mem_cons.1 ht with rfl | ht
    · rfl
    · exact (opens_value h cs).plain t ht
  takes := by
    intro n g gap hg hn
    have hsign : 0 < (sign "-" []).chars.length := by decide
    have hless : weight (⟨⟨kind, cs⟩, []⟩ :: g) < n := by
      have : weight (sign "-" [] :: ⟨⟨kind, cs⟩, []⟩ :: g) ≤ n := hn
      rw [weight_cons] at this
      omega
    obtain ⟨e, he⟩ : TakesTo (innerOf (weight (⟨⟨kind, cs⟩, []⟩ :: g))) unaryExpr (⟨⟨kind, cs⟩, []⟩ :: g) g :=
      takes_value h cs hg []
    have hread : expression .unary (⟨⟨kind, cs⟩, []⟩ :: g) = some (_, g) := expression_eq_some.2 ⟨e, he, rfl⟩
    have hinner : TakesTo (innerOf n) (.inner .unary) (⟨⟨kind, cs⟩, []⟩ :: g) g :=
      ⟨_, by simp only [run, innerOf, if_pos hless, hread]; rfl⟩
    refine .answered (run_atToken rfl) (.node (.bind (.discard (.take rfl _)) fun _ => ?_))
    exact .bind hinner fun _ => .pure _ _

end TypedStubs.Syntax
