import TypedStubs.Proofs.Syntax.Block

/-! # Stretches of a source

A stretch is some whole lines that are read as statements of a block wherever they stand.  Stretches
indented alike are put together by writing one below the other (`Stretch.append`), and a stretch with
nothing around it is a whole source (`Stretch.parse`).
-/
namespace TypedStubs.Syntax

/-- A stretch: lines, the first indented by `k`, that are read as the statements `body` of a block
indented by `k` before anything else. -/
def Stretch (k : Nat) (cs : List Char) (body : List Stmt) : Prop :=
  ∃ line after block, ScansLines cs (line :: after) ∧ line.indent = k ∧ Below k (line :: after) ∧
    readBlock k (line :: after) = some block ∧ block.body = body ∧ block.rest = []

theorem Below.append {k : Nat} {ls ms : List Line} (h : Below k ls) (h' : Below k ms) :
    Below k (ls ++ ms) := by
  cases hdrop : ls.dropWhile Line.isComment with
  | nil =>
    have hall : ∀ l ∈ ls, l.isComment = true := List.dropWhile_eq_nil_iff.1 hdrop
    have htake : ls.takeWhile Line.isComment = ls := List.takeWhile_eq_self_iff.2 hall
    have hdrops := dropWhile_append_nil hdrop ms
    constructor
    · intro l hl
      rw [List.takeWhile_append_of_pos hall] at hl
      rcases List.mem_append.1 hl with hl | hl
      · exact h.comments l (by rwa [htake])
      · exact h'.comments l hl
    · exact fun l more hl => h'.first l more (hdrops ▸ hl)
    · exact fun l more hl => h'.noClause l more (hdrops ▸ hl)
  | cons line after =>
    constructor
    · intro l hl
      rw [takeWhile_append_of_dropWhile hdrop] at hl
      exact h.comments l hl
    · intro l more hl
      rw [dropWhile_append_cons hdrop] at hl
      obtain ⟨rfl, -⟩ := List.cons.inj hl
      exact h.first line after hdrop
    · intro l more hl
      rw [dropWhile_append_cons hdrop] at hl
      obtain ⟨rfl, -⟩ := List.cons.inj hl
      exact h.noClause line after hdrop

theorem Below.leadBy {k : Nat} {ls : List Line} (h : Below k ls) (lead : List Char) :
    Below k (leadBy lead ls) := by
  cases ls with
  | nil => exact h
  | cons l ls =>
    have hl : ({ l with lead := lead ++ l.lead } : Line).isComment = l.isComment := rfl
    obtain ⟨hcomments, hfirst, hclause⟩ := h
    cases hc : l.isComment
    · rw [List.dropWhile_cons_of_neg (by simp [hc])] at hfirst hclause
      constructor
      · intro m hm
        rw [Syntax.leadBy, List.takeWhile_cons_of_neg (by simp [hl, hc])] at hm
        cases hm
      · intro m more hm
        rw [Syntax.leadBy, List.dropWhile_cons_of_neg (by simp [hl, hc])] at hm
        obtain ⟨rfl, rfl⟩ := List.cons.inj hm
        exact hfirst l _ rfl
      · intro m more hm
        rw [Syntax.leadBy, List.dropWhile_cons_of_neg (by simp [hl, hc])] at hm
        obtain ⟨rfl, rfl⟩ := List.cons.inj hm
        exact hclause l _ rfl
    · rw [List.dropWhile_cons_of_pos hc] at hfirst hclause
      rw [List.takeWhile_cons_of_pos hc] at hcomments
      constructor
      · intro m hm
        rw [Syntax.leadBy, List.takeWhile_cons_of_pos (hl.trans hc)] at hm
        rcases List.mem_cons.1 hm with rfl | hm
        · exact hcomments l List.mem_cons_self
        · exact hcomments m (List.mem_cons_of_mem _ hm)
      · intro m more hm
        rw [Syntax.leadBy, List.dropWhile_cons_of_pos (hl.trans hc)] at hm
        exact hfirst m more hm
      · intro m more hm
        rw [Syntax.leadBy, List.dropWhile_cons_of_pos (hl.trans hc)] at hm
        exact hclause m more hm

namespace Stretch

variable {k : Nat} {cs cs' : List Char} {body body' : List Stmt}

/-- One stretch below another one. -/
theorem append (h : Stretch k cs body) (h' : Stretch k cs' body') :
    Stretch k (cs ++ cs') (body ++ body') := by
  obtain ⟨line, after, block, hscan, hindent, hbelow, hread, rfl, hrest⟩ := h
  obtain ⟨line', after', block', hscan', hindent', hbelow', hread', rfl, hrest'⟩ := h'
  obtain ⟨c, hc, hbody, hcrest⟩ := readBlock_concat hbelow' hread hrest hread'
  exact ⟨line, after ++ line' :: after', c, hscan.append hscan', hindent, hbelow.append hbelow', hc,
    hbody, hcrest.trans hrest'⟩

/-- An empty line in front. -/
theorem blank (h : Stretch k cs body) : Stretch k ('\n' :: cs) body := by
  obtain ⟨line, after, block, hscan, hindent, hbelow, hread, rfl, hrest⟩ := h
  obtain ⟨c, hc, hbody, hcrest⟩ := readBlock_leadBy ['\n'] hread hrest
  exact ⟨_, after, c, hscan.blank (List.cons_ne_nil _ _), hindent, hbelow.leadBy _, hc, hbody, hcrest⟩

/-- A stretch with nothing around it is a whole source. -/
theorem parse (h : Stretch 0 cs body) : parse? (String.ofList cs) = some body := by
  obtain ⟨line, after, block, hscan, -, -, hread, rfl, hrest⟩ := h
  simp only [parse?, String.toList_ofList, hscan.scanLines_eq, Option.bind_eq_bind, Option.bind_some,
    hread, hrest]
  rfl

end Stretch

/-- A block that starts with a comment has it as its first statement. -/
theorem head_of_comment {k : Nat} {line : Line} {after : List Line} {block : Block}
    (hc : line.isComment = true) (hindent : k ≤ line.indent)
    (h : readBlock k (line :: after) = some block) :
    block.body.head?.any Stmt.isComment = true := by
  have hfirst : ∀ more : List Stmt, (commentOf line ++ more).head?.any Stmt.isComment = true := by
    intro more
    unfold Line.isComment at hc
    split at hc
    · next t ts htokens => simp [commentOf, htokens, Stmt.isComment]
    · cases hc
  cases hdrop : (line :: after).dropWhile Line.isComment with
  | cons l more =>
    by_cases hl : k ≤ l.indent
    · obtain ⟨read, rest, -, -, rfl⟩ := (readBlock_eq_some hdrop hl).1 h
      simpa [Block.followedBy, commentBlock, hc] using hfirst (_ ++ (_ ++ _))
    · rw [readBlock_end fun l' more' heq => by
        obtain ⟨rfl, -⟩ := List.cons.inj (hdrop.symm.trans heq)
        omega] at h
      obtain rfl := Option.some.inj h
      simpa [blockEnd, closingComments, commentBlock, hc, hindent] using hfirst _
  | nil =>
    rw [readBlock_end fun l' more' heq => by rw [hdrop] at heq; cases heq] at h
    obtain rfl := Option.some.inj h
    simpa [blockEnd, closingComments, commentBlock, hc, hindent] using hfirst _

/-! ## Lines and definitions -/

/-- The words that start statements with bodies wherever they start a line. -/
def blockWords : List String := ["def", "class", "if", "for", "while", "try", "with"]

section Lines

variable {k : Nat} {cs : List Char} {ts : List Token} {body : List Stmt}

/-- A line of tokens behind `k` spaces. -/
def spacedLine (k : Nat) (ts : List Token) : Line := ⟨k, k, List.replicate k ' ', ts, ['\n']⟩

theorem below_cons {line : Line} {after : List Line} (hc : line.isComment = false)
    (hindent : line.indent = k) (hclause : ∀ w ∈ clauseWords, line.startsWith w = false) :
    Below k (line :: after) := by
  have hdrop : (line :: after).dropWhile Line.isComment = line :: after := by simp [hc]
  constructor
  · intro l hl
    simp [hc] at hl
  · intro l more hl
    obtain ⟨rfl, -⟩ := List.cons.inj (hdrop.symm.trans hl)
    exact Nat.le_of_eq hindent
  · intro l more hl
    obtain ⟨rfl, -⟩ := List.cons.inj (hdrop.symm.trans hl)
    exact hclause

/-- A comment on a line of its own. -/
theorem stretch_comment {t : Token} (h : IsLine cs [t]) (ht : t.isComment = true) (k : Nat) :
    Stretch k (List.replicate k ' ' ++ (cs ++ ['\n'])) [.comment ⟨t.text, k⟩] := by
  have hc : (spacedLine k [t]).isComment = true := ht
  have hnil : readBlock k [] = some (blockEnd k []) := readBlock_end fun l more hl => by cases hl
  have hcomment : ∀ l ∈ [spacedLine k [t]], l.isComment = true ∧ k ≤ l.indent := by
    intro l hl
    obtain rfl : l = spacedLine k [t] := by simpa using hl
    exact ⟨hc, Nat.le_refl _⟩
  obtain ⟨c, hread, hbody, hrest⟩ := readBlock_comments hcomment hnil
  refine ⟨spacedLine k [t], [], c, h.scansLines k, rfl, ?_, hread, ?_, hrest⟩
  · constructor
    · intro l hl
      obtain rfl : l = spacedLine k [t] := by simpa [hc] using hl
      exact Nat.le_refl _
    · intro l more hl
      simp [hc] at hl
    · intro l more hl
      simp [hc] at hl
  · rw [hbody]
    rfl

/-- What the first token of a line must be so that the line is no clause, no decorator and no comment. -/
def StartsAlone (ts : List Token) : Prop :=
  ∀ t, ts.head? = some t →
    t.isComment = false ∧ t.isSymbol "@" = false ∧ ∀ w ∈ clauseWords, t.isWord w = false

theorem startsWith_of_startsAlone {line : Line} (h : StartsAlone line.tokens) :
    ∀ w ∈ clauseWords, line.startsWith w = false := by
  intro w hw
  unfold Line.startsWith
  split
  · next t ts ht => exact (h t (by rw [ht]; rfl)).2.2 w hw
  · rfl

theorem isComment_of_startsAlone {line : Line} (h : StartsAlone line.tokens) :
    line.isComment = false := by
  unfold Line.isComment
  split
  · next t ts ht => exact (h t (by rw [ht]; rfl)).1
  · rfl

theorem not_sign_of_startsAlone {line : Line} (h : StartsAlone line.tokens) :
    ¬ line.tokens.head?.any (·.isSymbol "@") = true := by
  cases hhead : line.tokens.head? with
  | none => simp
  | some t => simp [(h t hhead).2.1]

/-- A line whose leading word starts no statement with a body is read as statements of its own. -/
theorem statement_simple {block : BlockReader} {line : Line} {after : List Line}
    (halone : StartsAlone line.tokens) (hword : ∀ w, leadingWord line = some w → w ∉ blockWords)
    (h : simpleStatements line.column line.tokens = some body) :
    statement block k line after = some ⟨body, line.tokens.length, after⟩ := by
  have hsimple : simpleBlock line after = some ⟨body, line.tokens.length, after⟩ := by
    rw [simpleBlock, h]
    rfl
  rw [statement, if_neg (not_sign_of_startsAlone halone)]
  cases hlead : leadingWord line with
  | none => exact hsimple
  | some w =>
    have hw := hword w hlead
    simp only [blockWords, List.mem_cons, List.not_mem_nil, or_false, not_or] at hw
    obtain ⟨hdef, hclass, hif, hfor, hwhile, htry, hwith⟩ := hw
    simp only
    rw [if_neg (by simp [hdef, hclass]), if_neg (by simp [hif, hfor, hwhile, htry, hwith])]
    split
    · rw [matchStatement_eq_none hsimple after]
      exact hsimple
    · exact hsimple

/-- A line of statements of its own. -/
theorem stretch_simple (h : IsLine cs ts) (halone : StartsAlone ts)
    (hword : ∀ w, leadingWord (spacedLine k ts) = some w → w ∉ blockWords)
    (hread : simpleStatements k ts = some body) :
    Stretch k (List.replicate k ' ' ++ (cs ++ ['\n'])) body := by
  have hc : (spacedLine k ts).isComment = false := isComment_of_startsAlone halone
  have hstatement : statement readBlock k (spacedLine k ts) [] = some ⟨body, ts.length, []⟩ :=
    statement_simple halone hword hread
  obtain ⟨c, hblock, hbody, hrest⟩ := readBlock_of_statement hc (Nat.le_refl k) hstatement rfl
  exact ⟨spacedLine k ts, [], c, h.scansLines k, rfl,
    below_cons hc rfl (startsWith_of_startsAlone halone), hblock, hbody, hrest⟩

end Lines

/-! ## Definitions -/

section Definitions

variable {k : Nat} {cs : List Char} {first : Line} {after : List Line} {b : Block}

/-- What reads the tokens of a decorator line. -/
def decoratorRule : Rule Expr := Rule.symbol "@" *> .inner .full

/-- A text that is the line of a decorator. -/
def IsDecorator (cs : List Char) (d : Expr) : Prop :=
  ∃ ts, IsLine cs ts ∧ decoratorRule.read ts = some (d, [])

/-- The lines of decorators, each behind `k` spaces. -/
def decoratorChars (k : Nat) (ds : List (List Char × Expr)) : List Char :=
  ds.flatMap fun p => List.replicate k ' ' ++ (p.1 ++ ['\n'])

theorem read_decoratorRule {ts : List Token} {d : Expr} {rest : List Token}
    (h : decoratorRule.read ts = some (d, rest)) :
    ∃ t us, ts = t :: us ∧ t.isSymbol "@" = true ∧ (Rule.inner .full).read us = some (d, rest) := by
  have hbind : decoratorRule = Rule.symbol "@" >>= fun _ => .inner .full := rfl
  obtain ⟨_, mid, hsign, hinner⟩ := Rule.read_bind_eq_some.1 (hbind ▸ h)
  obtain ⟨t, rfl, ht⟩ := Rule.read_symbol_eq_some.1 hsign
  exact ⟨t, mid, rfl, ht, hinner⟩

/-- The line of a decorator above other lines. -/
theorem decorator_line {d : Expr} {rest left : List Line} {more : List Expr} (h : IsDecorator cs d)
    (hrest : takeDecorators rest = some (more, left)) (k : Nat) :
    ∃ line t ts, ScansLines (List.replicate k ' ' ++ (cs ++ ['\n'])) [line] ∧ line.indent = k ∧
      line.tokens = t :: ts ∧ t.isSymbol "@" = true ∧
      takeDecorators (line :: rest) = some (d :: more, left) := by
  obtain ⟨ts, hline, hread⟩ := h
  obtain ⟨t, us, rfl, ht, -⟩ := read_decoratorRule hread
  refine ⟨_, t, us, hline.scansLines k, rfl, rfl, ht, ?_⟩
  have hcomment : t.isComment = false := by
    simp only [Lexeme.isSymbol, Bool.and_eq_true, beq_iff_eq] at ht
    simp [Lexeme.isComment, ht.1]
  have hread' : (Rule.symbol "@" *> Rule.inner .full).read (t :: us) = some (d, []) := hread
  rw [takeDecorators]
  simp only [Line.isComment, hcomment, Bool.false_eq_true, if_false, List.head?_cons, Option.any_some,
    ht, if_true, hread', hrest]
  rfl

/-- Lines of decorators are taken up to the first line of what they decorate. -/
theorem takeDecorators_lines {ds : List (List Char × Expr)} (hds : ∀ p ∈ ds, IsDecorator p.1 p.2)
    (hscan : ScansLines cs (first :: after)) (halone : StartsAlone first.tokens) (k : Nat) :
    ∃ lines, ScansLines (decoratorChars k ds ++ cs) (lines ++ first :: after) ∧
      takeDecorators (lines ++ first :: after) = some (ds.map (·.2), first :: after) := by
  induction ds with
  | nil =>
    refine ⟨[], hscan, ?_⟩
    rw [List.nil_append, takeDecorators, isComment_of_startsAlone halone, if_neg (by decide),
      if_neg (not_sign_of_startsAlone halone)]
    rfl
  | cons p ds ih =>
    obtain ⟨lines, hlines, htake⟩ := ih fun q hq => hds q (List.mem_cons_of_mem _ hq)
    obtain ⟨line, -, -, hline, -, -, -, htake'⟩ := decorator_line (hds p List.mem_cons_self) htake k
    refine ⟨line :: lines, ?_, htake'⟩
    have := hline.append hlines
    simpa [decoratorChars] using this

/-- **A definition with its decorators above it is read wherever it stands.** -/
theorem stretch_definition {ds : List (List Char × Expr)} (hds : ∀ p ∈ ds, IsDecorator p.1 p.2)
    (hscan : ScansLines cs (first :: after)) (hindent : first.indent = k)
    (halone : StartsAlone first.tokens)
    (hlead : leadingWord first = some "def" ∨ leadingWord first = some "class")
    (hread : definition readBlock k (ds.map (·.2)) first after = some b) (hrest : b.rest = []) :
    Stretch k (decoratorChars k ds ++ cs) b.body := by
  cases ds with
  | nil =>
    have hstatement : statement readBlock k first after = some b := by
      rw [statement, if_neg (not_sign_of_startsAlone halone)]
      rcases hlead with h | h <;> (rw [h]; simpa using hread)
    have hc := isComment_of_startsAlone halone
    obtain ⟨c, hblock, hbody, hcrest⟩ := readBlock_of_statement hc hindent.ge hstatement hrest
    exact ⟨first, after, c, hscan, hindent,
      below_cons hc hindent (startsWith_of_startsAlone halone), hblock, hbody, hcrest⟩
  | cons p ds =>
    obtain ⟨lines, hlines, htake⟩ :=
      takeDecorators_lines (fun q hq => hds q (List.mem_cons_of_mem _ hq)) hscan halone k
    obtain ⟨line, t, ts, hline, hindent', htokens, ht, htake'⟩ :=
      decorator_line (hds p List.mem_cons_self) htake k
    have hstatement : statement readBlock k line (lines ++ first :: after) = some (b.behind
        (tokenCount (line :: (lines ++ first :: after)) - tokenCount (first :: after))) := by
      rw [statement, htokens]
      simp only [List.head?_cons, Option.any_some, ht, if_true, htake']
      simp only [List.map_cons] at hread
      simp only [Option.bind_eq_bind, Option.bind_some, hread]
      rfl
    have hsymbol : ∀ u : Token, u.isSymbol "@" = true →
        u.isComment = false ∧ ∀ w ∈ clauseWords, u.isWord w = false := by
      intro u hu
      simp only [Lexeme.isSymbol, Bool.and_eq_true, beq_iff_eq] at hu
      exact ⟨by simp [Lexeme.isComment, hu.1], fun w _ => by simp [Lexeme.isWord, hu.1]⟩
    have hc : line.isComment = false := by simp [Line.isComment, htokens, (hsymbol t ht).1]
    have hclause : ∀ w ∈ clauseWords, line.startsWith w = false := by
      intro w hw
      simp [Line.startsWith, htokens, (hsymbol t ht).2 w hw]
    obtain ⟨c, hblock, hbody, hcrest⟩ := readBlock_of_statement hc hindent'.ge hstatement hrest
    refine ⟨line, _, c, ?_, hindent', below_cons hc hindent' hclause, hblock, hbody, hcrest⟩
    have := hline.append hlines
    simpa [decoratorChars] using this

end Definitions

end TypedStubs.Syntax
