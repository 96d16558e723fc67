import Mathlib.Data.List.TakeWhile
import TypedStubs.Proofs.Syntax.Ending

/-! # What stands below a block does not matter

A block is read off the front of some lines.  What it reads does not change when lines are added that
are indented no deeper than the statement around it and that do not go on with one of its statements
(`Below`).  So statements that are read on their own are read in the same way with other ones below
them (`statement_append`, `readBlock_append`), and blocks side by side are read as one
(`readBlock_concat`).
-/
namespace TypedStubs.Syntax

open Rule

/-! ## Lines added below -/

/-- The words that a clause of a statement may start with, after the first one. -/
def clauseWords : List String := ["elif", "else", "except", "finally"]

/-- Lines that may stand below a statement indented by `k`: those up to the first one that is no
comment are indented no deeper, and that one starts no clause. -/
structure Below (k : Nat) (R : List Line) : Prop where
  /-- Comments in front are indented no deeper. -/
  comments : ∀ l ∈ R.takeWhile Line.isComment, l.indent ≤ k
  /-- Neither is the first line that is no comment. -/
  first : ∀ l more, R.dropWhile Line.isComment = l :: more → l.indent ≤ k
  /-- It starts no clause. -/
  noClause : ∀ l more, R.dropWhile Line.isComment = l :: more → ∀ w ∈ clauseWords, l.startsWith w = false

/-- A block with more lines left over. -/
def Block.before (b : Block) (R : List Line) : Block := { b with rest := b.rest ++ R }

@[simp] theorem Block.before_body (b : Block) (R : List Line) : (b.before R).body = b.body := rfl

@[simp] theorem Block.before_used (b : Block) (R : List Line) : (b.before R).used = b.used := rfl

@[simp] theorem Block.before_rest (b : Block) (R : List Line) : (b.before R).rest = b.rest ++ R := rfl

@[simp] theorem Block.behind_before (n : Nat) (b : Block) (R : List Line) :
    (b.before R).behind n = (b.behind n).before R := rfl

@[simp] theorem Block.followedBy_before (n : Nat) (a b : Block) (R : List Line) :
    a.followedBy n (b.before R) = (a.followedBy n b).before R := rfl

@[simp] theorem Block.before_followedBy (n : Nat) (a b : Block) (R : List Line) :
    (a.before R).followedBy n b = a.followedBy n b := rfl

theorem tokenCount_append (ls R : List Line) :
    tokenCount (ls ++ R) = tokenCount ls + tokenCount R := by
  induction ls with
  | nil => simp [tokenCount]
  | cons line ls ih => rw [List.cons_append, tokenCount, tokenCount, ih, Nat.add_assoc]

@[simp] theorem tokenCount_cons (line : Line) (ls : List Line) :
    tokenCount (line :: ls) = line.tokens.length + tokenCount ls := by
  simp [tokenCount]

/-- What two stretches of lines differ by does not change with lines below both. -/
theorem tokenCount_sub (ls ms R : List Line) :
    tokenCount (ls ++ R) - tokenCount (ms ++ R) = tokenCount ls - tokenCount ms := by
  rw [tokenCount_append, tokenCount_append]
  omega

theorem tokenCount_le_of_suffix {ls ms : List Line} (h : ms <:+ ls) :
    tokenCount ms ≤ tokenCount ls := by
  obtain ⟨front, rfl⟩ := h
  rw [tokenCount_append]
  omega

/-- A block that was read off the front of lines: what is left is an end of them, and its statements
reach over no token that is left. -/
structure Within (lines : List Line) (b : Block) : Prop where
  /-- What is left is an end of the lines. -/
  suffix : b.rest <:+ lines
  /-- The statements reach over tokens before it. -/
  used : b.used + tokenCount b.rest ≤ tokenCount lines

/-- Two readers of blocks that agree on `ls`, for which lines added below do not matter, when `ls` has at
most `n` lines and is read as a block indented deeper than `k`. -/
structure Agree (k n : Nat) (R : List Line) (block block' : BlockReader) : Prop where
  /-- The second reader reads the same before more lines. -/
  append : ∀ ⦃i ls b⦄, ls.length ≤ n → k < i → block i ls = some b →
    block' i (ls ++ R) = some (b.before R)
  /-- What is read is read off the front. -/
  within : ∀ ⦃i ls b⦄, ls.length ≤ n → block i ls = some b → Within ls b

/-! ## Bodies -/

section Bodies

variable {k n indent column : Nat} {R after : List Line} {block block' : BlockReader}
  {line : Line} {tokens : List Token} {b : Block}

theorem dropWhile_append_cons {p : Line → Bool} {ls more : List Line} {l : Line}
    (h : ls.dropWhile p = l :: more) (R : List Line) : (ls ++ R).dropWhile p = l :: (more ++ R) := by
  rw [List.dropWhile_append, h]
  rfl

theorem dropWhile_append_nil {p : Line → Bool} {ls : List Line} (h : ls.dropWhile p = [])
    (R : List Line) : (ls ++ R).dropWhile p = R.dropWhile p := by
  rw [List.dropWhile_append, h]
  rfl

theorem length_dropWhile_le (p : Line → Bool) (ls : List Line) : (ls.dropWhile p).length ≤ ls.length :=
  (List.dropWhile_sublist p).length_le

theorem suite_append (hR : Below k R) (hk : k ≤ indent) (hb : Agree k n R block block')
    (hn : after.length ≤ n) (h : suite block indent column tokens after = some b) :
    suite block' indent column tokens (after ++ R) = some (b.before R) := by
  unfold suite at h ⊢
  split at h
  · next hcomments =>
    rw [if_pos hcomments]
    split at h
    · next l more hdrop =>
      have hlen := length_dropWhile_le Line.isComment after
      rw [dropWhile_append_cons hdrop]
      simp only
      split at h
      · next hdeep =>
        obtain ⟨inside, hinside, hbeq⟩ := Option.bind_eq_some_iff.1 h
        obtain rfl := Option.some.inj hbeq
        have hinside' := hb.append (by rw [← hdrop]; omega) (Nat.lt_of_le_of_lt hk hdeep) hinside
        rw [List.cons_append] at hinside'
        rw [if_pos hdeep, hinside', ← List.cons_append, tokenCount_sub]
        rfl
      · next hdeep =>
        obtain rfl := Option.some.inj h
        rw [if_neg hdeep]
        rfl
    · next hdrop =>
      obtain rfl := Option.some.inj h
      rw [dropWhile_append_nil hdrop]
      split
      · next l more hl =>
        have := hR.first l more hl
        rw [if_neg (by omega)]
        rfl
      · rfl
  · next hcomments =>
    rw [if_neg hcomments]
    obtain ⟨body, hbody, hbeq⟩ := Option.bind_eq_some_iff.1 h
    obtain rfl := Option.some.inj hbeq
    rw [hbody]
    rfl

theorem suite_within (hb : Agree k n R block block') (hn : after.length ≤ n)
    (h : suite block indent column tokens after = some b) :
    b.rest <:+ after ∧ b.used + tokenCount b.rest ≤ tokens.length + tokenCount after := by
  unfold suite at h
  split at h
  · split at h
    · next l more hdrop =>
      have hlen := length_dropWhile_le Line.isComment after
      split at h
      · obtain ⟨inside, hinside, hbeq⟩ := Option.bind_eq_some_iff.1 h
        obtain rfl := Option.some.inj hbeq
        obtain ⟨hs, hu⟩ := hb.within (by rw [← hdrop]; omega) hinside
        have hdropped : l :: more <:+ after := hdrop ▸ List.dropWhile_suffix _
        have := tokenCount_le_of_suffix hdropped
        refine ⟨hs.trans hdropped, ?_⟩
        simp only [Block.behind] at hu ⊢
        split <;> omega
      · obtain rfl := Option.some.inj h
        exact ⟨List.suffix_refl _, by simp⟩
    · obtain rfl := Option.some.inj h
      exact ⟨List.suffix_refl _, by simp⟩
  · obtain ⟨body, hbody, hbeq⟩ := Option.bind_eq_some_iff.1 h
    obtain rfl := Option.some.inj hbeq
    exact ⟨List.suffix_refl _, Nat.le_refl _⟩

theorem withSuite_append {parts : List Stmt} (hR : Below k R) (hk : k ≤ indent)
    (hb : Agree k n R block block') (hn : after.length ≤ n)
    (h : withSuite block indent parts line tokens after = some b) :
    withSuite block' indent parts line tokens (after ++ R) = some (b.before R) := by
  obtain ⟨body, hbody, hbeq⟩ := Option.bind_eq_some_iff.1 h
  obtain rfl := Option.some.inj hbeq
  have hbody' := suite_append hR hk hb hn hbody
  simp only [withSuite, hbody']
  rfl

theorem withSuite_within {parts : List Stmt} (hb : Agree k n R block block') (hn : after.length ≤ n)
    (ht : tokens <:+ line.tokens) (h : withSuite block indent parts line tokens after = some b) :
    b.rest <:+ after ∧ b.used + tokenCount b.rest ≤ tokenCount (line :: after) := by
  obtain ⟨body, hbody, hbeq⟩ := Option.bind_eq_some_iff.1 h
  obtain rfl := Option.some.inj hbeq
  obtain ⟨hs, hu⟩ := suite_within hb hn hbody
  have hrest := tokenCount_le_of_suffix hs
  have hlen := ht.length_le
  refine ⟨hs, ?_⟩
  simp only [Block.followedBy, Block.behind, takenSince, List.length_take, tokenCount_cons]
  split <;> omega

theorem clauseBlock_append {head : Rule (List Expr)} (hR : Below k R) (hk : k ≤ indent)
    (hb : Agree k n R block block') (hn : after.length ≤ n)
    (h : clauseBlock block indent head line after = some b) :
    clauseBlock block' indent head line (after ++ R) = some (b.before R) := by
  obtain ⟨⟨parts, tokens⟩, hhead, hbody⟩ := Option.bind_eq_some_iff.1 h
  simp only [clauseBlock, hhead]
  exact withSuite_append hR hk hb hn hbody

theorem clauseBlock_within {head : Rule (List Expr)} (hb : Agree k n R block block')
    (hn : after.length ≤ n) (h : clauseBlock block indent head line after = some b) :
    b.rest <:+ after ∧ b.used + tokenCount b.rest ≤ tokenCount (line :: after) := by
  obtain ⟨⟨parts, tokens⟩, hhead, hbody⟩ := Option.bind_eq_some_iff.1 h
  exact withSuite_within hb hn (Rule.read_consumes _ hhead) hbody

end Bodies

/-! ## Statements of clauses -/

section Clauses

variable {k n indent whole : Nat} {R after : List Line} {block block' : BlockReader}
  {line : Line} {done b : Block}

/-- A clause behind the parts that are done. -/
theorem followedBy_within {clause : Block} {l : Line} {more : List Line}
    (hdrop : done.rest.dropWhile Line.isComment = l :: more)
    (hdone : done.used + tokenCount done.rest ≤ whole)
    (hclause : clause.rest <:+ more ∧ clause.used + tokenCount clause.rest ≤ tokenCount (l :: more)) :
    (done.followedBy (whole - tokenCount (l :: more)) clause).rest <:+ done.rest ∧
      (done.followedBy (whole - tokenCount (l :: more)) clause).used +
        tokenCount (done.followedBy (whole - tokenCount (l :: more)) clause).rest ≤ whole := by
  have hdropped : l :: more <:+ done.rest := hdrop ▸ List.dropWhile_suffix _
  have hle := tokenCount_le_of_suffix hdropped
  obtain ⟨hs, hu⟩ := hclause
  refine ⟨hs.trans ((List.suffix_cons l more).trans hdropped), ?_⟩
  simp only [Block.followedBy, Block.behind]
  split <;> omega

theorem find_follower_none {inTry : Bool} {word : String} {l : Line}
    (h : ∀ w ∈ clauseWords, l.startsWith w = false) :
    (followers inTry word).find? l.startsWith = none := by
  refine List.find?_eq_none.2 fun w hw => ?_
  have hmem : w ∈ clauseWords := by
    unfold followers at hw
    revert hw
    repeat' split
    all_goals simp only [clauseWords, List.mem_cons, List.not_mem_nil, or_false]
    all_goals grind
  simp [h w hmem]

theorem moreClauses_append {inTry : Bool} {word : String} (hR : Below k R) (hk : k ≤ indent)
    (hb : Agree k n R block block') (hn : done.rest.length ≤ n)
    (h : moreClauses block indent inTry whole word done = some b) :
    moreClauses block' indent inTry (whole + tokenCount R) word (done.before R) =
      some (b.before R) := by
  fun_induction moreClauses block indent inTry whole word done with
  | case1 word done l more hdrop hin next hnext clause hclause hlt ih =>
    have hlen := length_dropWhile_le Line.isComment done.rest
    rw [hdrop, List.length_cons] at hlen
    have hclause' := clauseBlock_append hR hk hb (by omega) hclause
    rw [moreClauses, Block.before_rest, dropWhile_append_cons hdrop]
    simp only [hin, if_true, hnext, hclause', Block.before_rest, List.length_append,
      Nat.add_lt_add_iff_right, hlt]
    have htotal : whole + tokenCount R - tokenCount (l :: (more ++ R)) =
        whole - tokenCount (l :: more) := by
      rw [← List.cons_append, tokenCount_append]
      omega
    rw [htotal]
    refine ih ?_ h
    have hrest : clause.rest.length ≤ n := by omega
    exact hrest
  | case4 word done l more hdrop hin hnone =>
    obtain rfl := Option.some.inj h
    rw [moreClauses, Block.before_rest, dropWhile_append_cons hdrop]
    simp only [hin, if_true, hnone]
  | case5 word done l more hdrop hin =>
    obtain rfl := Option.some.inj h
    rw [moreClauses, Block.before_rest, dropWhile_append_cons hdrop]
    simp only [hin, if_false]
  | case6 word done hdrop =>
    obtain rfl := Option.some.inj h
    rw [moreClauses, Block.before_rest, dropWhile_append_nil hdrop]
    split
    · next l more hl =>
      rw [find_follower_none (hR.noClause l more hl)]
      split <;> rfl
    · rfl
  | case2 | case3 => simp at h

theorem moreClauses_within {inTry : Bool} {word : String} (hb : Agree k n R block block')
    (hn : done.rest.length ≤ n) (hdone : done.used + tokenCount done.rest ≤ whole)
    (h : moreClauses block indent inTry whole word done = some b) :
    b.rest <:+ done.rest ∧ b.used + tokenCount b.rest ≤ whole := by
  fun_induction moreClauses block indent inTry whole word done with
  | case1 word done l more hdrop hin next hnext clause hclause hlt ih =>
    have hlen := length_dropWhile_le Line.isComment done.rest
    rw [hdrop, List.length_cons] at hlen
    have hstep := followedBy_within hdrop hdone (clauseBlock_within hb (by omega) hclause)
    have hrest : clause.rest.length ≤ n := by omega
    obtain ⟨hs, hu⟩ := ih hrest hstep.2 h
    exact ⟨hs.trans hstep.1, hu⟩
  | case4 | case5 | case6 =>
    obtain rfl := Option.some.inj h
    exact ⟨List.suffix_refl _, hdone⟩
  | case2 | case3 => simp at h

/-- The first tokens of lines are the same with lines added below. -/
theorem firstTokens_append {m : Nat} {ls : List Line} (h : m ≤ tokenCount ls) (R : List Line)
    (hne : ls ≠ []) : firstTokens m (ls ++ R) = firstTokens m ls := by
  induction ls generalizing m with
  | nil => exact absurd rfl hne
  | cons l ls ih =>
    rw [List.cons_append, firstTokens, firstTokens]
    split
    · rfl
    · next hlt =>
      rw [tokenCount_cons] at h
      have hls : ls ≠ [] := by
        rintro rfl
        rw [tokenCount] at h
        omega
      rw [ih (by omega) hls]
      cases ls with
      | nil => exact absurd rfl hls
      | cons l' ls => rfl

theorem compoundOf_append (hused : b.used ≤ tokenCount (line :: after)) :
    compoundOf line (after ++ R) (b.before R) = (compoundOf line after b).before R := by
  have := firstTokens_append hused R (List.cons_ne_nil _ _)
  rw [List.cons_append] at this
  simp only [compoundOf, Block.before_used, this]
  rfl

theorem clausesStatement_append {word : String} (hR : Below k R) (hk : k ≤ indent)
    (hb : Agree k n R block block') (hn : after.length ≤ n)
    (h : clausesStatement block indent word line after = some b) :
    clausesStatement block' indent word line (after ++ R) = some (b.before R) := by
  obtain ⟨first, hfirst, h⟩ := Option.bind_eq_some_iff.1 h
  obtain ⟨all, hall, h⟩ := Option.bind_eq_some_iff.1 h
  have hw := clauseBlock_within hb hn hfirst
  have hwlen := hw.1.length_le
  have hall' := moreClauses_append hR hk hb (by omega) hall
  have hallw := moreClauses_within hb (by omega) hw.2 hall
  have hfirst' := clauseBlock_append hR hk hb hn hfirst
  have htotal : tokenCount (line :: (after ++ R)) = tokenCount (line :: after) + tokenCount R := by
    rw [← List.cons_append, tokenCount_append]
  simp only [clausesStatement, hfirst', htotal, Option.bind_eq_bind, Option.bind_some, hall',
    Block.before_rest, List.length_append, Nat.add_right_cancel_iff]
  split at h
  · simp at h
  next htry =>
  obtain rfl := Option.some.inj h
  rw [if_neg htry, compoundOf_append (by omega)]
  rfl

theorem clausesStatement_within {word : String} (hb : Agree k n R block block')
    (hn : after.length ≤ n) (h : clausesStatement block indent word line after = some b) :
    b.rest <:+ after ∧ b.used + tokenCount b.rest ≤ tokenCount (line :: after) := by
  obtain ⟨first, hfirst, h⟩ := Option.bind_eq_some_iff.1 h
  obtain ⟨all, hall, h⟩ := Option.bind_eq_some_iff.1 h
  have hw := clauseBlock_within hb hn hfirst
  have hwlen := hw.1.length_le
  have hallw := moreClauses_within hb (by omega) hw.2 hall
  split at h
  · simp at h
  obtain rfl := Option.some.inj h
  exact ⟨hallw.1.trans hw.1, hallw.2⟩

end Clauses

/-! ## Cases -/

section Cases

variable {k n indent whole : Nat} {R after : List Line} {block block' : BlockReader}
  {line : Line} {done b : Block}

/-- Comments below a deeper block do not stay in it. -/
theorem closingComments_append (hR : Below k R) (hk : k < indent) (ls : List Line) :
    closingComments indent (ls ++ R) = closingComments indent ls := by
  unfold closingComments
  induction ls with
  | nil =>
    cases R with
    | nil => rfl
    | cons l R =>
      by_cases hl : l.isComment = true
      · have := hR.comments l (by simp [hl])
        simp [hl, Nat.not_le.2 (Nat.lt_of_le_of_lt this hk)]
      · simp [hl]
  | cons l ls ih =>
    by_cases hl : l.isComment = true
    · by_cases hd : indent ≤ l.indent
      · simp [hl, hd, ih]
      · simp [hl, hd]
    · simp [hl]

theorem isPrefix_closingComments (indent : Nat) (ls : List Line) : closingComments indent ls <+: ls :=
  (List.takeWhile_prefix _).trans (List.takeWhile_prefix _)

theorem blockEnd_append (hR : Below k R) (hk : k < indent) (ls : List Line) :
    blockEnd indent (ls ++ R) = (blockEnd indent ls).before R := by
  have hlen := (isPrefix_closingComments indent ls).length_le
  rw [blockEnd, closingComments_append hR hk, List.drop_append_of_le_length hlen]
  rfl

theorem blockEnd_within (indent : Nat) (ls : List Line) : Within ls (blockEnd indent ls) where
  suffix := List.drop_suffix _ _
  used := by
    obtain ⟨rest, hrest⟩ := isPrefix_closingComments indent ls
    have hdrop := congrArg (List.drop (closingComments indent ls).length) hrest
    have hcount := congrArg tokenCount hrest
    rw [List.drop_left] at hdrop
    rw [tokenCount_append] at hcount
    simp only [blockEnd, commentBlock, ← hdrop]
    omega

/-- The end of the cases behind the parts that are done. -/
def casesEnd (indent whole : Nat) (done : Block) : Block :=
  done.followedBy (whole - tokenCount done.rest) { blockEnd indent done.rest with body := [] }

theorem casesEnd_append (hR : Below k R) (hk : k < indent) :
    casesEnd indent (whole + tokenCount R) (done.before R) = (casesEnd indent whole done).before R := by
  have htotal : whole + tokenCount R - tokenCount (done.rest ++ R) = whole - tokenCount done.rest := by
    rw [tokenCount_append]
    omega
  rw [casesEnd, Block.before_rest, blockEnd_append hR hk, htotal]
  rfl

theorem casesEnd_within (hdone : done.used + tokenCount done.rest ≤ whole) :
    (casesEnd indent whole done).rest <:+ done.rest ∧
      (casesEnd indent whole done).used + tokenCount (casesEnd indent whole done).rest ≤ whole := by
  obtain ⟨hs, hu⟩ := blockEnd_within indent done.rest
  have := tokenCount_le_of_suffix hs
  refine ⟨hs, ?_⟩
  simp only [casesEnd, Block.followedBy, Block.behind]
  split <;> omega

theorem cases_append (hR : Below k R) (hk : k < indent) (hb : Agree k n R block block')
    (hn : done.rest.length ≤ n) (h : cases block indent whole done = some b) :
    cases block' indent (whole + tokenCount R) (done.before R) = some (b.before R) := by
  fun_induction cases block indent whole done with
  | case1 done l more hdrop hin clause hclause hlt ih =>
    have hlen := length_dropWhile_le Line.isComment done.rest
    rw [hdrop, List.length_cons] at hlen
    have hclause' := clauseBlock_append hR (Nat.le_of_lt hk) hb (by omega) hclause
    rw [cases, Block.before_rest, dropWhile_append_cons hdrop]
    simp only [hin, if_true, hclause', Block.before_rest, List.length_append,
      Nat.add_lt_add_iff_right, hlt]
    have htotal : whole + tokenCount R - tokenCount (l :: (more ++ R)) =
        whole - tokenCount (l :: more) := by
      rw [← List.cons_append, tokenCount_append]
      omega
    rw [htotal]
    refine ih ?_ h
    have hrest : clause.rest.length ≤ n := by omega
    exact hrest
  | case4 done l more hdrop hin =>
    obtain rfl := Option.some.inj h
    rw [cases, Block.before_rest, dropWhile_append_cons hdrop]
    simp only [hin, if_false]
    exact congrArg some (casesEnd_append hR hk)
  | case5 done hdrop =>
    obtain rfl := Option.some.inj h
    rw [cases, Block.before_rest, dropWhile_append_nil hdrop]
    split
    · next l more hl =>
      have := hR.first l more hl
      rw [if_neg (by omega)]
      exact congrArg some (casesEnd_append hR hk)
    · exact congrArg some (casesEnd_append hR hk)
  | case2 | case3 => simp at h

theorem cases_within (hb : Agree k n R block block') (hn : done.rest.length ≤ n)
    (hdone : done.used + tokenCount done.rest ≤ whole) (h : cases block indent whole done = some b) :
    b.rest <:+ done.rest ∧ b.used + tokenCount b.rest ≤ whole := by
  fun_induction cases block indent whole done with
  | case1 done l more hdrop hin clause hclause hlt ih =>
    have hlen := length_dropWhile_le Line.isComment done.rest
    rw [hdrop, List.length_cons] at hlen
    have hstep := followedBy_within hdrop hdone (clauseBlock_within hb (by omega) hclause)
    have hrest : clause.rest.length ≤ n := by omega
    obtain ⟨hs, hu⟩ := ih hrest hstep.2 h
    exact ⟨hs.trans hstep.1, hu⟩
  | case4 | case5 =>
    obtain rfl := Option.some.inj h
    exact casesEnd_within hdone
  | case2 | case3 => simp at h

theorem matchStatement_append (hR : Below k R) (hk : k ≤ indent) (hb : Agree k n R block block')
    (hn : after.length ≤ n) (h : matchStatement block indent line after = some b) :
    matchStatement block' indent line (after ++ R) = some (b.before R) := by
  unfold matchStatement at h ⊢
  obtain ⟨⟨subjects, tokens⟩, hhead, h⟩ := Option.bind_eq_some_iff.1 h
  rw [hhead]
  simp only [Option.bind_eq_bind, Option.bind_some] at h ⊢
  split at h
  · next hcomments =>
    rw [if_pos hcomments]
    split at h
    · next first more hdrop =>
      rw [dropWhile_append_cons hdrop]
      simp only
      split at h
      · next hcase =>
        rw [if_pos hcase]
        obtain ⟨all, hall, hbeq⟩ := Option.bind_eq_some_iff.1 h
        obtain rfl := Option.some.inj hbeq
        have hlen := length_dropWhile_le Line.isComment after
        have hrest : (first :: more).length ≤ n := by rw [← hdrop]; omega
        have hall' := cases_append hR (Nat.lt_of_le_of_lt hk hcase.1) hb hrest hall
        have hdropped : first :: more <:+ after := hdrop ▸ List.dropWhile_suffix _
        have hle : tokenCount (first :: more) ≤ tokenCount (line :: after) :=
          tokenCount_le_of_suffix (hdropped.trans (List.suffix_cons _ _))
        have hallw := cases_within hb hrest (by simpa using hle) hall
        rw [← tokenCount_append] at hall'
        simp only [Block.before, List.cons_append] at hall'
        rw [hall']
        simp only [Option.bind_some]
        have : compoundOf line (after ++ R) (all.before R) = (compoundOf line after all).before R :=
          compoundOf_append (by omega)
        simp only [Block.before] at this
        rw [this]
        rfl
      · simp at h
    · simp at h
  · simp at h

theorem matchStatement_within (hb : Agree k n R block block') (hn : after.length ≤ n)
    (h : matchStatement block indent line after = some b) :
    b.rest <:+ after ∧ b.used + tokenCount b.rest ≤ tokenCount (line :: after) := by
  unfold matchStatement at h
  obtain ⟨⟨subjects, tokens⟩, hhead, h⟩ := Option.bind_eq_some_iff.1 h
  simp only at h
  split at h
  · split at h
    · next first more hdrop =>
      split at h
      · next hcase =>
        obtain ⟨all, hall, hbeq⟩ := Option.bind_eq_some_iff.1 h
        obtain rfl := Option.some.inj hbeq
        have hlen := length_dropWhile_le Line.isComment after
        have hrest : (first :: more).length ≤ n := by rw [← hdrop]; omega
        have hdropped : first :: more <:+ after := hdrop ▸ List.dropWhile_suffix _
        have hle : tokenCount (first :: more) ≤ tokenCount (line :: after) :=
          tokenCount_le_of_suffix (hdropped.trans (List.suffix_cons _ _))
        obtain ⟨hs, hu⟩ := cases_within hb hrest (by simpa using hle) hall
        exact ⟨hs.trans hdropped, hu⟩
      · simp at h
    · simp at h
  · simp at h

end Cases

/-! ## Definitions -/

section Definitions

variable {k n indent : Nat} {R after : List Line} {block block' : BlockReader} {line : Line} {b : Block}

theorem placedUpTo_suffix {α : Type} {closing : String} {r : Rule α} {ts rest : List Token}
    {found : List (Placed α) × List Char} (h : placedUpTo closing r ts = some (found, rest)) :
    rest <:+ ts := by
  fun_induction placedUpTo closing r ts generalizing found rest with
  | case2 t ts hclosing =>
    obtain ⟨-, rfl⟩ := Prod.mk.inj (Option.some.inj h)
    exact List.suffix_cons _ _
  | case3 t ts hclosing a u mid hread hend =>
    obtain ⟨-, rfl⟩ := Prod.mk.inj (Option.some.inj h)
    exact (List.suffix_cons _ _).trans (Rule.read_consumes r hread)
  | case4 =>
    rename_i hread first hend hcomma hle more last rest' hmore ih
    obtain ⟨-, rfl⟩ := Prod.mk.inj (Option.some.inj h)
    exact (ih hmore).trans ((List.suffix_cons _ _).trans (Rule.read_consumes r hread))
  | _ => simp at h

theorem functionHead_suffix {ts rest : List Token} {head : FunctionHead}
    (h : functionHead ts = some (head, rest)) : rest <:+ ts := by
  obtain ⟨⟨front, ts₁⟩, hfront, h⟩ := Option.bind_eq_some_iff.1 h
  obtain ⟨⟨params, ts₂⟩, hparams, h⟩ := Option.bind_eq_some_iff.1 h
  obtain ⟨⟨returns, ts₃⟩, hend, h⟩ := Option.bind_eq_some_iff.1 h
  obtain ⟨-, rfl⟩ := Prod.mk.inj (Option.some.inj h)
  exact (Rule.read_consumes _ hend).trans
    ((placedUpTo_suffix hparams).trans (Rule.read_consumes _ hfront))

theorem classHead_suffix {ts rest : List Token} {head : ClassHead}
    (h : classHead ts = some (head, rest)) : rest <:+ ts := by
  obtain ⟨⟨⟨name, opened⟩, ts₁⟩, hfront, h⟩ := Option.bind_eq_some_iff.1 h
  obtain ⟨⟨⟨arguments, last⟩, ts₂⟩, harguments, h⟩ := Option.bind_eq_some_iff.1 h
  obtain ⟨⟨_, ts₃⟩, hend, h⟩ := Option.bind_eq_some_iff.1 h
  obtain ⟨-, rfl⟩ := Prod.mk.inj (Option.some.inj h)
  have hmid : ts₂ <:+ ts₁ := by
    rw [classArguments] at harguments
    split at harguments
    · exact placedUpTo_suffix harguments
    · obtain ⟨-, rfl⟩ := Prod.mk.inj (Option.some.inj harguments)
      exact List.suffix_refl _
  exact (Rule.read_consumes _ hend).trans (hmid.trans (Rule.read_consumes _ hfront))

theorem definition_append {decorators : List Expr} (hR : Below k R) (hk : k ≤ indent)
    (hb : Agree k n R block block') (hn : after.length ≤ n)
    (h : definition block indent decorators line after = some b) :
    definition block' indent decorators line (after ++ R) = some (b.before R) := by
  unfold definition at h ⊢
  split at h
  · next hclass =>
    obtain ⟨⟨head, tokens⟩, hhead, h⟩ := Option.bind_eq_some_iff.1 h
    obtain ⟨body, hbody, hbeq⟩ := Option.bind_eq_some_iff.1 h
    obtain rfl := Option.some.inj hbeq
    simp only [hclass, if_true, hhead, Option.bind_eq_bind, Option.bind_some,
      withSuite_append hR hk hb hn hbody]
    rfl
  · next hclass =>
    obtain ⟨⟨head, tokens⟩, hhead, h⟩ := Option.bind_eq_some_iff.1 h
    obtain ⟨body, hbody, hbeq⟩ := Option.bind_eq_some_iff.1 h
    obtain rfl := Option.some.inj hbeq
    simp only [hclass, hhead, Option.bind_eq_bind, Option.bind_some,
      withSuite_append hR hk hb hn hbody]
    rfl

theorem definition_within {decorators : List Expr} (hb : Agree k n R block block')
    (hn : after.length ≤ n) (h : definition block indent decorators line after = some b) :
    b.rest <:+ after ∧ b.used + tokenCount b.rest ≤ tokenCount (line :: after) := by
  unfold definition at h
  split at h
  · obtain ⟨⟨head, tokens⟩, hhead, h⟩ := Option.bind_eq_some_iff.1 h
    obtain ⟨body, hbody, hbeq⟩ := Option.bind_eq_some_iff.1 h
    obtain rfl := Option.some.inj hbeq
    have := withSuite_within hb hn (classHead_suffix hhead) hbody
    exact this
  · obtain ⟨⟨head, tokens⟩, hhead, h⟩ := Option.bind_eq_some_iff.1 h
    obtain ⟨body, hbody, hbeq⟩ := Option.bind_eq_some_iff.1 h
    obtain rfl := Option.some.inj hbeq
    have := withSuite_within hb hn (functionHead_suffix hhead) hbody
    exact this

theorem takeDecorators_append {ls rest : List Line} {decorators : List Expr}
    (h : takeDecorators ls = some (decorators, rest)) :
    rest <:+ ls ∧ takeDecorators (ls ++ R) = some (decorators, rest ++ R) := by
  induction ls generalizing decorators with
  | nil => simp [takeDecorators] at h
  | cons l ls ih =>
    rw [takeDecorators] at h
    rw [List.cons_append, takeDecorators]
    split at h
    · next hcomment =>
      rw [if_pos hcomment]
      obtain ⟨hs, hmore⟩ := ih h
      exact ⟨hs.trans (List.suffix_cons _ _), hmore⟩
    next hcomment =>
    rw [if_neg hcomment]
    split at h
    · next hsign =>
      rw [if_pos hsign]
      obtain ⟨⟨decorator, tokens⟩, hread, h⟩ := Option.bind_eq_some_iff.1 h
      rw [hread]
      simp only [Option.bind_eq_bind, Option.bind_some] at h ⊢
      split at h
      · next hall =>
        rw [if_pos hall]
        obtain ⟨⟨more, rest'⟩, hmore, hbeq⟩ := Option.bind_eq_some_iff.1 h
        obtain ⟨rfl, rfl⟩ := Prod.mk.inj (Option.some.inj hbeq)
        obtain ⟨hs, hmore'⟩ := ih hmore
        rw [hmore']
        exact ⟨hs.trans (List.suffix_cons _ _), rfl⟩
      · simp at h
    · next hsign =>
      rw [if_neg hsign]
      obtain ⟨rfl, rfl⟩ := Prod.mk.inj (Option.some.inj h)
      exact ⟨List.suffix_refl _, rfl⟩

end Definitions

/-! ## Statements and blocks -/

section Blocks

variable {k n indent : Nat} {R after : List Line} {block block' : BlockReader} {line : Line} {b : Block}

/-- No line is both the head of a `match` and a statement of its own. -/
theorem simpleBlock_of_matchHead {subjects : List Expr} {tokens : List Token}
    (h : matchHead.read line.tokens = some (subjects, tokens))
    (hc : tokens.all (·.isComment) = true) : simpleBlock line after = none := by
  rw [simpleBlock, simpleStatements_of_matchHead h hc]
  rfl

theorem simpleBlock_append (h : simpleBlock line after = some b) :
    simpleBlock line (after ++ R) = some (b.before R) := by
  obtain ⟨body, hbody, hbeq⟩ := Option.bind_eq_some_iff.1 h
  obtain rfl := Option.some.inj hbeq
  simp only [simpleBlock, hbody]
  rfl

theorem simpleBlock_within (h : simpleBlock line after = some b) :
    b.rest <:+ after ∧ b.used + tokenCount b.rest ≤ tokenCount (line :: after) := by
  obtain ⟨body, hbody, hbeq⟩ := Option.bind_eq_some_iff.1 h
  obtain rfl := Option.some.inj hbeq
  exact ⟨List.suffix_refl _, by simp⟩

/-- A line that is a statement of its own is not the head of a `match` with other lines either. -/
theorem matchStatement_eq_none (h : simpleBlock line after = some b) (R : List Line) :
    matchStatement block indent line R = none := by
  unfold matchStatement
  cases hhead : matchHead.read line.tokens with
  | none => rfl
  | some found =>
    simp only [Option.bind_eq_bind, Option.bind_some]
    split
    · next hc => rw [simpleBlock_of_matchHead hhead hc] at h; cases h
    · rfl

/-- **A statement is read in the same way with lines added below it.** -/
theorem statement_append (hR : Below k R) (hk : k ≤ indent) (hb : Agree k n R block block')
    (hn : after.length ≤ n) (h : statement block indent line after = some b) :
    statement block' indent line (after ++ R) = some (b.before R) := by
  unfold statement at h ⊢
  split at h
  · next hsign =>
    rw [if_pos hsign]
    obtain ⟨⟨decorators, lines⟩, hdecorators, h⟩ := Option.bind_eq_some_iff.1 h
    obtain ⟨hs, happend⟩ := takeDecorators_append hdecorators
    rw [List.cons_append] at happend
    rw [happend]
    cases lines with
    | nil => simp at h
    | cons first rest =>
      obtain ⟨defined, hdefined, hbeq⟩ := Option.bind_eq_some_iff.1 h
      obtain rfl := Option.some.inj hbeq
      have hlen := hs.length_le
      simp only [List.length_cons] at hlen
      have hdefined' := definition_append hR hk hb (by omega) hdefined
      have htotal : tokenCount (line :: (after ++ R)) - tokenCount (first :: (rest ++ R)) =
          tokenCount (line :: after) - tokenCount (first :: rest) := by
        rw [← List.cons_append, ← List.cons_append, tokenCount_sub]
      simp only [List.cons_append, Option.bind_eq_bind, Option.bind_some, hdefined', htotal]
      rfl
  next hsign =>
  rw [if_neg hsign]
  split at h
  · next word hword =>
    split at h
    · next hdefinition =>
      rw [if_pos hdefinition]
      exact definition_append hR hk hb hn h
    next hdefinition =>
    split at h
    · next hclauses =>
      rw [if_neg hdefinition, if_pos hclauses]
      exact clausesStatement_append hR hk hb hn h
    next hclauses =>
    split at h
    · next hmatch =>
      rw [if_neg hdefinition, if_neg hclauses, if_pos hmatch]
      cases hstatement : matchStatement block indent line after with
      | some found =>
        rw [hstatement] at h
        obtain rfl := Option.some.inj h
        rw [matchStatement_append hR hk hb hn hstatement]
        rfl
      | none =>
        rw [hstatement] at h
        have h : simpleBlock line after = some b := h
        rw [matchStatement_eq_none h, simpleBlock_append h]
        rfl
    next hmatch =>
    rw [if_neg hdefinition, if_neg hclauses, if_neg hmatch]
    exact simpleBlock_append h
  · exact simpleBlock_append h

theorem statement_within (hb : Agree k n R block block') (hn : after.length ≤ n)
    (h : statement block indent line after = some b) :
    b.rest <:+ after ∧ b.used + tokenCount b.rest ≤ tokenCount (line :: after) := by
  unfold statement at h
  split at h
  · next hsign =>
    obtain ⟨⟨decorators, lines⟩, hdecorators, h⟩ := Option.bind_eq_some_iff.1 h
    obtain ⟨hs, -⟩ := takeDecorators_append (R := []) hdecorators
    cases lines with
    | nil => simp at h
    | cons first rest =>
      obtain ⟨defined, hdefined, hbeq⟩ := Option.bind_eq_some_iff.1 h
      obtain rfl := Option.some.inj hbeq
      have hlen := hs.length_le
      have hcount := tokenCount_le_of_suffix hs
      simp only [List.length_cons] at hlen
      obtain ⟨hs', hu⟩ := definition_within hb (by omega) hdefined
      have hrest : rest <:+ after := by
        rcases List.suffix_cons_iff.1 hs with heq | hlt
        · obtain ⟨rfl, rfl⟩ := List.cons.inj heq
          exact List.suffix_refl _
        · exact (List.suffix_cons _ _).trans hlt
      refine ⟨hs'.trans hrest, ?_⟩
      simp only [Block.behind]
      split <;> omega
  split at h
  · split at h
    · exact definition_within hb hn h
    split at h
    · exact clausesStatement_within hb hn h
    split at h
    · cases hstatement : matchStatement block indent line after with
      | some found =>
        rw [hstatement] at h
        obtain rfl := Option.some.inj h
        exact matchStatement_within hb hn hstatement
      | none =>
        rw [hstatement] at h
        exact simpleBlock_within h
    · exact simpleBlock_within h
  · exact simpleBlock_within h

/-- The reader of the blocks inside one of `n` lines. -/
abbrev inside (n : Nat) (i : Nat) (ls : List Line) : Option Block :=
  if ls.length < n then readBlock i ls else none

/-- A block that starts with a statement, after comments. -/
theorem readBlock_statement {ls : List Line} (hdrop : ls.dropWhile Line.isComment = line :: after)
    (hindent : indent ≤ line.indent) :
    readBlock indent ls = (do
      let comments := commentBlock (ls.takeWhile Line.isComment) []
      let read ← statement (inside ls.length) indent line after
      let more ← inside ls.length indent read.rest
      let past := tokenCount ls - tokenCount read.rest
      return comments.followedBy comments.used (read.followedBy (past - comments.used) more)) := by
  rw [readBlock]
  split
  · next l more hl =>
    obtain ⟨rfl, rfl⟩ := List.cons.inj (hl.symm.trans hdrop)
    rw [if_pos hindent]
  · next hnil => rw [hnil] at hdrop; cases hdrop

/-- A block that has no statement. -/
theorem readBlock_end {ls : List Line}
    (hend : ∀ l more, ls.dropWhile Line.isComment = l :: more → l.indent < indent) :
    readBlock indent ls = some (blockEnd indent ls) := by
  rw [readBlock]
  split
  · next l more hl => rw [if_neg (Nat.not_le.2 (hend l more hl))]
  · rfl

theorem Agree.nested {len m : Nat} (h : Agree k n R readBlock readBlock) (hm : n + R.length < m) :
    Agree k n R (inside len) (inside m) where
  append := by
    intro i ls b hn hi hread
    simp only [inside, Option.ite_none_right_eq_some] at hread ⊢
    refine ⟨?_, h.append hn hi hread.2⟩
    rw [List.length_append]
    omega
  within := by
    intro i ls b hn hread
    simp only [inside, Option.ite_none_right_eq_some] at hread
    exact h.within hn hread.2

theorem Agree.nested_right {m : Nat} (h : Agree k n R readBlock readBlock) (hm : n + R.length < m) :
    Agree k n R readBlock (inside m) where
  append := by
    intro i ls b hn hi hread
    simp only [inside, Option.ite_none_right_eq_some]
    refine ⟨?_, h.append hn hi hread⟩
    rw [List.length_append]
    omega
  within := h.within

theorem length_after_lt {ls : List Line} (hdrop : ls.dropWhile Line.isComment = line :: after) :
    after.length < ls.length := by
  have := length_dropWhile_le Line.isComment ls
  rw [hdrop, List.length_cons] at this
  omega

/-- The first lines up to one that is no comment are the same with lines added below. -/
theorem takeWhile_append_of_dropWhile {ls : List Line}
    (hdrop : ls.dropWhile Line.isComment = line :: after) (R : List Line) :
    (ls ++ R).takeWhile Line.isComment = ls.takeWhile Line.isComment := by
  rw [List.takeWhile_append, if_neg]
  intro hlen
  have hsplit := congrArg List.length (List.takeWhile_append_dropWhile (p := Line.isComment) (l := ls))
  rw [List.length_append, hdrop, List.length_cons] at hsplit
  omega

/-- What is read of a block: the comments in front, a statement, and what is read behind it. -/
theorem readBlock_eq_some {ls : List Line} (hdrop : ls.dropWhile Line.isComment = line :: after)
    (hindent : indent ≤ line.indent) :
    readBlock indent ls = some b ↔
      ∃ read more, statement (inside ls.length) indent line after = some read ∧
        inside ls.length indent read.rest = some more ∧
        b = (commentBlock (ls.takeWhile Line.isComment) []).followedBy
          (tokenCount (ls.takeWhile Line.isComment)) (read.followedBy
            (tokenCount ls - tokenCount read.rest - tokenCount (ls.takeWhile Line.isComment)) more) := by
  rw [readBlock_statement hdrop hindent]
  constructor
  · intro h
    obtain ⟨read, hread, h⟩ := Option.bind_eq_some_iff.1 h
    obtain ⟨more, hmore, hbeq⟩ := Option.bind_eq_some_iff.1 h
    exact ⟨read, more, hread, hmore, (Option.some.inj hbeq).symm⟩
  · rintro ⟨read, more, hread, hmore, rfl⟩
    simp only [hread, Option.bind_eq_bind, Option.bind_some, hmore]
    rfl

theorem readBlock_append_step {ls : List Line} (hR : Below k R)
    (ih : ∀ m, m < ls.length → Agree k m R readBlock readBlock) (hi : k < indent)
    (h : readBlock indent ls = some b) : readBlock indent (ls ++ R) = some (b.before R) := by
  cases hdrop : ls.dropWhile Line.isComment with
  | nil =>
    rw [readBlock_end fun l more hl => by rw [hl] at hdrop; cases hdrop] at h
    obtain rfl := Option.some.inj h
    rw [readBlock_end, blockEnd_append hR hi]
    intro l more hl
    rw [dropWhile_append_nil hdrop] at hl
    exact Nat.lt_of_le_of_lt (hR.first l more hl) hi
  | cons line after =>
    by_cases hindent : indent ≤ line.indent
    · obtain ⟨read, more, hread, hmore, rfl⟩ := (readBlock_eq_some hdrop hindent).1 h
      have hlen := length_after_lt hdrop
      have hagree : Agree k after.length R (inside ls.length) (inside (ls ++ R).length) :=
        (ih _ hlen).nested (by rw [List.length_append]; omega)
      have hread' := statement_append hR (Nat.le_of_lt hi) hagree (Nat.le_refl _) hread
      have hrest := (statement_within hagree (Nat.le_refl _) hread).1.length_le
      have hmore' := hagree.append hrest hi hmore
      refine (readBlock_eq_some (dropWhile_append_cons hdrop R) hindent).2
        ⟨_, _, hread', hmore', ?_⟩
      rw [takeWhile_append_of_dropWhile hdrop, Block.before_rest, tokenCount_sub]
      rfl
    · rw [readBlock_end fun l more hl => by
        rw [hdrop] at hl; obtain ⟨rfl, -⟩ := List.cons.inj hl; omega] at h
      obtain rfl := Option.some.inj h
      rw [readBlock_end, blockEnd_append hR hi]
      intro l more hl
      rw [dropWhile_append_cons hdrop] at hl
      obtain ⟨rfl, -⟩ := List.cons.inj hl
      omega

theorem readBlock_within_step {ls : List Line}
    (ih : ∀ m, m < ls.length → Agree k m R readBlock readBlock)
    (h : readBlock indent ls = some b) : Within ls b := by
  cases hdrop : ls.dropWhile Line.isComment with
  | nil =>
    rw [readBlock_end fun l more hl => by rw [hl] at hdrop; cases hdrop] at h
    obtain rfl := Option.some.inj h
    exact blockEnd_within _ _
  | cons line after =>
    by_cases hindent : indent ≤ line.indent
    · obtain ⟨read, more, hread, hmore, rfl⟩ := (readBlock_eq_some hdrop hindent).1 h
      have hlen := length_after_lt hdrop
      have hagree : Agree k after.length R (inside ls.length) (inside (ls ++ R).length) :=
        (ih _ hlen).nested (by rw [List.length_append]; omega)
      obtain ⟨hs, hu⟩ := statement_within hagree (Nat.le_refl _) hread
      obtain ⟨hs', hu'⟩ := hagree.within hs.length_le hmore
      have hsplit := congrArg tokenCount
        (List.takeWhile_append_dropWhile (p := Line.isComment) (l := ls))
      rw [tokenCount_append, hdrop] at hsplit
      have hafter : after <:+ ls := (List.suffix_cons _ _).trans (hdrop ▸ List.dropWhile_suffix _)
      have hcount := tokenCount_le_of_suffix hs'
      refine ⟨hs'.trans (hs.trans hafter), ?_⟩
      simp only [Block.followedBy, Block.behind, commentBlock]
      split <;> split <;> omega
    · rw [readBlock_end fun l more hl => by
        rw [hdrop] at hl; obtain ⟨rfl, -⟩ := List.cons.inj hl; omega] at h
      obtain rfl := Option.some.inj h
      exact blockEnd_within _ _

/-- **A block is read in the same way with lines added below it**, if they are indented less. -/
theorem agree_readBlock (hR : Below k R) (n : Nat) : Agree k n R readBlock readBlock := by
  induction n using Nat.strongRecOn with
  | _ n ih =>
    constructor
    · intro i ls b hn hi h
      exact readBlock_append_step hR (fun m hm => ih m (by omega)) hi h
    · intro i ls b hn h
      exact readBlock_within_step (fun m hm => ih m (by omega)) h

end Blocks

/-! ## Blocks side by side -/

section Concat

variable {k : Nat} {R ls : List Line} {a b : Block}

theorem below_nil (k : Nat) : Below k [] where
  comments := fun l hl => by simp at hl
  first := fun l more hl => by simp at hl
  noClause := fun l more hl => by simp at hl

@[simp] theorem Block.before_nil (b : Block) : b.before [] = b := by
  cases b
  simp [Block.before]

theorem dropWhile_comments_append {cs : List Line} (hc : ∀ l ∈ cs, l.isComment = true ∧ k ≤ l.indent)
    (R : List Line) : (cs ++ R).dropWhile Line.isComment = R.dropWhile Line.isComment :=
  List.dropWhile_append_of_pos fun l hl => (hc l hl).1

/-- Comments in front of a block are read as part of it. -/
theorem readBlock_comments {cs : List Line} (hc : ∀ l ∈ cs, l.isComment = true ∧ k ≤ l.indent)
    (hb : readBlock k R = some b) :
    ∃ c, readBlock k (cs ++ R) = some c ∧ c.body = cs.flatMap commentOf ++ b.body ∧
      c.rest = b.rest := by
  have hdropWhile := dropWhile_comments_append hc R
  have htake : (cs ++ R).takeWhile Line.isComment = cs ++ R.takeWhile Line.isComment :=
    List.takeWhile_append_of_pos fun l hl => (hc l hl).1
  by_cases hstart : ∃ line after, R.dropWhile Line.isComment = line :: after ∧ k ≤ line.indent
  · obtain ⟨line, after, hdrop, hindent⟩ := hstart
    obtain ⟨read, more, hread, hmore, rfl⟩ := (readBlock_eq_some hdrop hindent).1 hb
    have hlen := length_after_lt hdrop
    have hagree : Agree k after.length [] (inside R.length) (inside (cs ++ R).length) := by
      refine (agree_readBlock (below_nil k) _).nested ?_
      rw [List.length_append, List.length_nil]
      omega
    have hread' := statement_append (below_nil k) (Nat.le_refl k) hagree (Nat.le_refl _) hread
    rw [List.append_nil, Block.before_nil] at hread'
    have hmore' : inside (cs ++ R).length k read.rest = some more := by
      simp only [inside, Option.ite_none_right_eq_some] at hmore ⊢
      refine ⟨?_, hmore.2⟩
      rw [List.length_append]
      omega
    refine ⟨_, (readBlock_eq_some (hdropWhile.trans hdrop) hindent).2
      ⟨read, more, hread', hmore', rfl⟩, ?_, rfl⟩
    simp [Block.followedBy, Block.behind, commentBlock, htake]
  · have hend : ∀ l more, R.dropWhile Line.isComment = l :: more → l.indent < k :=
      fun l more hl => Nat.not_le.1 fun hle => hstart ⟨l, more, hl, hle⟩
    rw [readBlock_end hend] at hb
    obtain rfl := Option.some.inj hb
    have hclosing : closingComments k (cs ++ R) = cs ++ closingComments k R := by
      rw [closingComments, htake, List.takeWhile_append_of_pos fun l hl => by simpa using (hc l hl).2]
      rfl
    refine ⟨_, readBlock_end fun l more hl => hend l more (hdropWhile ▸ hl), ?_, ?_⟩
    · simp [blockEnd, commentBlock, hclosing]
    · simp only [blockEnd, commentBlock, hclosing, List.length_append]
      rw [← List.drop_drop, List.drop_left]

/-- A block without a statement that leaves nothing has only comments. -/
theorem comments_of_blockEnd (h : (blockEnd k ls).rest = []) :
    ∀ l ∈ ls, l.isComment = true ∧ k ≤ l.indent := by
  have hall : closingComments k ls = ls :=
    (isPrefix_closingComments k ls).eq_of_length_le (List.drop_eq_nil_iff.1 h)
  intro l hl
  rw [← hall] at hl
  have hcomment := (List.takeWhile_sublist _).subset hl
  exact ⟨List.all_eq_true.1 List.all_takeWhile l hcomment,
    of_decide_eq_true (List.all_eq_true.1 List.all_takeWhile l hl)⟩

theorem blockEnd_body {cs : List Line} (hc : ∀ l ∈ cs, l.isComment = true ∧ k ≤ l.indent) :
    (blockEnd k cs).body = cs.flatMap commentOf := by
  have hall : closingComments k cs = cs := by
    rw [closingComments, List.takeWhile_eq_self_iff.2 fun l hl => (hc l hl).1,
      List.takeWhile_eq_self_iff.2 fun l hl => by simpa using (hc l hl).2]
  rw [blockEnd, hall]
  rfl

/-- **Blocks side by side are read as one**, if the lower one does not go on with the last statement
of the upper one. -/
theorem readBlock_concat (hR : Below k R) (ha : readBlock k ls = some a) (hrest : a.rest = [])
    (hb : readBlock k R = some b) :
    ∃ c, readBlock k (ls ++ R) = some c ∧ c.body = a.body ++ b.body ∧ c.rest = b.rest := by
  induction hn : ls.length using Nat.strongRecOn generalizing ls a with
  | _ n ih =>
    subst hn
    by_cases hstart : ∃ line after, ls.dropWhile Line.isComment = line :: after ∧ k ≤ line.indent
    · obtain ⟨line, after, hdrop, hindent⟩ := hstart
      obtain ⟨read, more, hread, hmore, rfl⟩ := (readBlock_eq_some hdrop hindent).1 ha
      have hlen := length_after_lt hdrop
      have hagree : Agree k after.length R (inside ls.length) (inside (ls ++ R).length) :=
        (agree_readBlock hR _).nested (by rw [List.length_append]; omega)
      have hread' := statement_append hR (Nat.le_refl k) hagree (Nat.le_refl _) hread
      have hrestlen := (statement_within hagree (Nat.le_refl _) hread).1.length_le
      simp only [inside, Option.ite_none_right_eq_some] at hmore
      obtain ⟨c, hc, hbody, hcrest⟩ := ih read.rest.length hmore.1 hmore.2 hrest rfl
      have hc' : inside (ls ++ R).length k (read.rest ++ R) = some c := by
        simp only [inside, Option.ite_none_right_eq_some, List.length_append]
        exact ⟨by omega, hc⟩
      refine ⟨_, (readBlock_eq_some (dropWhile_append_cons hdrop R) hindent).2
        ⟨_, c, hread', hc', rfl⟩, ?_, hcrest⟩
      simp [Block.followedBy, Block.behind, commentBlock, hbody, takeWhile_append_of_dropWhile hdrop]
    · have hend : ∀ l more, ls.dropWhile Line.isComment = l :: more → l.indent < k :=
        fun l more hl => Nat.not_le.1 fun hle => hstart ⟨l, more, hl, hle⟩
      rw [readBlock_end hend] at ha
      obtain rfl := Option.some.inj ha
      have hc := comments_of_blockEnd hrest
      obtain ⟨c, hread, hbody, hcrest⟩ := readBlock_comments hc hb
      exact ⟨c, hread, by rw [hbody, blockEnd_body hc], hcrest⟩

/-- A block that is one statement. -/
theorem readBlock_of_statement {line : Line} {after : List Line} (hc : line.isComment = false)
    (hindent : k ≤ line.indent) (h : statement readBlock k line after = some b) (hrest : b.rest = []) :
    ∃ c, readBlock k (line :: after) = some c ∧ c.body = b.body ∧ c.rest = [] := by
  have hdrop : (line :: after).dropWhile Line.isComment = line :: after := by simp [hc]
  have hagree : Agree k after.length [] readBlock (inside (line :: after).length) :=
    (agree_readBlock (below_nil k) _).nested_right (by simp)
  have hread := statement_append (below_nil k) (Nat.le_refl k) hagree (Nat.le_refl _) h
  rw [List.append_nil, Block.before_nil] at hread
  have hnil : inside (line :: after).length k b.rest = some (blockEnd k []) := by
    rw [hrest]
    simp only [inside, List.length_nil, List.length_cons, Nat.zero_lt_succ, if_true]
    exact readBlock_end fun l more hl => by cases hl
  refine ⟨_, (readBlock_eq_some hdrop hindent).2 ⟨b, _, hread, hnil, rfl⟩, ?_, rfl⟩
  simp [Block.followedBy, Block.behind, commentBlock, blockEnd, closingComments, hc]

end Concat

/-! ## The gap in front -/

section Lead

variable {k : Nat} {ls after : List Line} {block : BlockReader} {line : Line} {b : Block}

theorem takeDecorators_lead (line : Line) (after : List Line) (lead : List Char)
    (hsign : line.tokens.head?.any (·.isSymbol "@") = true) :
    takeDecorators ({ line with lead := lead } :: after) = takeDecorators (line :: after) := by
  rw [takeDecorators, takeDecorators]
  simp only [hsign, if_true]
  rfl

/-- No statement looks at what stands before its first line. -/
theorem statement_lead (lead : List Char) (indent : Nat) :
    statement block indent { line with lead := lead } after = statement block indent line after := by
  unfold statement
  split
  · next hsign =>
    rw [takeDecorators_lead line after lead hsign]
    rfl
  · rfl

theorem takeWhile_leadBy (lead : List Char) (ls : List Line) :
    (leadBy lead ls).takeWhile Line.isComment = leadBy lead (ls.takeWhile Line.isComment) := by
  cases ls with
  | nil => rfl
  | cons l ls =>
    have hl : ({ l with lead := lead ++ l.lead } : Line).isComment = l.isComment := rfl
    cases hc : l.isComment
    · simp [leadBy, hl, hc]
    · simp [leadBy, hl, hc]

theorem commentBlock_leadBy (lead : List Char) (cs rest : List Line) :
    commentBlock (leadBy lead cs) rest = commentBlock cs rest := by
  cases cs with
  | nil => rfl
  | cons c cs => rfl

theorem length_leadBy (lead : List Char) (ls : List Line) : (leadBy lead ls).length = ls.length := by
  cases ls with
  | nil => rfl
  | cons l ls => rfl

theorem dropWhile_leadBy (lead : List Char) (hdrop : ls.dropWhile Line.isComment = line :: after) :
    ∃ lead', (leadBy lead ls).dropWhile Line.isComment = { line with lead := lead' } :: after := by
  cases ls with
  | nil => simp at hdrop
  | cons l ls =>
    have hl : ({ l with lead := lead ++ l.lead } : Line).isComment = l.isComment := rfl
    cases hc : l.isComment
    · rw [List.dropWhile_cons_of_neg (by simp [hc])] at hdrop
      obtain ⟨rfl, rfl⟩ := List.cons.inj hdrop
      refine ⟨lead ++ l.lead, ?_⟩
      rw [leadBy, List.dropWhile_cons_of_neg (by simp [hl, hc])]
    · rw [List.dropWhile_cons_of_pos hc] at hdrop
      refine ⟨line.lead, ?_⟩
      rw [leadBy, List.dropWhile_cons_of_pos (hl.trans hc), hdrop]

/-- A block that leaves nothing is read in the same way behind another gap. -/
theorem readBlock_leadBy (lead : List Char) (h : readBlock k ls = some b) (hrest : b.rest = []) :
    ∃ c, readBlock k (leadBy lead ls) = some c ∧ c.body = b.body ∧ c.rest = [] := by
  by_cases hstart : ∃ line after, ls.dropWhile Line.isComment = line :: after ∧ k ≤ line.indent
  · obtain ⟨line, after, hdrop, hindent⟩ := hstart
    obtain ⟨read, more, hread, hmore, rfl⟩ := (readBlock_eq_some hdrop hindent).1 h
    obtain ⟨lead', hdrop'⟩ := dropWhile_leadBy lead hdrop
    refine ⟨_, (readBlock_eq_some hdrop' hindent).2 ⟨read, more, ?_, ?_, rfl⟩, ?_, hrest⟩
    · rw [statement_lead, length_leadBy, hread]
    · rw [length_leadBy, hmore]
    · rw [takeWhile_leadBy, commentBlock_leadBy]
      rfl
  · have hend : ∀ l more, ls.dropWhile Line.isComment = l :: more → l.indent < k :=
      fun l more hl => Nat.not_le.1 fun hle => hstart ⟨l, more, hl, hle⟩
    rw [readBlock_end hend] at h
    obtain rfl := Option.some.inj h
    have hc := comments_of_blockEnd hrest
    have hc' : ∀ l ∈ leadBy lead ls, l.isComment = true ∧ k ≤ l.indent := by
      cases ls with
      | nil => exact hc
      | cons l ls =>
        intro l' hl'
        rcases List.mem_cons.1 hl' with rfl | hl'
        · exact hc l List.mem_cons_self
        · exact hc l' (List.mem_cons_of_mem _ hl')
    have hnil : readBlock k [] = some (blockEnd k []) := readBlock_end fun l more hl => by cases hl
    obtain ⟨c, hread, hbody, hcrest⟩ := readBlock_comments hc' hnil
    rw [List.append_nil] at hread
    refine ⟨c, hread, ?_, hcrest⟩
    rw [hbody, blockEnd_body hc]
    cases ls with
    | nil => rfl
    | cons l ls => simp [leadBy, commentOf, blockEnd, commentBlock, closingComments]

end Lead

end TypedStubs.Syntax
