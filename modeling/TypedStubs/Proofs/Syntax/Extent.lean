import TypedStubs.Proofs.Syntax.Statements

/-! # Where statements stand in a source

The lines of a source are the source again when they are written one after the other (`isPrefix_linesChars`), and
every statement that keeps the stretch it was read from was read from tokens of some of these lines.  So that
stretch stands in the source as it is (`standIn_of_parse`).  This goes down into the bodies of classes, where
statements are items of a stub too; the statements inside any other statement belong to its stretch.
-/
namespace TypedStubs.Syntax

/-! ## Lines -/

/-- A line as it is written. -/
def Line.chars (line : Line) : List Char := line.lead ++ spanChars line.tokens ++ line.trail

/-- Lines as they are written. -/
def linesChars (ls : List Line) : List Char := ls.flatMap Line.chars

theorem source_eq_line {depth : Nat} {source : List Char} {line : LineRest}
    (h : lineTokens depth source = some line) :
    source = written line.tokens ++ line.trail ++ line.after.getD [] := by
  fun_induction lineTokens depth source generalizing line with
  | case1 depth source gap hread =>
    obtain rfl := Option.some.inj h
    simpa [hread] using (lineGap_append depth false source).symm
  | case2 depth source gap cs hread =>
    obtain rfl := Option.some.inj h
    simpa [hread] using (lineGap_append depth false source).symm
  | case4 depth source gap c cs hread hfeed kind rest hlexeme hle l more hmore =>
    rename_i ih
    obtain rfl := Option.some.inj h
    obtain ⟨u, rfl⟩ := lexemeOrComment_suffix hlexeme
    have hchars : l.chars = c :: u := by
      have hlen : (u ++ rest).length + 1 - rest.length = (c :: u).length := by
        simp only [List.length_append, List.length_cons]
        omega
      simp only [l, hlen, ← List.cons_append, List.take_left]
    have hsource := lineGap_append depth false source
    rw [hread] at hsource
    simp [← hsource, hchars, ← ih hmore]
  | case3 | case5 | case6 => cases h

theorem lineStart_append (indent column : Nat) (source : List Char) :
    (lineStart indent column source).lead ++ (lineStart indent column source).here = source := by
  fun_induction lineStart indent column source <;> grind

/-- No gap stands where a line starts. -/
theorem lineGap_lineStart (indent column : Nat) (source : List Char) :
    lineGap 0 false (lineStart indent column source).here = ([], (lineStart indent column source).here) := by
  fun_induction lineStart indent column source with
  | case1 => rfl
  | case6 indent column c cs hfeed hhidden hhidden' hgap =>
    rw [lineGap]
    · simp [hgap]
    all_goals assumption
  | _ => assumption

/-- The first token of a line has no gap before it. -/
theorem written_eq_spanChars {source : List Char} {line : LineRest} (h : lineTokens 0 source = some line)
    (hgap : lineGap 0 false source = ([], source)) : written line.tokens = spanChars line.tokens := by
  cases hts : line.tokens with
  | nil => rfl
  | cons t ts =>
    obtain ⟨c, u, rest, more, -, -, -, hread, -⟩ := lineTokens_cons h hts
    have hbefore : t.before = [] := congrArg Prod.fst (hread.symm.trans hgap)
    rw [written_cons, hbefore, List.nil_append, spanChars_cons]

theorem eq_first_line {source : List Char} {line : LineRest}
    (h : lineTokens 0 (lineStart 0 0 source).here = some line) :
    source = (lineStart 0 0 source).lead ++ spanChars line.tokens ++ line.trail ++ line.after.getD [] := by
  have hline := source_eq_line h
  rw [written_eq_spanChars h (lineGap_lineStart 0 0 source)] at hline
  have hsource := lineStart_append 0 0 source
  rw [hline] at hsource
  simpa using hsource.symm

/-- **A source starts with its lines as they are written.** -/
theorem isPrefix_linesChars {source : List Char} {ls : List Line} (h : scanLines source = some ls) :
    linesChars ls <+: source := by
  fun_induction scanLines source generalizing ls with
  | case1 source hempty =>
    obtain rfl := Option.some.inj h
    exact List.nil_prefix
  | case2 source hempty hnone => cases h
  | case3 source start hempty line hline first =>
    obtain rfl := Option.some.inj h
    have hsource : source = _ := eq_first_line hline
    rw [hsource]
    simp [linesChars, Line.chars, first, start]
  | case4 source start hempty line hline first after =>
    rename_i hafter ih
    obtain ⟨more, hmore, rfl⟩ := Option.map_eq_some_iff.1 h
    obtain ⟨rest, hrest⟩ := ih hmore
    have hsource : source = _ := eq_first_line hline
    rw [hsource, hafter, Option.getD_some, ← hrest]
    refine ⟨rest, ?_⟩
    simp [linesChars, Line.chars, first, start]

/-! ### Parts of lines -/

theorem isSuffix_written (ts : List Token) : spanChars ts <:+ written ts := by
  cases ts with
  | nil => exact List.suffix_refl _
  | cons t ts => exact ⟨t.before, by simp [spanChars_cons]⟩

theorem isPrefix_spanChars {us ts : List Token} (h : us <+: ts) : spanChars us <+: spanChars ts := by
  obtain ⟨back, rfl⟩ := h
  cases us with
  | nil => exact List.nil_prefix
  | cons u us => exact ⟨written back, by simp [spanChars_cons]⟩

theorem isInfix_spanChars {us ts : List Token} (h : us <:+: ts) : spanChars us <:+: spanChars ts := by
  obtain ⟨front, back, rfl⟩ := h
  cases front with
  | nil => exact (isPrefix_spanChars (List.prefix_append us back)).isInfix
  | cons t front =>
    have hspan : spanChars us <:+: written us := (isSuffix_written us).isInfix
    exact hspan.trans ⟨t.chars ++ written front, written back, by simp [spanChars_cons]⟩

/-- The first tokens of some lines are the start of what is written from the first token on. -/
theorem isPrefix_firstTokens (n : Nat) (line : Line) (after : List Line) :
    firstTokens n (line :: after) <+: spanChars line.tokens ++ (line.trail ++ linesChars after) := by
  have hshort : ∀ (n : Nat) (ts : List Token) (more : List Char),
      spanChars (ts.take n) <+: spanChars ts ++ more := fun n ts more =>
    (isPrefix_spanChars (List.take_prefix n ts)).trans (List.prefix_append _ more)
  induction after generalizing n line with
  | nil =>
    rw [firstTokens]
    split
    · exact hshort n line.tokens _
    · simp [firstTokens, linesChars]
  | cons next after ih =>
    rw [firstTokens]
    split
    · exact hshort n line.tokens _
    · have hnext := ih (n - line.tokens.length) next
      simpa [linesChars, Line.chars] using hnext

theorem linesChars_cons (line : Line) (after : List Line) :
    linesChars (line :: after) =
      line.lead ++ (spanChars line.tokens ++ (line.trail ++ linesChars after)) := by
  simp [linesChars, Line.chars]

theorem isInfix_linesChars {ms ls : List Line} (h : ms <:+: ls) : linesChars ms <:+: linesChars ls := by
  obtain ⟨front, back, rfl⟩ := h
  exact ⟨linesChars front, linesChars back, by simp [linesChars]⟩

theorem isInfix_chars {t : Token} {ts : List Token} (h : t ∈ ts) : t.chars <:+: spanChars ts := by
  obtain ⟨front, back, rfl⟩ := List.append_of_mem h
  have hone : [t] <:+: front ++ t :: back := ⟨front, back, by simp⟩
  simpa [spanChars] using isInfix_spanChars hone

theorem isInfix_spanChars_lines {line : Line} {ls : List Line} (h : line ∈ ls) {us : List Token}
    (hus : us <:+: line.tokens) : spanChars us <:+: linesChars ls := by
  obtain ⟨front, back, rfl⟩ := List.append_of_mem h
  have hline : spanChars line.tokens <:+: linesChars (front ++ line :: back) :=
    ⟨linesChars front ++ line.lead, line.trail ++ linesChars back, by simp [linesChars, Line.chars]⟩
  exact (isInfix_spanChars hus).trans hline

/-! ## Statements -/

mutual
/-- A statement and, if it is a class, those of its body. -/
def Stmt.members : Stmt → List Stmt
  | .classDef head decorators body => .classDef head decorators body :: membersOfAll body
  | s => [s]

/-- Statements and those of the bodies of classes among them. -/
def membersOfAll : List Stmt → List Stmt
  | [] => []
  | s :: body => s.members ++ membersOfAll body
end

theorem membersOfAll_eq (body : List Stmt) : membersOfAll body = body.flatMap Stmt.members := by
  induction body with
  | nil => rfl
  | cons s body ih => rw [membersOfAll, ih, List.flatMap_cons]

theorem membersOfAll_subset {body more : List Stmt} (h : body ⊆ more) :
    membersOfAll body ⊆ membersOfAll more := by
  intro s hs
  rw [membersOfAll_eq] at hs ⊢
  obtain ⟨u, hu, hs⟩ := List.mem_flatMap.1 hs
  exact List.mem_flatMap.2 ⟨u, h hu, hs⟩

theorem Stmt.members_of_not_class {s : Stmt}
    (h : ∀ head decorators body, s ≠ .classDef head decorators body) : s.members = [s] := by
  cases s with
  | classDef head decorators body => exact absurd rfl (h head decorators body)
  | _ => rw [Stmt.members]; simp

theorem Stmt.members_of_place {s : Stmt} {place : Extent} (h : s.place? = some place) :
    s.members = [s] := by
  refine Stmt.members_of_not_class fun head decorators body heq => ?_
  rw [heq] at h
  cases h

/-- Every stretch that statements keep stands in a source. -/
def StandIn (source : List Char) (body : List Stmt) : Prop :=
  ∀ s ∈ membersOfAll body, ∀ place, s.place? = some place → place.text.toList <:+: source

namespace StandIn

variable {source source' : List Char} {body more : List Stmt}

theorem nil : StandIn source [] := by
  intro s hs
  rw [membersOfAll_eq] at hs
  cases hs

theorem mono (h : StandIn source body) (hsource : source <:+: source') : StandIn source' body :=
  fun s hs place hplace => (h s hs place hplace).trans hsource

theorem append (h : StandIn source body) (hmore : StandIn source more) :
    StandIn source (body ++ more) := by
  intro s hs
  rw [membersOfAll_eq, List.flatMap_append, ← membersOfAll_eq, ← membersOfAll_eq] at hs
  exact (List.mem_append.1 hs).elim (h s) (hmore s)

theorem of_forall (h : ∀ s ∈ body, ∃ place, s.place? = some place ∧ place.text.toList <:+: source) :
    StandIn source body := by
  intro s hs place hplace
  rw [membersOfAll_eq] at hs
  obtain ⟨u, hu, hs⟩ := List.mem_flatMap.1 hs
  obtain ⟨kept, hkept, hstands⟩ := h u hu
  rw [Stmt.members_of_place hkept] at hs
  obtain rfl := List.mem_singleton.1 hs
  obtain rfl := Option.some.inj (hkept.symm.trans hplace)
  exact hstands

theorem classDef {head : ClassHead} {decorators : List Expr} (h : StandIn source body) :
    StandIn source [.classDef head decorators body] := by
  intro s hs place hplace
  rw [membersOfAll_eq, List.flatMap_singleton, Stmt.members] at hs
  rcases List.mem_cons.1 hs with rfl | hs
  · cases hplace
  · exact h s hs place hplace

theorem function (source : List Char) (head : FunctionHead) (decorators : List Expr) (body : List Stmt) :
    StandIn source [.function head decorators body] := by
  intro s hs place hplace
  rw [membersOfAll_eq, List.flatMap_singleton] at hs
  obtain rfl := List.mem_singleton.1 hs
  cases hplace

end StandIn

/-! ### Lines of statements -/

variable {column : Nat} {ts : List Token} {body : List Stmt}

theorem standIn_comments (column : Token → Nat) {us : List Token} (hus : us <:+: ts) :
    StandIn (spanChars ts) (us.map fun t => .comment ⟨t.text, column t⟩) := by
  refine .of_forall fun s hs => ?_
  obtain ⟨t, ht, rfl⟩ := List.mem_map.1 hs
  refine ⟨_, rfl, ?_⟩
  simpa [Lexeme.text] using isInfix_chars (hus.subset ht)

theorem standIn_statementsBetween (h : statementsBetween column ts = some body) :
    StandIn (spanChars ts) body := by
  induction hn : ts.length using Nat.strongRecOn generalizing column ts body with
  | _ n ih =>
    subst hn
    rw [statementsBetween] at h
    obtain ⟨make, hmake, h⟩ := Option.bind_eq_some_iff.1 h
    have hfirst : StandIn (spanChars ts)
        [make ⟨String.ofList (spanChars (ts.takeWhile (!·.isSymbol ";"))), column⟩] := by
      refine .of_forall (List.forall_mem_singleton.2 ⟨_, simpleStatement_place hmake _, ?_⟩)
      simpa using (isPrefix_spanChars (List.takeWhile_prefix _)).isInfix
    split at h
    · next semicolon t more hdrop =>
      obtain ⟨rest, hrest, h⟩ := Option.bind_eq_some_iff.1 h
      obtain rfl := Option.some.inj h
      have hsuffix : semicolon :: t :: more <:+ ts := hdrop ▸ List.dropWhile_suffix _
      have hlen := hsuffix.length_le
      rw [List.length_cons] at hlen
      have htail : t :: more <:+ ts := (List.suffix_cons _ _).trans hsuffix
      exact hfirst.append ((ih _ (by omega) hrest rfl).mono (isInfix_spanChars htail.isInfix))
    · obtain rfl := Option.some.inj h
      exact hfirst

theorem standIn_simpleStatements (h : simpleStatements column ts = some body) :
    StandIn (spanChars ts) body := by
  obtain ⟨code, hcode, h⟩ := Option.bind_eq_some_iff.1 h
  obtain rfl := Option.some.inj h
  have hfront := (isPrefix_spanChars (List.takeWhile_prefix (l := ts) (!·.isComment))).isInfix
  exact ((standIn_statementsBetween hcode).mono hfront).append
    (standIn_comments _ (List.dropWhile_suffix _).isInfix)

/-! ### Blocks -/

/-- A reader gives statements that stand in the lines it is given. -/
def Standing (block : BlockReader) : Prop :=
  ∀ ⦃indent ls b⦄, block indent ls = some b → StandIn (linesChars ls) b.body

section Blocks

variable {block : BlockReader} {indent : Nat} {line : Line} {after ls : List Line} {b : Block}

theorem standIn_suite (hblock : Standing block) (hts : ts <:+: line.tokens)
    (h : suite block indent column ts after = some b) : StandIn (linesChars (line :: after)) b.body := by
  unfold suite at h
  split at h
  · split at h
    · next l more hdrop =>
      split at h
      · obtain ⟨found, hfound, h⟩ := Option.bind_eq_some_iff.1 h
        obtain rfl := Option.some.inj h
        have hsuffix : l :: more <:+ after := hdrop ▸ List.dropWhile_suffix _
        exact (hblock hfound).mono (isInfix_linesChars (hsuffix.trans (List.suffix_cons _ _)).isInfix)
      · obtain rfl := Option.some.inj h
        exact .nil
    · obtain rfl := Option.some.inj h
      exact .nil
  · obtain ⟨body, hbody, h⟩ := Option.bind_eq_some_iff.1 h
    obtain rfl := Option.some.inj h
    exact (standIn_simpleStatements hbody).mono (isInfix_spanChars_lines List.mem_cons_self hts)

theorem standIn_definition {decorators : List Expr} (hblock : Standing block)
    (h : definition block indent decorators line after = some b) :
    StandIn (linesChars (line :: after)) b.body := by
  unfold definition at h
  split at h
  · obtain ⟨⟨head, tokens⟩, hhead, h⟩ := Option.bind_eq_some_iff.1 h
    obtain ⟨defined, hdefined, h⟩ := Option.bind_eq_some_iff.1 h
    obtain rfl := Option.some.inj h
    obtain ⟨inside, hinside, hdefined⟩ := Option.bind_eq_some_iff.1 hdefined
    obtain rfl := Option.some.inj hdefined
    exact (standIn_suite hblock (classHead_suffix hhead).isInfix hinside).classDef
  · obtain ⟨⟨head, tokens⟩, -, h⟩ := Option.bind_eq_some_iff.1 h
    obtain ⟨defined, -, h⟩ := Option.bind_eq_some_iff.1 h
    obtain rfl := Option.some.inj h
    exact .function _ _ _ _

theorem standIn_compoundOf (parts : Block) :
    StandIn (linesChars (line :: after)) (compoundOf line after parts).body := by
  refine .of_forall (List.forall_mem_singleton.2 ⟨_, rfl, ?_⟩)
  rw [String.toList_ofList, linesChars_cons]
  exact (isPrefix_firstTokens _ _ _).isInfix.trans (List.suffix_append _ _).isInfix

theorem standIn_clausesStatement {word : String}
    (h : clausesStatement block indent word line after = some b) :
    StandIn (linesChars (line :: after)) b.body := by
  obtain ⟨first, -, h⟩ := Option.bind_eq_some_iff.1 h
  obtain ⟨all, -, h⟩ := Option.bind_eq_some_iff.1 h
  split at h
  · cases h
  · obtain rfl := Option.some.inj h
    exact standIn_compoundOf all

theorem standIn_matchStatement (h : matchStatement block indent line after = some b) :
    StandIn (linesChars (line :: after)) b.body := by
  obtain ⟨⟨subjects, tokens⟩, -, h⟩ := Option.bind_eq_some_iff.1 h
  simp only at h
  split at h
  · split at h
    · split at h
      · obtain ⟨all, -, h⟩ := Option.bind_eq_some_iff.1 h
        obtain rfl := Option.some.inj h
        exact standIn_compoundOf all
      · cases h
    · cases h
  · cases h

theorem standIn_statement (hblock : Standing block) (h : statement block indent line after = some b) :
    StandIn (linesChars (line :: after)) b.body := by
  have hsimple : simpleBlock line after = some b → StandIn (linesChars (line :: after)) b.body := fun h => by
    obtain ⟨body, hbody, h⟩ := Option.bind_eq_some_iff.1 h
    obtain rfl := Option.some.inj h
    exact (standIn_simpleStatements hbody).mono
      (isInfix_spanChars_lines List.mem_cons_self (List.infix_refl _))
  unfold statement at h
  split at h
  · obtain ⟨⟨decorators, lines⟩, hdecorators, h⟩ := Option.bind_eq_some_iff.1 h
    cases lines with
    | nil => simp at h
    | cons first rest =>
      obtain ⟨defined, hdefined, h⟩ := Option.bind_eq_some_iff.1 h
      obtain rfl := Option.some.inj h
      have hsuffix := (takeDecorators_append (R := []) hdecorators).1
      exact (standIn_definition hblock hdefined).mono (isInfix_linesChars hsuffix.isInfix)
  split at h
  · split at h
    · exact standIn_definition hblock h
    split at h
    · exact standIn_clausesStatement h
    split at h
    · cases hmatch : matchStatement block indent line after with
      | some found =>
        rw [hmatch] at h
        obtain rfl := Option.some.inj h
        exact standIn_matchStatement hmatch
      | none =>
        rw [hmatch] at h
        exact hsimple h
    · exact hsimple h
  · exact hsimple h

theorem standIn_commentLines {cs : List Line} (hcs : cs ⊆ ls) :
    StandIn (linesChars ls) (cs.flatMap commentOf) := by
  refine .of_forall fun s hs => ?_
  obtain ⟨line, hline, hs⟩ := List.mem_flatMap.1 hs
  obtain ⟨t, ht, rfl⟩ := List.mem_map.1 hs
  refine ⟨_, rfl, ?_⟩
  have hstands := (isInfix_chars ht).trans (isInfix_spanChars_lines (hcs hline) (List.infix_refl _))
  simpa [Lexeme.text] using hstands

theorem standIn_readBlock (h : readBlock indent ls = some b) : StandIn (linesChars ls) b.body := by
  induction hn : ls.length using Nat.strongRecOn generalizing indent ls b with
  | _ n ih =>
    subst hn
    have hinside : Standing (inside ls.length) := fun i ms b hread => by
      simp only [inside, Option.ite_none_right_eq_some] at hread
      exact ih _ hread.1 hread.2 rfl
    by_cases hstart : ∃ line after, ls.dropWhile Line.isComment = line :: after ∧ indent ≤ line.indent
    · obtain ⟨line, after, hdrop, hindent⟩ := hstart
      obtain ⟨read, more, hread, hmore, rfl⟩ := (readBlock_eq_some hdrop hindent).1 h
      have hsub : line :: after <:+ ls := hdrop ▸ List.dropWhile_suffix _
      have hlen := length_after_lt hdrop
      have hagree : Agree indent after.length [] (inside ls.length) (inside ls.length) :=
        (agree_readBlock (below_nil indent) _).nested (by simpa using hlen)
      have hrest : read.rest <:+ ls :=
        (statement_within hagree (Nat.le_refl _) hread).1.trans ((List.suffix_cons _ _).trans hsub)
      refine StandIn.append (standIn_commentLines (List.takeWhile_subset _)) (.append ?_ ?_)
      · exact (standIn_statement hinside hread).mono (isInfix_linesChars hsub.isInfix)
      · exact (hinside hmore).mono (isInfix_linesChars hrest.isInfix)
    · rw [readBlock_end fun l more hl => Nat.lt_of_not_le fun hle => hstart ⟨l, more, hl, hle⟩] at h
      obtain rfl := Option.some.inj h
      exact standIn_commentLines (isPrefix_closingComments indent ls).subset

end Blocks

/-- **Whatever stretch a statement of a source keeps stands in the source.** -/
theorem standIn_of_parse {source : String} (h : parse? source = some body) :
    StandIn source.toList body := by
  obtain ⟨lines, hlines, h⟩ := Option.bind_eq_some_iff.1 h
  obtain ⟨read, hread, h⟩ := Option.bind_eq_some_iff.1 h
  split at h
  · obtain rfl := Option.some.inj h
    exact (standIn_readBlock hread).mono (isPrefix_linesChars hlines).isInfix
  · cases h

end TypedStubs.Syntax
