import TypedStubs.Proofs.Syntax.Assignment

/-! # The import statements of a source

Every statement without a body closes the brackets it opens and keeps the stretch it is given, and only one
that starts with `import` or `from` imports anything (`simpleStatement_cases`).  So no bracket is open where the
statement behind a semicolon starts, and the imports of a source come from tokens of its lines outside all
brackets (`isStated_of_parse`).
-/
namespace TypedStubs.Syntax

open Rule

/-- The imports that a statement makes itself, not in a body. -/
def Stmt.imports : Stmt → List Import
  | .importing _ imports => imports
  | _ => []

/-- The stretch of the source that a statement keeps.  A definition keeps none. -/
def Stmt.place? : Stmt → Option Extent
  | .expression place _ | .assignment place _ _ _ | .returns place _ | .raises place _ | .passes place
  | .importing place _ | .plain place _ | .compound place _ | .comment place => some place
  | .function _ _ _ | .classDef _ _ _ | .header _ => none

/-! ## Statements -/

namespace Rule

/-- A rule for a statement that closes the brackets it opens, imports nothing and keeps its place. -/
structure Inert (r : Rule (Extent → Stmt)) : Prop where
  /-- It closes the brackets it opens. -/
  nets : Nets 0 0 r
  /-- It imports nothing, and keeps its place. -/
  gives : Gives (fun make => ∀ place, (make place).imports = [] ∧ (make place).place? = some place) r

namespace Inert

variable {α : Type}

theorem pure {make : Extent → Stmt}
    (h : ∀ place, (make place).imports = [] ∧ (make place).place? = some place) :
    Inert (Pure.pure make) := ⟨.pure _, .pure h⟩

theorem bind {first : Rule α} {next : α → Rule (Extent → Stmt)} (hf : Nets 0 0 first)
    (hn : ∀ a, Inert (next a)) : Inert (first >>= next) :=
  ⟨.bind hf fun a => (hn a).nets, .bind fun a => (hn a).gives⟩

theorem ite {c : Bool} {yes no : Rule (Extent → Stmt)} (hy : Inert yes) (hn : Inert no) :
    Inert (if c then yes else no) := ⟨.ite hy.nets hn.nets, .ite hy.gives hn.gives⟩

end Inert

/-! ### The rules for statements -/

theorem wordStatement_inert {make : Extent → Stmt}
    (h : ∀ place, (make place).imports = [] ∧ (make place).place? = some place) (name : String) :
    Inert (wordStatement name make) := .bind (.word _) fun _ => .pure h

theorem returnStatement_inert : Inert returnStatement :=
  .bind (.word _) fun _ => .bind (.maybe (.ahead _) expressionList_nets) fun _ => .pure fun _ => ⟨rfl, rfl⟩

theorem raiseStatement_inert : Inert raiseStatement := by
  refine .bind (.word _) fun _ => .bind (.maybe (.ahead _) expressionList_nets) fun _ => ?_
  exact .bind (.maybe (.takeWord _) (.inner _)) fun _ => .pure fun _ => ⟨rfl, rfl⟩

theorem assertStatement_inert : Inert assertStatement := by
  refine .bind (.word _) fun _ => .bind (.inner _) fun _ => .bind (.many ?_) fun _ => .pure fun _ => ⟨rfl, rfl⟩
  exact .bind (.symbol (by decide)) fun _ => .inner _

theorem scopeStatement_inert : Inert scopeStatement := by
  refine .bind (.discard .anyWord) fun _ => .bind (.discard .anyWord) fun _ => ?_
  refine .bind (.discard (.many ?_)) fun _ => .pure fun _ => ⟨rfl, rfl⟩
  exact .bind (.symbol (by decide)) fun _ => .anyWord

theorem typeParam_nets {a : Nat} : Nets a a typeParam := by
  have value : Nets a a (do if ← takeSymbol "=" then discard hintExpr) :=
    .bind (.takeSymbol (by decide)) fun _ => .ite (.discard hintExpr_nets) (.pure _)
  have name : Nets a a (do
      discard anyWord
      if ← takeSymbol ":" then discard (.inner .full)
      if ← takeSymbol "=" then discard hintExpr) := by
    refine .bind (.discard .anyWord) fun _ => .bind (.takeSymbol (by decide)) fun _ => ?_
    exact .ite (.bind (.discard (.inner _)) fun _ => value) value
  refine .bind (.takeSymbol (by decide)) fun _ => ?_
  exact .ite (.bind (.discard (.takeSymbol (by decide))) fun _ => name) name

theorem typeParams_nets {a : Nat} : Nets a a typeParams := by
  refine .ifSymbol (.opening (by decide)) (.bind (.discard ?_) fun _ => .closing (by decide)) (.pure _)
  exact .commaListTo (.ahead _) typeParam_nets

theorem typeAlias_inert : Inert typeAlias := by
  refine .bind (.word _) fun _ => .bind (.discard .anyWord) fun _ => .bind typeParams_nets fun _ => ?_
  exact .bind (.symbol (by decide)) fun _ => .bind (.inner _) fun _ => .pure fun _ => ⟨rfl, rfl⟩

theorem printStatement_inert : Inert printStatement := by
  have channel : Nets 0 0 printChannel := by
    refine .bind (.takeSymbol (by decide)) fun _ => .ite (.bind (.inner _) fun _ => ?_) (.pure _)
    exact .bind (.discard (.takeSymbol (by decide))) fun _ => .pure _
  refine .bind (.word _) fun _ => .bind channel fun _ => ?_
  refine .bind (.maybe (.ahead _) (.commaList (.inner _))) fun _ => ?_
  exact .bind (.require _) fun _ => .pure fun _ => ⟨rfl, rfl⟩

theorem expressionStatement_inert : Inert expressionStatement := by
  refine .bind assignedValue_nets fun first => .bind (.ahead _) fun _ => .ite ?_ ?_
  · refine .bind (.many (.bind (.symbol (by decide)) fun _ => assignedValue_nets)) fun values => ?_
    exact .bind (.require _) fun _ => .pure fun _ => ⟨rfl, rfl⟩
  refine .bind (.takeSymbol (by decide)) fun _ => .ite ?_ (.bind (.ahead _) fun _ => .ite ?_ ?_)
  · refine .bind (.require _) fun _ => .bind hintExpr_nets fun _ => ?_
    exact .bind (.maybe (.takeSymbol (by decide)) assignedValue_nets) fun _ => .pure fun _ => ⟨rfl, rfl⟩
  · refine .bind (.require _) fun _ => .bind (.discard (.oneOf (by decide))) fun _ => ?_
    exact .bind assignedValue_nets fun _ => .pure fun _ => ⟨rfl, rfl⟩
  · exact .pure fun _ => ⟨rfl, rfl⟩

theorem importStatement_nets {a : Nat} : Nets a a importStatement := by
  have path {a : Nat} : Nets a a dottedName :=
    .bind (.withText (.bind (.discard .anyWord) fun _ =>
      .many (.bind (.symbol (by decide)) fun _ => .anyWord))) fun _ => .pure _
  have named {a : Nat} : Nets a a asName? := .maybe (.takeWord _) .anyWord
  have member {a : Nat} (source : String) : Nets a a (importedMember source) :=
    .bind path fun _ => .bind named fun _ => .pure _
  refine .bind (.takeWord _) fun _ => .ite ?_ (.bind (.word _) fun _ => .bind (b := a) ?_ fun source => ?_)
  · exact .bind (.commaList (.bind path fun _ => .bind named fun _ => .pure _)) fun _ => .pure _
  · refine .bind (.withText (.bind (.many (.discard (.oneOf (by decide)))) fun _ => ?_)) fun _ => .pure _
    exact .bind (.ahead _) fun _ => .ite (.discard path) (.pure _)
  · refine .bind (.word _) fun _ => .bind (.takeSymbol (by decide)) fun _ => .ite (.pure _) ?_
    refine .ifSymbol (.opening (by decide)) (.bind (.commaListTo (.ahead _) (member source)) fun _ => ?_) ?_
    · exact .bind (.closing (by decide)) fun _ => .pure _
    · exact .bind (.commaList (member source)) fun _ => .pure _

end Rule

/-- The rules that a statement without a body is read by when `t` is its first token. -/
inductive StatementRule (t : Token) : Rule (Extent → Stmt) → Prop where
  /-- Imports. -/
  | importing : StatementRule t (do
      let imports ← importStatement
      return fun place => .importing place imports)
  /-- The statement that does nothing. -/
  | passes : StatementRule t (wordStatement "pass" .passes)
  /-- Another statement of one word. -/
  | word (name : String) : StatementRule t (wordStatement name (.plain · []))
  /-- The end of a function. -/
  | returns : StatementRule t returnStatement
  /-- The raising of an exception. -/
  | raises : StatementRule t raiseStatement
  /-- A deletion. -/
  | del : StatementRule t (do
      word "del"
      let e ← expressionList
      return fun place => .plain place [e])
  /-- An assertion. -/
  | assert : StatementRule t assertStatement
  /-- The names of another scope. -/
  | scope : StatementRule t scopeStatement
  /-- A type alias. -/
  | typeAlias : StatementRule t typeAlias
  /-- The old form of printing. -/
  | print : StatementRule t printStatement
  /-- An assignment or expressions, which start with no word of the other statements. -/
  | expression (h : ∀ w ∈ plainWords, t.isWord w = false) : StatementRule t expressionStatement

/-- Tokens that make a statement are read by one of the rules, all of them. -/
theorem exists_statementRule {ts : List Token} {make : Extent → Stmt}
    (h : simpleStatement ts = some make) :
    ∃ t r, ts.head? = some t ∧ StatementRule t r ∧ r.read ts = some (make, []) := by
  have either : ∀ {c : Bool} {x y : Option (Extent → Stmt)}, (if c then x else y) = some make →
      c = true ∧ x = some make ∨ c = false ∧ y = some make := by
    intro c x y h
    cases c
    · exact .inr ⟨rfl, h⟩
    · exact .inl ⟨rfl, h⟩
  have first : ∀ {x y : Option (Extent → Stmt)}, (x <|> y) = some make →
      x = some make ∨ y = some make := by
    intro x y h
    cases x
    · exact .inr h
    · exact .inl h
  cases ts with
  | nil => simp [simpleStatement] at h
  | cons t ts =>
    have found : ∀ {r : Rule (Extent → Stmt)}, StatementRule t r → wholeStatement r (t :: ts) = some make →
        ∃ u r, (t :: ts).head? = some u ∧ StatementRule u r ∧ r.read (t :: ts) = some (make, []) :=
      fun hr hwhole => ⟨t, _, rfl, hr, wholeStatement_eq_some.1 hwhole⟩
    rw [simpleStatement] at h
    rcases either h with ⟨-, h⟩ | ⟨himport, h⟩
    · exact found .importing h
    rcases either h with ⟨-, h⟩ | ⟨hpass, h⟩
    · exact found .passes h
    rcases either h with ⟨-, h⟩ | ⟨hbreak, h⟩
    · exact found (.word "break") h
    rcases either h with ⟨-, h⟩ | ⟨hcontinue, h⟩
    · exact found (.word "continue") h
    rcases either h with ⟨-, h⟩ | ⟨hreturn, h⟩
    · exact found .returns h
    rcases either h with ⟨-, h⟩ | ⟨hraise, h⟩
    · exact found .raises h
    rcases either h with ⟨-, h⟩ | ⟨hdel, h⟩
    · exact found .del h
    rcases either h with ⟨-, h⟩ | ⟨hassert, h⟩
    · exact found .assert h
    rcases either h with ⟨-, h⟩ | ⟨hscope, h⟩
    · exact found .scope h
    have hplain : ∀ w ∈ plainWords, t.isWord w = false := by
      rw [Bool.or_eq_false_iff] at himport hscope
      simp only [plainWords, List.forall_mem_cons]
      exact ⟨himport.1, himport.2, hpass, hbreak, hcontinue, hreturn, hraise, hdel, hassert, hscope.1,
        hscope.2, by simp⟩
    rcases either h with ⟨-, h⟩ | ⟨-, h⟩
    · rcases first h with h | h
      · exact found .typeAlias h
      · exact found (.expression hplain) h
    rcases either h with ⟨-, h⟩ | ⟨-, h⟩
    · rcases first h with h | h
      · exact found (.expression hplain) h
      · exact found .print h
    · exact found (.expression hplain) h

/-- Tokens that are read as imports, or as something that imports nothing. -/
theorem simpleStatement_cases {ts : List Token} {make : Extent → Stmt}
    (h : simpleStatement ts = some make) :
    (∃ imports, importStatement.read ts = some (imports, []) ∧
      make = fun place => .importing place imports) ∨
    ∃ r, Inert r ∧ r.read ts = some (make, []) := by
  obtain ⟨t, r, -, hrule, hread⟩ := exists_statementRule h
  cases hrule with
  | importing =>
    obtain ⟨imports, mid, hread, heq⟩ := Rule.read_bind_eq_some.1 hread
    obtain ⟨rfl, rfl⟩ := Prod.mk.inj (Option.some.inj heq)
    exact .inl ⟨imports, hread, rfl⟩
  | passes => exact .inr ⟨_, wordStatement_inert (fun _ => ⟨rfl, rfl⟩) _, hread⟩
  | word name => exact .inr ⟨_, wordStatement_inert (fun _ => ⟨rfl, rfl⟩) _, hread⟩
  | returns => exact .inr ⟨_, returnStatement_inert, hread⟩
  | raises => exact .inr ⟨_, raiseStatement_inert, hread⟩
  | del =>
    refine .inr ⟨_, .bind (.word _) fun _ => .bind expressionList_nets fun _ => ?_, hread⟩
    exact .pure fun _ => ⟨rfl, rfl⟩
  | assert => exact .inr ⟨_, assertStatement_inert, hread⟩
  | scope => exact .inr ⟨_, scopeStatement_inert, hread⟩
  | typeAlias => exact .inr ⟨_, typeAlias_inert, hread⟩
  | print => exact .inr ⟨_, printStatement_inert, hread⟩
  | expression => exact .inr ⟨_, expressionStatement_inert, hread⟩

theorem netting_of_read {α : Type} {r : Rule α} (hr : Nets 0 0 r) {ts : List Token} {a : α}
    (h : r.read ts = some (a, [])) : Netting 0 0 ts := by
  obtain ⟨taken, rfl, hnet⟩ := hr.read h
  simpa using hnet

theorem simpleStatement_netting {ts : List Token} {make : Extent → Stmt}
    (h : simpleStatement ts = some make) : Netting 0 0 ts := by
  rcases simpleStatement_cases h with ⟨imports, hread, -⟩ | ⟨r, hr, hread⟩
  · exact netting_of_read importStatement_nets hread
  · exact netting_of_read hr.nets hread

/-- A statement keeps the stretch that it is given. -/
theorem simpleStatement_place {ts : List Token} {make : Extent → Stmt}
    (h : simpleStatement ts = some make) (place : Extent) : (make place).place? = some place := by
  rcases simpleStatement_cases h with ⟨imports, -, rfl⟩ | ⟨r, hr, hread⟩
  · rfl
  · exact (hr.gives hread place).2

/-! ## Lines -/

/-- An import of a statement whose tokens stand outside all brackets. -/
def IsStated (i : Import) : Prop :=
  ∃ ts imports, Scanned 0 ts ∧ importStatement.read ts = some (imports, []) ∧ i ∈ imports

variable {column : Nat} {ts : List Token} {body : List Stmt} {s : Stmt} {i : Import}

theorem isStated_of_simpleStatement {make : Extent → Stmt} (hscan : Scanned 0 ts)
    (h : simpleStatement ts = some make) {place : Extent} (hi : i ∈ (make place).imports) :
    IsStated i := by
  rcases simpleStatement_cases h with ⟨imports, hread, rfl⟩ | ⟨r, hr, hread⟩
  · exact ⟨ts, imports, hscan, hread, hi⟩
  · rw [(hr.gives hread place).1] at hi
    cases hi

/-- No bracket is open behind a statement, and the semicolon opens none. -/
theorem scanned_behind_semicolon {make : Extent → Stmt} {semicolon : Token} {more : List Token}
    (hscan : Scanned 0 (ts.takeWhile (!·.isSymbol ";") ++ ts.dropWhile (!·.isSymbol ";")))
    (hmake : simpleStatement (ts.takeWhile (!·.isSymbol ";")) = some make)
    (hdrop : ts.dropWhile (!·.isSymbol ";") = semicolon :: more) : Scanned 0 more := by
  have hsemicolon : semicolon.isSymbol ";" = true := by
    have hnot := List.head?_dropWhile_not (!·.isSymbol ";") ts
    simpa [hdrop] using hnot
  have hlevel : depthThrough 0 (ts.takeWhile (!·.isSymbol ";")) = 0 := by
    simpa using (simpleStatement_netting hmake).level 0
  have htail := hscan.drop
  rw [hlevel, hdrop] at htail
  have htail := htail.tail
  rwa [Nets.depthAfter_symbol hsemicolon (by decide) (by decide)] at htail

theorem isStated_of_statementsBetween (hscan : Scanned 0 ts) (h : statementsBetween column ts = some body)
    (hs : s ∈ body) (hi : i ∈ s.imports) : IsStated i := by
  induction hn : ts.length using Nat.strongRecOn generalizing column ts body with
  | _ n ih =>
    subst hn
    rw [← List.takeWhile_append_dropWhile (p := (!·.isSymbol ";")) (l := ts)] at hscan
    rw [statementsBetween] at h
    obtain ⟨make, hmake, h⟩ := Option.bind_eq_some_iff.1 h
    have hfirst : ∀ {place}, i ∈ (make place).imports → IsStated i :=
      isStated_of_simpleStatement hscan.front hmake
    split at h
    · next semicolon t more hdrop =>
      obtain ⟨rest, hrest, h⟩ := Option.bind_eq_some_iff.1 h
      obtain rfl := Option.some.inj h
      rcases List.mem_cons.1 hs with rfl | hs
      · exact hfirst hi
      have htail := scanned_behind_semicolon hscan hmake hdrop
      have hlen := (List.dropWhile_sublist (l := ts) (!·.isSymbol ";")).length_le
      rw [hdrop, List.length_cons] at hlen
      exact ih _ (by omega) htail hrest hs rfl
    · obtain rfl := Option.some.inj h
      obtain rfl := List.mem_singleton.1 hs
      exact hfirst hi

theorem isStated_of_simpleStatements (hscan : Scanned 0 ts) (h : simpleStatements column ts = some body)
    (hs : s ∈ body) (hi : i ∈ s.imports) : IsStated i := by
  rw [← List.takeWhile_append_dropWhile (p := (!·.isComment)) (l := ts)] at hscan
  obtain ⟨code, hcode, h⟩ := Option.bind_eq_some_iff.1 h
  obtain rfl := Option.some.inj h
  rcases List.mem_append.1 hs with hs | hs
  · exact isStated_of_statementsBetween hscan.front hcode hs hi
  · obtain ⟨t, -, rfl⟩ := List.mem_map.1 hs
    cases hi

/-! ## Blocks -/

variable {block : BlockReader} {indent : Nat} {line : Line} {after ls : List Line} {b : Block}

theorem definition_imports {decorators : List Expr} (h : definition block indent decorators line after = some b)
    (hs : s ∈ b.body) : s.imports = [] := by
  unfold definition at h
  split at h
  all_goals
    obtain ⟨⟨head, tokens⟩, -, h⟩ := Option.bind_eq_some_iff.1 h
    obtain ⟨body, -, h⟩ := Option.bind_eq_some_iff.1 h
    obtain rfl := Option.some.inj h
    obtain rfl := List.mem_singleton.1 hs
    rfl

theorem compoundOf_imports {parts : Block} (hs : s ∈ (compoundOf line after parts).body) :
    s.imports = [] := by
  obtain rfl := List.mem_singleton.1 hs
  rfl

theorem clausesStatement_imports {word : String}
    (h : clausesStatement block indent word line after = some b) (hs : s ∈ b.body) : s.imports = [] := by
  obtain ⟨first, -, h⟩ := Option.bind_eq_some_iff.1 h
  obtain ⟨all, -, h⟩ := Option.bind_eq_some_iff.1 h
  split at h
  · cases h
  · obtain rfl := Option.some.inj h
    exact compoundOf_imports hs

theorem matchStatement_imports (h : matchStatement block indent line after = some b) (hs : s ∈ b.body) :
    s.imports = [] := by
  obtain ⟨⟨subjects, tokens⟩, -, h⟩ := Option.bind_eq_some_iff.1 h
  simp only at h
  split at h
  · split at h
    · split at h
      · obtain ⟨all, -, h⟩ := Option.bind_eq_some_iff.1 h
        obtain rfl := Option.some.inj h
        exact compoundOf_imports hs
      · cases h
    · cases h
  · cases h

/-- What imports something is a statement of the line itself. -/
theorem statement_imports (h : statement block indent line after = some b) (hs : s ∈ b.body)
    (hi : i ∈ s.imports) : ∃ body, simpleStatements line.column line.tokens = some body ∧ s ∈ body := by
  have hnone : s.imports = [] → ∃ body, simpleStatements line.column line.tokens = some body ∧ s ∈ body :=
    fun hnil => by
      rw [hnil] at hi
      cases hi
  have hsimple : simpleBlock line after = some b →
      ∃ body, simpleStatements line.column line.tokens = some body ∧ s ∈ body := fun h => by
    obtain ⟨body, hbody, h⟩ := Option.bind_eq_some_iff.1 h
    obtain rfl := Option.some.inj h
    exact ⟨body, hbody, hs⟩
  unfold statement at h
  split at h
  · obtain ⟨⟨decorators, lines⟩, -, h⟩ := Option.bind_eq_some_iff.1 h
    cases lines with
    | nil => simp at h
    | cons first rest =>
      obtain ⟨defined, hdefined, h⟩ := Option.bind_eq_some_iff.1 h
      obtain rfl := Option.some.inj h
      exact hnone (definition_imports hdefined hs)
  split at h
  · split at h
    · exact hnone (definition_imports h hs)
    split at h
    · exact hnone (clausesStatement_imports h hs)
    split at h
    · cases hmatch : matchStatement block indent line after with
      | some found =>
        rw [hmatch] at h
        obtain rfl := Option.some.inj h
        exact hnone (matchStatement_imports hmatch hs)
      | none =>
        rw [hmatch] at h
        exact hsimple h
    · exact hsimple h
  · exact hsimple h

theorem comments_imports (hs : s ∈ ls.flatMap commentOf) : s.imports = [] := by
  obtain ⟨line, -, hs⟩ := List.mem_flatMap.1 hs
  obtain ⟨t, -, rfl⟩ := List.mem_map.1 hs
  rfl

/-- What imports something in a block is a statement of one of its lines itself. -/
theorem readBlock_imports (h : readBlock indent ls = some b) (hs : s ∈ b.body) (hi : i ∈ s.imports) :
    ∃ line ∈ ls, ∃ body, simpleStatements line.column line.tokens = some body ∧ s ∈ body := by
  induction hn : ls.length using Nat.strongRecOn generalizing ls b with
  | _ n ih =>
    subst hn
    have hnot : ∀ {cs : List Line}, s ∉ cs.flatMap commentOf := fun hs => by
      rw [comments_imports hs] at hi
      cases hi
    by_cases hstart : ∃ line after, ls.dropWhile Line.isComment = line :: after ∧ indent ≤ line.indent
    · obtain ⟨line, after, hdrop, hindent⟩ := hstart
      obtain ⟨read, more, hread, hmore, rfl⟩ := (readBlock_eq_some hdrop hindent).1 h
      have hsub : line :: after <:+ ls := hdrop ▸ List.dropWhile_suffix _
      have hlen := length_after_lt hdrop
      have hagree : Agree indent after.length [] (inside ls.length) (inside ls.length) :=
        (agree_readBlock (below_nil indent) _).nested (by simpa using hlen)
      have hrest := (statement_within hagree (Nat.le_refl _) hread).1
      have hafter : read.rest ⊆ ls := fun l hl =>
        hsub.subset (List.mem_cons_of_mem _ (hrest.subset hl))
      simp only [Block.followedBy, List.mem_append] at hs
      rcases hs with hs | hs | hs
      · exact absurd hs hnot
      · obtain ⟨body, hbody, hmem⟩ := statement_imports hread hs hi
        exact ⟨line, hsub.subset List.mem_cons_self, body, hbody, hmem⟩
      · simp only [inside, Option.ite_none_right_eq_some] at hmore
        obtain ⟨l, hl, found⟩ := ih _ hmore.1 hmore.2 hs rfl
        exact ⟨l, hafter hl, found⟩
    · rw [readBlock_end fun l more hl => Nat.lt_of_not_le fun hle => hstart ⟨l, more, hl, hle⟩] at h
      obtain rfl := Option.some.inj h
      exact absurd hs hnot

/-! ## Sources -/

/-- No bracket is open at the start of a line. -/
theorem scanned_of_scanLines {source : List Char} (h : scanLines source = some ls) :
    ∀ line ∈ ls, Scanned 0 line.tokens := by
  fun_induction scanLines source generalizing ls with
  | case1 source hempty =>
    obtain rfl := Option.some.inj h
    exact fun line hline => by cases hline
  | case2 source hempty hnone => cases h
  | case3 source start hempty line hline hafter =>
    obtain rfl := Option.some.inj h
    exact List.forall_mem_singleton.2 ⟨_, _, hline, List.prefix_refl _⟩
  | case4 source start hempty line hline first after hafter =>
    rename_i ih
    obtain ⟨more, hmore, rfl⟩ := Option.map_eq_some_iff.1 h
    exact List.forall_mem_cons.2 ⟨⟨_, _, hline, List.prefix_refl _⟩, ih hmore⟩

/-- **Whatever a source imports is imported by tokens outside all brackets.** -/
theorem isStated_of_parse {source : String} (h : parse? source = some body) (hs : s ∈ body)
    (hi : i ∈ s.imports) : IsStated i := by
  obtain ⟨lines, hlines, h⟩ := Option.bind_eq_some_iff.1 h
  obtain ⟨read, hread, h⟩ := Option.bind_eq_some_iff.1 h
  split at h
  · obtain rfl := Option.some.inj h
    obtain ⟨line, hline, body, hbody, hs⟩ := readBlock_imports hread hs hi
    exact isStated_of_simpleStatements (scanned_of_scanLines hlines line hline) hbody hs hi
  · cases h

end TypedStubs.Syntax
