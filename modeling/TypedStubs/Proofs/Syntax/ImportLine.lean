import TypedStubs.Proofs.Syntax.DefinitionLine
import TypedStubs.Proofs.Syntax.Path

/-! # Lines of imports put together

A line imports a module, everything from a source, or members of a source with commas between them.
Each of the three is read off its line as the imports that it was written for (`stretch_module`,
`stretch_star`, `stretch_members`).
-/
namespace TypedStubs.Syntax

open Rule

variable {depth k : Nat} {gap a b : List Char} {g : List Token}

/-! ## Names with aliases -/

/-- What a line imports: a path of words and an alias, if there is one. -/
structure Imported where
  /-- The words of its path. -/
  words : List String
  /-- Its alias. -/
  asName : Option String

namespace Imported

/-- The path. -/
def path (i : Imported) : String := Text.join "." i.words

/-- What is imported, as it is written. -/
def chars (i : Imported) : List Char := (Import.aliased i.path i.asName).toList

/-- The tokens of an alias. -/
def aliasTokens : Option String → List Token
  | some asName => [spelled "as" [' '], spelled asName [' ']]
  | none => []

/-- The tokens of what is imported. -/
def tokens (i : Imported) : List Token := pathTokens i.words ++ aliasTokens i.asName

/-- The path is one and the alias is a word. -/
structure WellFormed (i : Imported) : Prop where
  /-- The path is one. -/
  isPath : IsPath i.words
  /-- The alias is a word. -/
  isWord : ∀ asName ∈ i.asName, Text.isWord asName = true

theorem netting_tokens (i : Imported) (n : Nat) : Netting n n i.tokens := by
  refine (netting_sourceTokens n 0 i.words).append (netting_of_plain fun t ht => ?_)
  cases hname : i.asName with
  | none => simp [hname, aliasTokens] at ht
  | some asName =>
    rw [hname] at ht
    rcases List.mem_cons.1 ht with rfl | ht
    · exact plain_spelled _ _
    · obtain rfl := List.mem_singleton.1 ht
      exact plain_spelled _ _

theorem toList_aliased (path : String) (asName : Option String) :
    (Import.aliased path asName).toList = path.toList ++ written (aliasTokens asName) := by
  cases asName <;> simp [Import.aliased, aliasTokens, spelled]

theorem scans_alias {asName : Option String} (h : ∀ w ∈ asName, Text.isWord w = true) :
    Scans EndsToken depth (written (aliasTokens asName)) (aliasTokens asName) := by
  cases asName with
  | none => exact .nil _ _
  | some w =>
    have hw := (isLexeme_of_isWord (h w rfl)).append (isGap_space depth) (.nil EndsToken _) fun n hn => hn
    have has : IsLexeme .word "as".toList := ⟨'a', ['s'], rfl, rfl, by decide⟩
    have := has.append (isGap_space depth) hw fun n _ => by simpa using endsToken_space _
    simpa [aliasTokens, spelled] using this

theorem endsToken_alias (asName : Option String) {n : List Char} (hn : EndsToken n) :
    EndsToken (written (aliasTokens asName) ++ n) := by
  cases asName with
  | none => exact hn
  | some w => simpa [aliasTokens, spelled] using endsToken_space _

theorem piece {i : Imported} (h : i.WellFormed) (depth : Nat) : Piece depth i.chars i.tokens where
  ne_nil := by simp [tokens, pathTokens_ne_nil h.isPath.ne_nil]
  chars := by
    rw [spanChars_eq_written, tokens, fromGap_append (pathTokens_ne_nil h.isPath.ne_nil),
      fromGap_pathTokens, written_append, written_pathTokens, chars, toList_aliased]
    rfl
  scans := by
    intro gap hgap
    have := (piece_path h.isPath depth).append hgap (scans_alias h.isWord) fun n =>
      endsToken_alias i.asName
    rwa [← fromGap_append (pathTokens_ne_nil h.isPath.ne_nil), pathChars, ← toList_aliased] at this
  netting := i.netting_tokens 0

theorem starts {i : Imported} (h : i.WellFormed) : ∃ w us, i.tokens = spelled w [] :: us := by
  obtain ⟨w, words, hwords⟩ := List.exists_cons_of_ne_nil h.isPath.ne_nil
  refine ⟨w, (words.flatMap fun v => [sign "." [], spelled v []]) ++ aliasTokens i.asName, ?_⟩
  rw [tokens, hwords]
  rfl

/-- What imported names end at. -/
def Ends (g : List Token) : Prop := EndsAt (·.isSymbol ",") g

theorem ends_comma (gap : List Char) (g : List Token) : Ends (sign "," gap :: g) := by
  intro t ht
  obtain rfl : sign "," gap = t := by simpa using ht
  simp

theorem Ends.not_dot {g : List Token} (h : Ends g) : (Ahead.token (·.isSymbol ".")).holds g = false :=
  h.not_holds fun l hl => by
    have hcomma : isOneOf [","] l = true := by simpa [isOneOf, Lexeme.isSymbol] using hl
    exact isSymbol_of_isOneOf (by decide) hcomma

theorem Ends.not_as {g : List Token} (h : Ends g) : (Ahead.token (·.isWord "as")).holds g = false :=
  h.not_holds fun l hl => by
    simp only [Lexeme.isSymbol, Bool.and_eq_true, beq_iff_eq] at hl
    simp [Lexeme.isWord, hl.1]

theorem read_asName? (asName : Option String) {g : List Token} (hg : Ends g) :
    asName?.read (aliasTokens asName ++ g) = some (asName, g) := by
  cases asName with
  | none =>
    have htake : (takeWord "as").read g = some (false, g) := by
      cases g with
      | nil => rfl
      | cons t g =>
        have ht : t.isWord "as" = false := hg.not_as
        simp [read_takeWord_cons, ht]
    simp [asName?, maybe, aliasTokens, read_bind, htake]
  | some w =>
    simp [asName?, maybe, aliasTokens, read_bind, read_takeWord_cons, read_anyWord_spelled]

/-- A path and its alias are read as they were written. -/
theorem read_imported {i : Imported} (h : i.WellFormed) (make : String → Option String → Import)
    (gap : List Char) {g : List Token} (hg : Ends g) :
    (do let path ← dottedName; return make path (← asName?)).read (fromGap gap i.tokens ++ g) =
      some (make i.path i.asName, g) := by
  have hne := h.isPath.ne_nil
  have hstop : (Ahead.token (·.isSymbol ".")).holds (aliasTokens i.asName ++ g) = false := by
    cases i.asName with
    | none => exact hg.not_dot
    | some w => rfl
  rw [tokens, fromGap_append (pathTokens_ne_nil hne), List.append_assoc]
  refine read_bind_eq_some.2 ⟨_, _, read_dottedName hne gap hstop, ?_⟩
  exact read_bind_eq_some.2 ⟨_, _, read_asName? i.asName hg, rfl⟩

end Imported

/-! ## Several names -/

/-- Pieces with commas between them, the first behind `gap` and each other one behind its comma. -/
theorem listed_cons (us : List Token) (more : List (List Token)) :
    listed a b gap (us :: more) = fromGap gap us ++ more.flatMap fun vs => sign "," a :: fromGap b vs := by
  induction more generalizing us gap with
  | nil => simp [listed]
  | cons vs more ih => simp [listed, ih]

/-- Pieces with commas between them are read one after the other. -/
theorem read_commaList {α : Type} {E : List Token → Prop} {p : Rule α} (hend : E [])
    (hcomma : ∀ gap g, E (sign "," gap :: g)) {pieces : List (List Token × α)} (hne : pieces ≠ [])
    (hstarts : ∀ q ∈ pieces, ∃ t us, q.1 = t :: us ∧ startsItem t.toLexeme = true)
    (hreads : ∀ q ∈ pieces, ∀ gap g, E g → p.read (fromGap gap q.1 ++ g) = some (q.2, g)) :
    ∃ several, (commaList p).read (listed a b gap (pieces.map (·.1))) =
      some ((pieces.map (·.2), several), []) := by
  obtain ⟨first, more, rfl⟩ := List.exists_cons_of_ne_nil hne
  have hstep : ∀ q ∈ more, ∀ g, E g → (do
      symbol ","
      if ← (do return !(← atToken fun l => startsItem l || l.isSymbol ",") : Rule Bool) then return none
      else return some (← p)).read (sign "," a :: fromGap b q.1 ++ g) = some (some q.2, g) := by
    intro q hq g hg
    have hread := hreads q (List.mem_cons_of_mem _ hq) b g hg
    have hended : (do return !(← atToken fun l => startsItem l || l.isSymbol ",") : Rule Bool).read
        (fromGap b q.1 ++ g) = some (false, fromGap b q.1 ++ g) := by
      obtain ⟨t, us, htokens, ht⟩ := hstarts q (List.mem_cons_of_mem _ hq)
      rw [htokens]
      simp [read_bind, atToken, Ahead.holds, fromGap, ht]
    refine read_bind_eq_some.2 ⟨(), _, read_symbol_sign _ _ _, read_bind_eq_some.2 ⟨_, _, hended, ?_⟩⟩
    rw [if_neg Bool.false_ne_true]
    exact read_bind_eq_some.2 ⟨_, _, hread, rfl⟩
  have hmember : ∀ q' ∈ more.map fun q => (sign "," a :: fromGap b q.1, some q.2),
      ∃ q ∈ more, q' = (sign "," a :: fromGap b q.1, some q.2) := fun q' hq' => by
    obtain ⟨q, hq, rfl⟩ := List.mem_map.1 hq'
    exact ⟨q, hq, rfl⟩
  have hmore := @read_many_pieces _ E (.token (·.isSymbol ",")) _ _
    (fun q' hq' => by obtain ⟨q, -, rfl⟩ := hmember q' hq'; exact List.cons_ne_nil _ _)
    (fun q' hq' g => by obtain ⟨q, -, rfl⟩ := hmember q' hq'; exact ⟨hcomma _ _, rfl⟩)
    (fun q' hq' g hg => by obtain ⟨q, hq, rfl⟩ := hmember q' hq'; exact hstep q hq g hg) [] hend rfl
  have hbehind : E (more.flatMap fun q => sign "," a :: fromGap b q.1) := by
    cases more with
    | nil => exact hend
    | cons q more => exact hcomma _ _
  have hfirst := hreads first List.mem_cons_self gap _ hbehind
  simp only [List.append_nil, List.flatMap_map, List.map_map, Function.comp_def] at hmore
  refine ⟨!more.isEmpty, ?_⟩
  rw [List.map_cons, listed_cons, List.flatMap_map]
  refine read_bind_eq_some.2 ⟨_, _, hfirst, read_bind_eq_some.2 ⟨_, _, hmore, ?_⟩⟩
  simp [List.filterMap_map]

section Names

variable {items : List Imported}

/-- Imported names behind a word, with commas between them. -/
def namesChars (items : List Imported) : List Char := listedChars [] [' '] [' '] (items.map (·.chars))

/-- The tokens of imported names. -/
def namesTokens (items : List Imported) : List Token := listed [] [' '] [' '] (items.map (·.tokens))

theorem read_names (hne : items ≠ []) (h : ∀ i ∈ items, i.WellFormed)
    (make : String → Option String → Import) :
    ∃ several, (commaList (do let path ← dottedName; return make path (← asName?))).read
      (namesTokens items) = some ((items.map fun i => make i.path i.asName, several), []) := by
  have hmember : ∀ q ∈ items.map fun i => (i.tokens, make i.path i.asName),
      ∃ i : Imported, i.WellFormed ∧ q = (i.tokens, make i.path i.asName) := fun q hq => by
    obtain ⟨i, hi, rfl⟩ := List.mem_map.1 hq
    exact ⟨i, h i hi, rfl⟩
  have hread := @read_commaList [' '] [] [' '] _ Imported.Ends _ (.nil _) Imported.ends_comma
    (items.map fun i => (i.tokens, make i.path i.asName)) (by simpa using hne)
    (fun q hq => by
      obtain ⟨i, hi, rfl⟩ := hmember q hq
      obtain ⟨w, us, htokens⟩ := Imported.starts hi
      exact ⟨spelled w [], us, htokens, rfl⟩)
    (fun q hq gap g hg => by
      obtain ⟨i, hi, rfl⟩ := hmember q hq
      exact Imported.read_imported hi make gap hg)
  simpa [namesTokens, List.map_map, Function.comp_def] using hread

theorem names_start (hne : items ≠ []) (h : ∀ i ∈ items, i.WellFormed) :
    ∃ w us, namesTokens items = spelled w [' '] :: us := by
  obtain ⟨i, items, rfl⟩ := List.exists_cons_of_ne_nil hne
  obtain ⟨w, us, htokens⟩ := Imported.starts (h i List.mem_cons_self)
  have hnames : namesTokens (i :: items) = fromGap [' '] (spelled w [] :: us) ++
      (items.map (·.tokens)).flatMap fun vs => sign "," [] :: fromGap [' '] vs := by
    rw [namesTokens, List.map_cons, listed_cons, htokens]
  exact ⟨w, _, hnames⟩

theorem scans_names (h : ∀ i ∈ items, i.WellFormed) :
    Scans EndsLine 0 (namesChars items) (namesTokens items) := by
  have hpieces : ∀ p ∈ items.map fun i => (i.chars, i.tokens), Piece 0 p.1 p.2 := by
    intro _ hp
    obtain ⟨i, hi, rfl⟩ := List.mem_map.1 hp
    exact Imported.piece (h i hi) 0
  have := scans_listed hpieces (isGap_nil 0) (isGap_space 0) (isGap_space 0) (.nil EndsLine 0)
    fun n hn => hn.endsToken
  simpa [namesChars, namesTokens, List.map_map, Function.comp_def] using this

theorem netting_spelled (w : String) (gap : List Char) (n : Nat) : Netting n n [spelled w gap] :=
  netting_of_plain fun t ht => by
    obtain rfl := List.mem_singleton.1 ht
    exact plain_spelled w gap

theorem netting_listed {pieces : List (List Token)} {n : Nat} (h : ∀ us ∈ pieces, Netting n n us) :
    Netting n n (listed a b gap pieces) := by
  induction pieces generalizing gap with
  | nil => exact .nil n
  | cons us pieces ih =>
    have hus := netting_fromGap (h us List.mem_cons_self) gap
    cases pieces with
    | nil => exact hus
    | cons vs pieces =>
      have hmore := @ih b fun ws hws => h ws (List.mem_cons_of_mem _ hws)
      exact hus.append ((netting_sign (s := ",") (by decide) a n).append hmore)

theorem netting_names (items : List Imported) (n : Nat) : Netting n n (namesTokens items) := by
  refine netting_listed fun us hus => ?_
  obtain ⟨i, -, rfl⟩ := List.mem_map.1 hus
  exact i.netting_tokens n

end Names

/-! ## Statements -/

section Statements

variable {w : String} {cs : List Char} {ts : List Token} {imports : List Import} {words : List String}
  {items : List Imported}

/-- The words that statements of imports start with. -/
def importWords : List String := ["import", "from"]

theorem leadingWord_spelled (hw : w ∈ importWords) (k : Nat) (ts : List Token) :
    leadingWord (spacedLine k (spelled w [] :: ts)) = some w := by
  have hasync : ("async" : String) ∉ importWords := by decide
  have hne : w ≠ "async" := fun heq => hasync (heq ▸ hw)
  cases ts <;> simp [leadingWord, spacedLine, hne]

theorem simpleStatement_importing (hw : w ∈ importWords)
    (hread : importStatement.read (spelled w [] :: ts) = some (imports, [])) :
    simpleStatement (spelled w [] :: ts) = some fun place => .importing place imports := by
  have hfirst : ((spelled w []).isWord "import" || (spelled w []).isWord "from") = true := by
    simpa [importWords] using hw
  rw [simpleStatement]
  simp only [hfirst, if_true]
  exact wholeStatement_eq_some.2 (read_bind_eq_some.2 ⟨imports, [], hread, rfl⟩)

/-- A line that is read as a statement of imports. -/
theorem stretch_importing (hw : w ∈ importWords) (hscan : Scans EndsLine 0 cs ts)
    (hE : ∀ n, EndsLine n → EndsToken (cs ++ n)) (hnet : Netting 0 0 ts)
    (hread : importStatement.read (spelled w [] :: ts) = some (imports, [])) (k : Nat) :
    ∃ place, Stretch k (List.replicate k ' ' ++ (w.toList ++ cs ++ ['\n'])) [.importing place imports] := by
  have hword : Text.isWord w = true := by
    simp only [importWords, List.mem_cons, List.not_mem_nil, or_false] at hw
    rcases hw with rfl | rfl <;> decide
  have hplain : Netting 0 0 (spelled w [] :: ts) := (netting_spelled w [] 0).append hnet
  obtain ⟨c, u, hchars, hc, -⟩ := isLexeme_of_isWord hword
  have hline : IsLine (w.toList ++ cs) (spelled w [] :: ts) := by
    have hall := (isLexeme_of_isWord hword).append (isGap_nil 0) hscan hE
    exact hall.isLine_of_start (by rw [hchars]; rfl) hc (hplain.level 0)
  have hsimple := @simpleStatements_one k _ hplain.ordinary
  rw [simpleStatement_importing hw hread] at hsimple
  refine ⟨_, stretch_simple hline ?_ ?_ hsimple⟩
  · intro t ht
    obtain rfl : spelled w [] = t := by simpa using ht
    have hclause : ∀ w ∈ importWords, w ∉ clauseWords := by decide
    exact ⟨rfl, spelled_isSymbol _ _ _, fun w' hw' => by
      simpa using fun heq : w = w' => hclause w hw (heq ▸ hw')⟩
  · intro w' hw'
    rw [leadingWord_spelled hw] at hw'
    obtain rfl := Option.some.inj hw'
    have hblock : ∀ w ∈ importWords, w ∉ blockWords := by decide
    exact hblock w hw

theorem endsToken_names (hne : items ≠ []) (n : List Char) : EndsToken (namesChars items ++ n) := by
  obtain ⟨i, items, rfl⟩ := List.exists_cons_of_ne_nil hne
  cases items <;> simpa [namesChars, listedChars] using endsToken_space _

/-- A line that imports a module. -/
theorem stretch_module {i : Imported} (h : i.WellFormed) (k : Nat) :
    ∃ place, Stretch k (List.replicate k ' ' ++ ("import".toList ++ namesChars [i] ++ ['\n']))
      [.importing place [.module i.path i.asName]] := by
  have hitem : ∀ j ∈ [i], j.WellFormed := fun j hj => by
    obtain rfl := List.mem_singleton.1 hj
    exact h
  obtain ⟨several, hnames⟩ := read_names (List.cons_ne_nil i []) hitem .module
  refine stretch_importing (by decide) (scans_names hitem)
    (fun n _ => endsToken_names (List.cons_ne_nil i []) n) (netting_names [i] 0) ?_ k
  have htake : (takeWord "import").read (spelled "import" [] :: namesTokens [i]) =
      some (true, namesTokens [i]) := by simp [read_takeWord_cons]
  exact read_bind_eq_some.2 ⟨true, _, htake, read_bind_eq_some.2 ⟨_, _, hnames, rfl⟩⟩

end Statements

/-- What a line draws from a source. -/
inductive Drawn where
  /-- Everything. -/
  | everything
  /-- Members. -/
  | members (items : List Imported)

namespace Drawn

/-- What is drawn, as it is written. -/
def chars : Drawn → List Char
  | everything => [' '] ++ ['*']
  | members items => namesChars items

/-- The tokens of what is drawn. -/
def tokens : Drawn → List Token
  | everything => [sign "*" [' ']]
  | members items => namesTokens items

/-- The imports that draw it. -/
def imports (source : String) : Drawn → List Import
  | everything => [.star source]
  | members items => items.map fun i => .member source i.path i.asName

/-- Members are some, and each of them is well formed. -/
def WellFormed : Drawn → Prop
  | everything => True
  | members items => items ≠ [] ∧ ∀ i ∈ items, i.WellFormed

variable {d : Drawn} {n : Nat} {words : List String}

theorem scans (h : d.WellFormed) : Scans EndsLine 0 d.chars d.tokens := by
  cases d with
  | everything =>
    have hstar : IsLexeme .symbol ['*'] := ⟨'*', [], rfl, rfl, by decide⟩
    have := hstar.append (isGap_space 0) (.nil EndsLine 0) fun n hn => hn.endsToken
    simpa [chars, tokens, sign] using this
  | members items => exact scans_names h.2

theorem endsToken (h : d.WellFormed) (n : List Char) : EndsToken (d.chars ++ n) := by
  cases d with
  | everything => simpa [chars] using endsToken_space _
  | members items => exact endsToken_names h.1 n

theorem netting (d : Drawn) (n : Nat) : Netting n n d.tokens := by
  cases d with
  | everything => exact netting_sign (by decide) [' '] n
  | members items => exact netting_names items n

/-- The tokens of a line that draws something from a source, but the first one. -/
def lineTokens (n : Nat) (words : List String) (d : Drawn) : List Token :=
  fromGap [' '] (sourceTokens n words) ++ spelled "import" [' '] :: d.tokens

theorem read_line (hsource : IsSource n words) (h : d.WellFormed) :
    importStatement.read (spelled "from" [] :: lineTokens n words d) =
      some (d.imports (String.ofList (sourceChars n words)), []) := by
  have htake : (takeWord "import").read (spelled "from" [] :: lineTokens n words d) =
      some (false, spelled "from" [] :: lineTokens n words d) := by simp [read_takeWord_cons]
  have hfrom : (word "from").read (spelled "from" [] :: lineTokens n words d) =
      some ((), lineTokens n words d) := read_word_eq_some.2 ⟨_, rfl, by simp⟩
  have himport : (word "import").read (spelled "import" [' '] :: d.tokens) = some ((), d.tokens) :=
    read_word_eq_some.2 ⟨_, rfl, by simp⟩
  refine read_bind_eq_some.2 ⟨false, _, htake, ?_⟩
  rw [if_neg Bool.false_ne_true]
  refine read_bind_eq_some.2 ⟨(), _, hfrom, ?_⟩
  refine read_bind_eq_some.2 ⟨_, _, read_importSource hsource [' '] [' '] d.tokens, ?_⟩
  refine read_bind_eq_some.2 ⟨(), _, himport, ?_⟩
  cases d with
  | everything => exact read_bind_eq_some.2 ⟨true, [], by simp [tokens, read_takeSymbol_cons], rfl⟩
  | members items =>
    obtain ⟨w, us, htokens⟩ := names_start h.1 h.2
    obtain ⟨several, hnames⟩ := read_names h.1 h.2 (.member (String.ofList (sourceChars n words)))
    have hnone : ∀ s, (takeSymbol s).read (members items).tokens = some (false, namesTokens items) := by
      intro s
      rw [tokens, htokens, read_takeSymbol_cons]
      simp
    refine read_bind_eq_some.2 ⟨false, _, hnone "*", ?_⟩
    rw [if_neg Bool.false_ne_true]
    refine read_bind_eq_some.2 ⟨false, _, hnone "(", ?_⟩
    rw [if_neg Bool.false_ne_true]
    exact read_bind_eq_some.2 ⟨_, _, hnames, rfl⟩

/-- A line that draws something from a source. -/
theorem stretch_line (hsource : IsSource n words) (h : d.WellFormed) (k : Nat) :
    ∃ place, Stretch k (List.replicate k ' ' ++ ("from".toList ++ ([' '] ++ (sourceChars n words ++
        ([' '] ++ ("import".toList ++ d.chars)))) ++ ['\n']))
      [.importing place (d.imports (String.ofList (sourceChars n words)))] := by
  have himport := (isLexeme_of_isWord (w := "import") (by decide)).append (isGap_space 0) (scans h)
    fun n _ => endsToken h n
  have hscan := (piece_source hsource 0).append (isGap_space 0) himport fun n _ => by
    simpa using endsToken_space _
  have hnet : Netting 0 0 (lineTokens n words d) :=
    (netting_fromGap (netting_sourceTokens 0 n words) [' ']).append
      ((netting_spelled "import" [' '] 0).append (netting d 0))
  exact stretch_importing (by decide) hscan (fun n _ => by simpa using endsToken_space _) hnet
    (read_line hsource h) k

end Drawn

end TypedStubs.Syntax
