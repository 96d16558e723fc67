import TypedStubs.Proofs.Syntax.Assignment
import TypedStubs.Proofs.Syntax.DefinitionLine
import TypedStubs.Proofs.Text.Cut
import TypedStubs.Stub.Reader
import TypedStubs.Stub.Render

/-! # Items are read again where they are written

An item that is put together from well-formed pieces is written as lines that are read as the same
item (`StubItem.WellFormed.inPlace`).  Items that are read so one by one are read so one below the
other, and a class is read so with its items.
-/
namespace TypedStubs

open Syntax

/-! ## Lines as characters -/

/-- The indentation of `k` spaces. -/
def spaces (k : Nat) : String := String.ofList (List.replicate k ' ')

@[simp] theorem toList_spaces (k : Nat) : (spaces k).toList = List.replicate k ' ' :=
  String.toList_ofList

theorem spaces_zero : spaces 0 = "" := rfl

theorem spaces_step (k : Nat) : spaces k ++ indentStep = spaces (k + 4) := by
  have hstep : indentStep.toList = List.replicate 4 ' ' := by decide
  rw [← String.toList_inj, String.toList_append, toList_spaces, toList_spaces, hstep,
    List.replicate_append_replicate]

/-- The characters of lines. -/
theorem toList_unlines (lines : List String) :
    (unlines lines).toList = lines.flatMap fun line => line.toList ++ ['\n'] := by
  simp [unlines, List.flatMap_map]

@[simp] theorem unlines_nil : unlines [] = "" := rfl

@[simp] theorem toList_unlines_append (ls ms : List String) :
    (unlines (ls ++ ms)).toList = (unlines ls).toList ++ (unlines ms).toList := by
  simp [toList_unlines]

@[simp] theorem toList_unlines_cons (line : String) (lines : List String) :
    (unlines (line :: lines)).toList = line.toList ++ '\n' :: (unlines lines).toList := by
  simp [toList_unlines]

/-! ## Items in their place -/

/-- Whether an item is a comment. -/
def StubItem.isComment : StubItem → Bool
  | .verbatim text => text.toList.head? == some '#'
  | _ => false

/-- Items are read as `items` from the lines `cs` behind `k` spaces. -/
structure ReadsItems (k : Nat) (cs : List Char) (items : List StubItem) (stmts : List Stmt) : Prop where
  /-- The lines are statements of a block. -/
  stretch : Stretch k cs stmts
  /-- They make the items. -/
  made : Stub.itemsOfAll stmts = .ok items
  /-- They start with a comment only if the items do. -/
  comment : stmts.head?.any Stmt.isComment = true → items.head?.any StubItem.isComment = true
  /-- They are no imports that belong to the top of a stub. -/
  notImporting : k = 0 → ∀ s ∈ stmts, Stub.isImporting s = false

/-- An item is read again from its lines. -/
def InPlace (k : Nat) (item : StubItem) : Prop :=
  ∃ stmts, stmts ≠ [] ∧ ReadsItems k (unlines (item.lines (spaces k))).toList [item] stmts

theorem itemsOfAll_append {ss ss' : List Stmt} {items items' : List StubItem}
    (h : Stub.itemsOfAll ss = .ok items) (h' : Stub.itemsOfAll ss' = .ok items') :
    Stub.itemsOfAll (ss ++ ss') = .ok (items ++ items') := by
  induction ss generalizing items with
  | nil =>
    obtain rfl : [] = items := by simpa [Stub.itemsOfAll, pure, Except.pure] using h
    exact h'
  | cons s ss ih =>
    simp only [Stub.itemsOfAll, List.cons_append] at h ⊢
    cases hs : Stub.itemsOf s with
    | error e => rw [hs] at h; cases h
    | ok first =>
      rw [hs] at h
      cases hss : Stub.itemsOfAll ss with
      | error e => rw [hss] at h; cases h
      | ok more =>
        rw [hss] at h
        obtain rfl : first ++ more = items := by
          simpa [bind, Except.bind, pure, Except.pure] using h
        rw [ih hss]
        simp [bind, Except.bind, pure, Except.pure]

namespace ReadsItems

variable {k : Nat} {cs cs' : List Char} {items items' : List StubItem} {stmts stmts' : List Stmt}

theorem append (h : ReadsItems k cs items stmts) (h' : ReadsItems k cs' items' stmts')
    (hne : stmts ≠ []) (hitems : items ≠ []) :
    ReadsItems k (cs ++ cs') (items ++ items') (stmts ++ stmts') where
  stretch := h.stretch.append h'.stretch
  made := itemsOfAll_append h.made h'.made
  comment := by
    obtain ⟨s, ss, rfl⟩ := List.exists_cons_of_ne_nil hne
    obtain ⟨i, is, rfl⟩ := List.exists_cons_of_ne_nil hitems
    simpa using h.comment
  notImporting := by
    intro hk s hs
    rcases List.mem_append.1 hs with hs | hs
    · exact h.notImporting hk s hs
    · exact h'.notImporting hk s hs

theorem blank (h : ReadsItems k cs items stmts) : ReadsItems k ('\n' :: cs) items stmts :=
  { h with stretch := h.stretch.blank }

end ReadsItems

/-- An item whose lines are read as one statement that makes it. -/
theorem inPlace_of_stretch {k : Nat} {cs : List Char} {item : StubItem} {s : Stmt}
    (h : Stretch k cs [s]) (hlines : (unlines (item.lines (spaces k))).toList = cs)
    (hmade : Stub.itemsOf s = .ok [item]) (hcomment : s.isComment = false)
    (himport : Stub.isImporting s = false) : InPlace k item := by
  refine ⟨[s], List.cons_ne_nil _ _, hlines ▸ h, ?_, ?_, ?_⟩
  · simp [Stub.itemsOfAll, hmade, bind, Except.bind, pure, Except.pure]
  · intro hc
    rw [List.head?_cons, Option.any_some, hcomment] at hc
    cases hc
  · intro _ s' hs
    obtain rfl := List.mem_singleton.1 hs
    exact himport

/-- **Items that are read again one by one are read again one below the other.** -/
theorem readsItems_itemLines {k : Nat} {items : List StubItem} (hne : items ≠ [])
    (h : ∀ item ∈ items, InPlace k item) :
    ∃ stmts, stmts ≠ [] ∧ ReadsItems k (unlines (itemLines (spaces k) items)).toList items stmts := by
  induction items with
  | nil => exact absurd rfl hne
  | cons item rest ih =>
    obtain ⟨stmts, hstmts, hitem⟩ := h item List.mem_cons_self
    cases rest with
    | nil => exact ⟨stmts, hstmts, by simpa [itemLines] using hitem⟩
    | cons next rest =>
      obtain ⟨more, hmore, hrest⟩ := ih (List.cons_ne_nil _ _) fun i hi => h i (List.mem_cons_of_mem _ hi)
      have hblank : ReadsItems k (unlines ((if item.isClass || next.isClass then [""] else []) ++
          itemLines (spaces k) (next :: rest))).toList (next :: rest) more := by
        split
        · simpa using hrest.blank
        · simpa using hrest
      refine ⟨stmts ++ more, by simp [hstmts], ?_⟩
      have := hitem.append hblank hstmts (List.cons_ne_nil _ _)
      rw [itemLines]
      simpa using this

/-! ## Attributes -/

/-- A text that `r` reads as an expression with that text, wherever it is written. -/
def Spells (E : List Token → Prop) (depth : Nat) (r : Rule Expr) (text : String) : Prop :=
  ∃ e, Reads E depth r text.toList e ∧ e.text = text

/-- An attribute of well-formed pieces. -/
structure StubAttribute.WellFormed (a : StubAttribute) : Prop where
  /-- Its name is one. -/
  name : ∃ e, Reads EndsValue 0 assignedValue a.name.toList e ∧ e.isName = true ∧ e.text = a.name
  /-- Its name starts no other statement and no clause. -/
  alone : a.name ∉ blockWords ++ clauseWords ++ plainWords
  /-- Its hint is one. -/
  hint : ∀ text ∈ a.hintText, Spells (EndsAt isStop) 0 hintExpr text
  /-- Its value is one. -/
  value : ∀ text ∈ a.value, Spells EndsValue 0 assignedValue text
  /-- It has one of them. -/
  known : a.hintText.isSome = true ∨ a.value.isSome = true

/-- The pieces that an optional text is read by. -/
theorem exists_pieces {E : List Token → Prop} {depth : Nat} {r : Rule Expr} {o : Option String}
    (h : ∀ text ∈ o, Spells E depth r text) :
    ∃ pieces : Option (List Token × Expr),
      (∀ p ∈ pieces, Piece depth p.2.text.toList p.1) ∧
      (∀ p ∈ pieces, ReadsTokens E r p.1 p.2) ∧ pieces.map (·.2.text) = o := by
  cases o with
  | none => exact ⟨none, by simp, by simp, rfl⟩
  | some text =>
    obtain ⟨e, ⟨us, hpiece, -, hread⟩, rfl⟩ := h text rfl
    refine ⟨some (us, e), ?_, ?_, rfl⟩
    · intro p hp
      obtain rfl : (us, e) = p := by simpa using hp
      exact hpiece
    · intro p hp
      obtain rfl : (us, e) = p := by simpa using hp
      exact hread

theorem toList_attributeLine (a : StubAttribute) (h : a.hintText.isSome = true ∨ a.value.isSome = true) :
    a.line.toList = assignmentChars a.name.toList (a.hintText.map String.toList)
      (a.value.map String.toList) := by
  obtain ⟨name, hint, value⟩ := a
  cases hint <;> cases value <;> simp_all [StubAttribute.line, assignmentChars]

/-- **An attribute of well-formed pieces is read again where it is written.** -/
theorem StubAttribute.WellFormed.inPlace {a : StubAttribute} (h : a.WellFormed) (k : Nat) :
    InPlace k (.ofAttribute a) := by
  obtain ⟨e, ⟨us, hpiece, -, hread⟩, hname, htext⟩ := h.name
  obtain ⟨hint, hhintPiece, hhintRead, hhint⟩ := exists_pieces h.hint
  obtain ⟨value, hvaluePiece, hvalueRead, hvalue⟩ := exists_pieces h.value
  have hsome : hint.isSome = true ∨ value.isSome = true := by
    have := h.known
    rwa [← hhint, ← hvalue, Option.isSome_map, Option.isSome_map] at this
  obtain ⟨place, hstretch⟩ := @stretch_assignment (us, e) _ _ (htext ▸ hpiece) hread hname
    (htext ▸ h.alone) hhintPiece hhintRead hvaluePiece hvalueRead hsome k
  refine inPlace_of_stretch hstretch ?_ ?_ rfl rfl
  · have hline := toList_attributeLine a h.known
    rw [← hhint, ← hvalue, Option.map_map, Option.map_map, ← htext] at hline
    simp [StubItem.lines, hline, Function.comp_def]
  · simp [Stub.itemsOf, hname, Function.comp_def, hhint, hvalue, htext]

/-! ## Functions -/

/-- What stands between parameters: a comma with gaps around it.  When the text breaks the line, a gap
stands behind the last line end. -/
def IsSeparator (sep : String) : Prop :=
  ∃ a b, sep.toList = a ++ ',' :: b ∧ IsGap 1 a ∧ IsGap 1 b ∧ ('\n' ∈ a → '\n' ∈ b)

/-- A function of well-formed pieces. -/
structure StubFunction.WellFormed (f : StubFunction) : Prop where
  /-- Its name is a word. -/
  name : IsLexeme .word f.name.toList
  /-- Its decorators are expressions. -/
  decorators : ∀ text ∈ f.decorators, Spells (EndsAt isStop) 0 (.inner .full) text
  /-- Its parameters are what their texts say. -/
  params : ∀ p ∈ f.params, ∃ q, Reads EndsArgument 1 param q.text.toList q ∧ Stub.paramOf q = p
  /-- What it returns is a hint. -/
  returns : ∀ text ∈ f.returns, Spells (EndsAt isStop) 0 hintExpr text
  /-- A comma stands between its parameters. -/
  separator : IsSeparator f.separator
  /-- Nothing is kept of what stands between fewer parameters. -/
  few : f.params.length < 2 → f.separator = ", "

/-- The expressions that texts spell. -/
theorem exists_expressions {E : List Token → Prop} {depth : Nat} {r : Rule Expr} {texts : List String}
    (h : ∀ text ∈ texts, Spells E depth r text) :
    ∃ es : List Expr, es.map (·.text) = texts ∧ ∀ e ∈ es, Reads E depth r e.text.toList e := by
  induction texts with
  | nil => exact ⟨[], rfl, by simp⟩
  | cons text texts ih =>
    obtain ⟨es, hes, hall⟩ := ih fun s hs => h s (List.mem_cons_of_mem _ hs)
    obtain ⟨e, hread, rfl⟩ := h text List.mem_cons_self
    exact ⟨e :: es, by simp [hes], List.forall_mem_cons.2 ⟨hread, hall⟩⟩

/-- The parameters that are written. -/
theorem StubFunction.WellFormed.exists_params {f : StubFunction} (h : f.WellFormed) :
    ∃ qs : List Syntax.Param, qs.map Stub.paramOf = f.params ∧
      ∀ q ∈ qs, Reads EndsArgument 1 param q.text.toList q := by
  have hparams := h.params
  generalize f.params = ps at hparams
  induction ps with
  | nil => exact ⟨[], rfl, by simp⟩
  | cons p ps ih =>
    obtain ⟨qs, hqs, hall⟩ := ih fun q hq => hparams q (List.mem_cons_of_mem _ hq)
    obtain ⟨q, hread, rfl⟩ := hparams p List.mem_cons_self
    exact ⟨q :: qs, by simp [hqs], List.forall_mem_cons.2 ⟨hread, hall⟩⟩

theorem toList_decoratorLines (k : Nat) (es : List Expr) :
    (unlines (decoratorLines (spaces k) (es.map (·.text)))).toList =
      decoratorChars k (es.map fun d => ('@' :: d.text.toList, d)) := by
  induction es with
  | nil => rfl
  | cons e es ih =>
    simp only [decoratorLines, List.map_cons, decoratorChars, List.flatMap_cons,
      toList_unlines_cons] at ih ⊢
    rw [ih]
    simp

/-- The last line end of a text stands behind its comma. -/
theorem exists_behind_comma {a b before inner : List Char} (h : a ++ ',' :: b = before ++ '\n' :: inner)
    (hnot : '\n' ∉ inner) (hbreak : '\n' ∈ a → '\n' ∈ b) : ∃ x, b = x ++ '\n' :: inner := by
  rcases List.append_eq_append_iff.1 h with ⟨z, -, hz⟩ | ⟨z, ha, hz⟩
  · cases z with
    | nil => simp at hz
    | cons c z => exact ⟨z, (List.cons.inj hz).2⟩
  · cases z with
    | nil => simp at hz
    | cons c z =>
      obtain ⟨rfl, hinner⟩ := List.cons.inj hz
      have hb : '\n' ∈ b := hbreak (by simp [ha])
      exact absurd (by simp [hinner, hb]) hnot

/-- How the parameters of a function are written: the gap before the first of them, and what stands
behind the last one. -/
theorem toList_paramsText {f : StubFunction} {a b : List Char} (k : Nat)
    (hsep : f.separator.toList = a ++ ',' :: b) (hb : IsGap 1 b) (hbreak : '\n' ∈ a → '\n' ∈ b) :
    ∃ gap closing, (f.paramsText (spaces k)).toList =
        '(' :: (listedChars a b gap (f.params.map (·.text.toList)) ++ closingChars closing) ∧
      IsGap 1 gap ∧ (∀ g ∈ closing, IsGap 1 g) ∧ (f.params = [] → closing = none) := by
  by_cases hnil : f.params = []
  · refine ⟨[], none, ?_, isGap_nil 1, by simp, fun _ => rfl⟩
    unfold StubFunction.paramsText
    split <;> simp [hnil, listedChars, closingChars, Text.join]
  have hne : f.params.map (·.text) ≠ [] := by simpa using hnil
  have hmap : (f.params.map (·.text)).map String.toList = f.params.map (·.text.toList) := by simp
  have hjoin := fun gap => toList_join hsep gap hne
  rw [hmap] at hjoin
  cases hcut : Text.cutLast '\n' f.separator with
  | none =>
    refine ⟨[], none, ?_, isGap_nil 1, by simp, fun _ => rfl⟩
    have := hjoin []
    simp [StubFunction.paramsText, hcut, closingChars, ← this]
  | some cut =>
    obtain ⟨before, inner⟩ := cut
    obtain ⟨hsplit, hnot⟩ := Text.cutLast_eq_some hcut
    obtain ⟨x, hx⟩ := exists_behind_comma (hsep.symm.trans hsplit) hnot hbreak
    have hinner : IsGap 1 inner.toList := (hx ▸ hb).behind_newline
    refine ⟨'\n' :: inner.toList, some ('\n' :: List.replicate k ' '), ?_,
      hinner.newline (by decide), ?_, fun h => absurd h hnil⟩
    · have := hjoin ('\n' :: inner.toList)
      simp [StubFunction.paramsText, hcut, hnil, closingChars, ← this]
    · intro g hg
      obtain rfl : '\n' :: List.replicate k ' ' = g := by simpa using hg
      exact (isGap_spaces 1 k).newline (by decide)

theorem toList_functionLine {f : StubFunction} {a b gap : List Char} {closing : Option (List Char)} {k : Nat}
    (hparams : (f.paramsText (spaces k)).toList =
      '(' :: (listedChars a b gap (f.params.map (·.text.toList)) ++ closingChars closing)) :
    (f.line (spaces k)).toList = List.replicate k ' ' ++
      functionChars f.isAsync f.name a b gap (f.params.map (·.text.toList)) closing f.returns := by
  obtain ⟨name, decorators, isAsync, params, separator, returns⟩ := f
  cases isAsync <;> cases returns <;>
    simp [StubFunction.line, functionChars, frontChars, endChars, hparams]

/-- The separator that is read again. -/
theorem StubFunction.WellFormed.getD_betweenText {f : StubFunction} (h : f.WellFormed) {a b : List Char}
    (hsep : f.separator.toList = a ++ ',' :: b) {qs : List Syntax.Param}
    (hlength : qs.length = f.params.length) : (betweenText a b qs).getD ", " = f.separator := by
  match qs, hlength with
  | [], hlength | [_], hlength => exact (h.few (by simp [← hlength])).symm
  | _ :: _ :: _, _ => exact (congrArg String.ofList hsep).symm.trans String.ofList_toList

/-- **A function of well-formed pieces is read again where it is written.** -/
theorem StubFunction.WellFormed.inPlace {f : StubFunction} (h : f.WellFormed) (k : Nat) :
    InPlace k (.ofFunction f) := by
  obtain ⟨a, b, hsep, ha, hb, hbreak⟩ := h.separator
  obtain ⟨gap, closing, hparams, hgap, hclosing, hempty⟩ := toList_paramsText (f := f) k hsep hb hbreak
  obtain ⟨ds, hds, hdecorators⟩ := exists_expressions h.decorators
  obtain ⟨qs, hqs, hread⟩ := h.exists_params
  obtain ⟨returned, hreturned, hreturns⟩ : ∃ e : Option Expr, e.map (·.text) = f.returns ∧
      ∀ d ∈ e, Reads (EndsAt isStop) 0 hintExpr d.text.toList d := by
    cases hf : f.returns with
    | none => exact ⟨none, rfl, by simp⟩
    | some text =>
      obtain ⟨e, hread, rfl⟩ := h.returns text hf
      exact ⟨some e, rfl, by simpa using hread⟩
  have hnil : qs = [] → closing = none := fun hq => hempty (by rw [← hqs, hq]; rfl)
  obtain ⟨body, hstretch⟩ := @stretch_function a b gap ds f.isAsync f.name qs returned closing (fun d hd =>
    isDecorator_of_reads (hdecorators d hd)) h.name hread hreturns ha hb hgap hclosing hnil k
  have htexts : f.params.map (·.text.toList) = qs.map (·.text.toList) := by
    simp [← hqs, Function.comp_def, Stub.paramOf]
  have hfunction : Stub.functionOf ⟨f.name, f.isAsync, qs, betweenText a b qs, returned.map (·.text)⟩ ds =
      f := by
    have hlength : qs.length = f.params.length := by rw [← hqs, List.length_map]
    have hseparator := h.getD_betweenText hsep hlength
    obtain ⟨name, decorators, isAsync, params, separator, returns⟩ := f
    simp only [Stub.functionOf] at hds hqs hreturned hseparator ⊢
    rw [hds, hqs, hreturned, hseparator]
  refine inPlace_of_stretch hstretch ?_ ?_ rfl rfl
  · rw [StubItem.lines, toList_unlines_append, ← hds, toList_decoratorLines]
    simp [toList_functionLine hparams, htexts, hreturned]
  · rw [Stub.itemsOf, hfunction]

/-! ## Classes -/

/-- The head of a class of well-formed pieces. -/
structure StubClass.WellFormed (head : StubClass) : Prop where
  /-- Its name is a word. -/
  name : IsLexeme .word head.name.toList
  /-- Its decorators are expressions. -/
  decorators : ∀ text ∈ head.decorators, Spells (EndsAt isStop) 0 (.inner .full) text
  /-- Its bases are arguments. -/
  bases : ∀ text ∈ head.bases, Spells EndsArgument 1 argument text

theorem toList_classLine (head : StubClass) (k : Nat) :
    (head.line (spaces k)).toList =
      List.replicate k ' ' ++ classChars head.name (head.bases.map String.toList) := by
  obtain ⟨name, decorators, bases⟩ := head
  by_cases hnil : bases = []
  · subst hnil
    simp [StubClass.line, classChars]
  · have hjoin := toList_join (show (", " : String).toList = [] ++ ',' :: [' '] by decide) [] hnil
    simp [StubClass.line, classChars, hnil, ← hjoin]

theorem classOf_bases {head : StubClass} {ds bases : List Expr}
    (hds : ds.map (·.text) = head.decorators) (hbases : bases.map (·.text) = head.bases) :
    Stub.classOf ⟨head.name, bases.map .base⟩ ds = head := by
  obtain ⟨name, decorators, texts⟩ := head
  simp only [Stub.classOf, List.map_map] at hds hbases ⊢
  rw [hds, ← hbases]
  rfl

/-- **A class of well-formed pieces is read again with its items, unless a comment is the first of
them.** -/
theorem StubClass.WellFormed.inPlace {head : StubClass} (h : head.WellFormed) {items : List StubItem}
    {k : Nat} (hitems : ∀ item ∈ items, InPlace (k + 4) item)
    (hfirst : items.head?.any StubItem.isComment = false) : InPlace k (.ofClass head items) := by
  obtain ⟨ds, hds, hdecorators⟩ := exists_expressions h.decorators
  obtain ⟨bases, hbases, hread⟩ := exists_expressions h.bases
  have hdecorated : ∀ d ∈ ds, IsDecorator ('@' :: d.text.toList) d := fun d hd =>
    isDecorator_of_reads (hdecorators d hd)
  have hclass := classOf_bases hds hbases
  have htexts : head.bases.map String.toList = bases.map (·.text.toList) := by
    simp [← hbases, Function.comp_def]
  by_cases hnil : items = []
  · subst hnil
    obtain ⟨place, hstretch⟩ := stretch_class_dots hdecorated h.name hread k
    refine inPlace_of_stretch hstretch ?_ ?_ rfl rfl
    · rw [StubItem.lines, toList_unlines_append, ← hds, toList_decoratorLines]
      simp [toList_classLine, htexts]
    · simp only [Stub.itemsOf, Stub.itemsOfAll, hclass]
      rfl
  · obtain ⟨stmts, hne, hinside⟩ := readsItems_itemLines hnil hitems
    have hcomment : stmts.head?.any Stmt.isComment = false := by
      refine Bool.eq_false_iff.2 fun hc => ?_
      rw [hinside.comment hc] at hfirst
      cases hfirst
    have hstretch := stretch_class hdecorated h.name hread hinside.stretch hcomment (k := k) (by omega)
    refine inPlace_of_stretch hstretch ?_ ?_ rfl rfl
    · rw [StubItem.lines, toList_unlines_append, ← hds, toList_decoratorLines]
      simp [hnil, toList_classLine, htexts, spaces_step]
    · simp only [Stub.itemsOf, hclass, hinside.made]
      rfl

/-! ## Items -/

/-- An item of well-formed pieces, `k` spaces deep.  A text that is carried along is asked for no more
than to be read again; no class starts with a comment. -/
inductive StubItem.WellFormed : Nat → StubItem → Prop where
  /-- An attribute. -/
  | ofAttribute {k : Nat} {a : StubAttribute} (h : a.WellFormed) : WellFormed k (.ofAttribute a)
  /-- A function. -/
  | ofFunction {k : Nat} {f : StubFunction} (h : f.WellFormed) : WellFormed k (.ofFunction f)
  /-- A class with its items. -/
  | ofClass {k : Nat} {head : StubClass} {items : List StubItem} (h : head.WellFormed)
      (hfirst : items.head?.any StubItem.isComment = false)
      (hitems : ∀ item ∈ items, WellFormed (k + 4) item) : WellFormed k (.ofClass head items)
  /-- Text that is carried along. -/
  | verbatim {k : Nat} {text : String} (h : InPlace k (.verbatim text)) : WellFormed k (.verbatim text)

/-- **An item of well-formed pieces is read again where it is written.** -/
theorem StubItem.WellFormed.inPlace {k : Nat} {item : StubItem} (h : item.WellFormed k) :
    InPlace k item := by
  induction h with
  | ofAttribute h => exact h.inPlace _
  | ofFunction h => exact h.inPlace _
  | ofClass h hfirst _ ih => exact h.inPlace ih hfirst
  | verbatim h => exact h

end TypedStubs
