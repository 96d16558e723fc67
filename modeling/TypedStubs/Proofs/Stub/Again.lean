import TypedStubs.Proofs.Stub.Indentation
import TypedStubs.Proofs.Stub.Reading
import TypedStubs.Proofs.Syntax.Carried

/-! # Stubs that were read are written the same again

What a stub was read from is made of pieces that can be written again, so most of its items are well formed
(`wellFormed_of_parse`), and its text stays as it is when it is read and written again (`render_again_of_parse`).
A few things are read in one place and written in another one, and these are left out (`StubItem.Tidy`): a comment
among the bases of a class becomes a base, a comment as the first item of a class goes to its head, and a name that
starts a statement with bodies may follow a semicolon but not start a line.
-/
namespace TypedStubs

open Syntax

/-! ## What is left out -/

/-- A text that is carried along in one line, which does not start like a statement with bodies. -/
structure OnOneLine (text : String) : Prop where
  /-- There is something in it. -/
  written : Text.isAllBlank text = false
  /-- It is one line. -/
  line : '\n' ∉ text.toList
  /-- Its first word starts no statement with bodies and no clause of one. -/
  alone : firstWord text.toList ∉ headWords

/-- An item, `k` spaces deep, all of which is written where it is read. -/
inductive StubItem.Tidy : Nat → StubItem → Prop where
  /-- An attribute whose name may start a line. -/
  | ofAttribute {k : Nat} {a : StubAttribute} (h : a.name ∉ blockWords ++ clauseWords) : Tidy k (.ofAttribute a)
  /-- A function: no comma starts a line between its parameters. -/
  | ofFunction {k : Nat} {f : StubFunction}
      (h : ∀ before inner, Text.cutLast '\n' f.separator = some (before, inner) → ',' ∉ inner.toList) :
      Tidy k (.ofFunction f)
  /-- A class without comments among its bases, the first of whose items is no comment. -/
  | ofClass {k : Nat} {head : StubClass} {items : List StubItem}
      (hbases : ∀ text ∈ head.bases, text.toList.head? ≠ some '#')
      (hfirst : items.head?.any StubItem.isComment = false) (hitems : ∀ item ∈ items, Tidy (k + 4) item) :
      Tidy k (.ofClass head items)
  /-- Text that is carried along in one line. -/
  | line {k : Nat} {text : String} (h : OnOneLine text) : Tidy k (.verbatim text)
  /-- Text that is read again where it is written. -/
  | verbatim {k : Nat} {text : String} (h : InPlace k (.verbatim text)) : Tidy k (.verbatim text)

/-! ## Comparing items -/

mutual
/-- Items can be compared. -/
def StubItem.decEq : (a b : StubItem) → Decidable (a = b)
  | .ofAttribute a, .ofAttribute b => decidable_of_iff (a = b) (by simp)
  | .ofFunction f, .ofFunction g => decidable_of_iff (f = g) (by simp)
  | .verbatim s, .verbatim t => decidable_of_iff (s = t) (by simp)
  | .ofClass head items, .ofClass head' items' =>
    have := StubItem.decEqAll items items'
    decidable_of_iff (head = head' ∧ items = items') (by simp)
  | .ofAttribute _, .ofFunction _ | .ofAttribute _, .verbatim _ | .ofAttribute _, .ofClass _ _
  | .ofFunction _, .ofAttribute _ | .ofFunction _, .verbatim _ | .ofFunction _, .ofClass _ _
  | .verbatim _, .ofAttribute _ | .verbatim _, .ofFunction _ | .verbatim _, .ofClass _ _
  | .ofClass _ _, .ofAttribute _ | .ofClass _ _, .ofFunction _ | .ofClass _ _, .verbatim _ => .isFalse (by simp)

/-- Lists of items can be compared. -/
def StubItem.decEqAll : (as bs : List StubItem) → Decidable (as = bs)
  | [], [] => .isTrue rfl
  | [], _ :: _ | _ :: _, [] => .isFalse (by simp)
  | a :: as, b :: bs =>
    have := StubItem.decEq a b
    have := StubItem.decEqAll as bs
    decidable_of_iff (a = b ∧ as = bs) (by simp)
end

instance : DecidableEq StubItem := StubItem.decEq

deriving instance DecidableEq for Stub

namespace Stub

instance instDecidableEqOk {α : Type} [DecidableEq α] (a : α) :
    (x : Except Problem α) → Decidable (x = .ok a)
  | .ok b => decidable_of_iff (b = a) (by simp)
  | .error _ => .isFalse fun h => by cases h

/-! ## Pieces -/

theorem attribute_wellFormed {target : Expr} {typed value : Option Expr} (h : KeptAssignment target typed value)
    (hname : target.isName = true) (hplain : target.text ∉ plainWords)
    (halone : target.text ∉ blockWords ++ clauseWords) :
    StubAttribute.WellFormed ⟨target.text, typed.map (·.text), value.map (·.text)⟩ where
  name := ⟨target, h.target, hname, rfl⟩
  alone := by
    rw [List.mem_append]
    exact fun hmem => hmem.elim halone hplain
  hint := by
    intro text htext
    obtain ⟨e, he, rfl⟩ := Option.map_eq_some_iff.1 htext
    exact ⟨e, h.typed e he, rfl⟩
  value := by
    intro text htext
    obtain ⟨e, he, rfl⟩ := Option.map_eq_some_iff.1 htext
    exact ⟨e, h.value e he, rfl⟩
  known := by simpa using h.known

theorem decorators_spelled {decorators : List Expr} (h : KeptDecorators decorators) :
    ∀ text ∈ decorators.map (·.text), Spells (EndsAt isStop) 0 (.inner .full) text := by
  intro text htext
  obtain ⟨d, hd, rfl⟩ := List.mem_map.1 htext
  exact ⟨d, h d hd, rfl⟩

theorem isSeparator_comma : IsSeparator ", " := ⟨[], [' '], by decide, isGap_nil 1, isGap_space 1, by simp⟩

/-- A separator without a comma behind its last line feed has a line feed behind its comma if it has one. -/
theorem isSeparator_of_between {text : String} {a b : List Char} (htext : text.toList = a ++ ',' :: b)
    (ha : IsGap 1 a) (hb : IsGap 1 b)
    (h : ∀ before inner, Text.cutLast '\n' text = some (before, inner) → ',' ∉ inner.toList) :
    IsSeparator text := by
  refine ⟨a, b, htext, ha, hb, fun hfeed => ?_⟩
  by_contra hnot
  obtain ⟨front, back, rfl⟩ := List.append_of_mem hfeed
  cases hcut : Text.cutLast '\n' text with
  | none => exact Text.cutLast_eq_none hcut (by simp [htext])
  | some cut =>
    obtain ⟨before, inner⟩ := cut
    obtain ⟨hsplit, hinner⟩ := Text.cutLast_eq_some hcut
    -- the last line feed stands before the comma, so the comma stands behind it
    have hcomma : ',' ∉ inner.toList := h before inner hcut
    rw [htext] at hsplit
    rcases List.append_eq_append_iff.1 hsplit with ⟨z, hz, hmore⟩ | ⟨z, hz, hmore⟩
    · cases z with
      | nil => simp at hmore
      | cons c z =>
        obtain ⟨-, hb⟩ := List.cons.inj hmore
        exact hnot (by simp [hb])
    · cases z with
      | nil => simp at hmore
      | cons c z =>
        obtain ⟨-, hinner'⟩ := List.cons.inj hmore
        exact hcomma (by simp [hinner'])

theorem function_wellFormed {head : FunctionHead} {decorators : List Expr} (hhead : head.Kept)
    (hdecorators : KeptDecorators decorators)
    (h : ∀ before inner, Text.cutLast '\n' (functionOf head decorators).separator = some (before, inner) →
      ',' ∉ inner.toList) : (functionOf head decorators).WellFormed where
  name := hhead.name
  decorators := decorators_spelled hdecorators
  params := by
    intro p hp
    obtain ⟨q, hq, rfl⟩ := List.mem_map.1 hp
    exact ⟨q, hhead.params q hq, rfl⟩
  returns := hhead.returns
  separator := by
    cases hbetween : head.between with
    | none => simpa [functionOf, hbetween] using isSeparator_comma
    | some text =>
      obtain ⟨a, b, htext, ha, hb⟩ := hhead.between text hbetween
      simp only [functionOf, hbetween, Option.getD_some] at h ⊢
      exact isSeparator_of_between htext ha hb h
  few := by
    intro hlength
    have hnone := hhead.few (by simpa [functionOf] using hlength)
    simp [functionOf, hnone]

theorem class_wellFormed {head : ClassHead} {decorators : List Expr} (hhead : head.Kept)
    (hdecorators : KeptDecorators decorators)
    (h : ∀ text ∈ (classOf head decorators).bases, text.toList.head? ≠ some '#') :
    (classOf head decorators).WellFormed where
  name := hhead.name
  decorators := decorators_spelled hdecorators
  bases := by
    intro text htext
    obtain ⟨a, ha, rfl⟩ := List.mem_map.1 htext
    have hkept := hhead.arguments a ha
    cases a with
    | base e => exact ⟨e, hkept, rfl⟩
    | comment text => exact absurd hkept (h _ htext)

/-! ## Text that is carried along -/

variable {α β : Type}

theorem exists_of_bind {x : Except Problem α} {f : α → Except Problem β} {b : β} (h : x >>= f = .ok b) :
    ∃ a, x = .ok a ∧ f a = .ok b := by
  cases x with
  | error problem => cases h
  | ok a => exact ⟨a, rfl, h⟩

theorem length_of_mapM {f : α → Except Problem β} {as : List α} {bs : List β}
    (h : as.mapM f = .ok bs) : bs.length = as.length := by
  induction as generalizing bs with
  | nil =>
    obtain rfl : [] = bs := Except.ok.inj h
    rfl
  | cons a as ih =>
    rw [List.mapM_cons] at h
    obtain ⟨b, -, h⟩ := exists_of_bind h
    obtain ⟨more, hmore, heq⟩ := exists_of_bind h
    obtain rfl := Except.ok.inj heq
    simp [ih hmore]

/-- A text in one line that is carried along is all there is to the statement. -/
theorem lines_of_dedented {place : Extent} {text : String} (h : dedented place = .ok text)
    (hline : '\n' ∉ text.toList) (hne : text ≠ "") : Text.lines place.text = [text] := by
  unfold dedented at h
  split at h
  · obtain rfl := Except.ok.inj h
    exact absurd rfl hne
  · next first rest hlines =>
    obtain ⟨cut, hrest, heq⟩ := exists_of_bind h
    have htext : Text.join "\n" (first :: cut) = text := Except.ok.inj heq
    cases cut with
    | cons second cut =>
      rw [Text.join_cons_cons] at htext
      exact absurd (by simp [← htext]) hline
    | nil =>
      have hlength := length_of_mapM hrest
      obtain rfl : rest = [] := List.length_eq_zero_iff.1 (by simpa using hlength.symm)
      rw [hlines, ← htext]
      simp [Text.join]

theorem carried_line {text : String} (hline : '\n' ∉ text.toList) (hne : text ≠ "") (column : Nat) :
    carried ⟨text, column⟩ = .ok [.verbatim text] := by
  simp only [carried, dedented, Text.lines_of_not_mem hline hne]
  simp [Text.join, bind, Except.bind, pure, Except.pure]

/-- A statement that makes a text is carried along. -/
theorem isCarried_of_verbatim {s : Stmt} {text : String} (h : itemsOf s = .ok [.verbatim text]) :
    isCarried s = true := by
  cases s with
  | expression place values =>
    by_cases hdots : values.head?.any (·.kind == .ellipsis) = true <;> simp_all [isCarried, itemsOf]
  | assignment place targets typed value =>
    rcases targets with _ | ⟨target, _ | ⟨second, more⟩⟩
    · rfl
    · by_cases hname : target.isName = true <;> simp_all [isCarried, itemsOf]
    · rfl
  | classDef head decorators body =>
    rw [itemsOf] at h
    obtain ⟨items, -, heq⟩ := exists_of_bind h
    cases heq
  | passes | function | header => simp [itemsOf] at h
  | _ => rfl

/-- A statement that is carried along is carried along wherever it stands. -/
theorem itemsOf_at {s : Stmt} (h : isCarried s = true) (place : Extent) :
    itemsOf (s.at place) = carried place := by
  cases s with
  | expression _ values => simp_all [isCarried, itemsOf, Stmt.at]
  | assignment _ targets typed value =>
    rcases targets with _ | ⟨target, _ | ⟨second, more⟩⟩ <;> simp_all [isCarried, itemsOf, Stmt.at]
  | passes | function | classDef | header => simp [isCarried] at h
  | _ => rw [Stmt.at, itemsOf]

theorem isImporting_at (s : Stmt) (place : Extent) : isImporting (s.at place) = isImporting s := by
  cases s <;> rfl

theorem dedented_of_verbatim {s : Stmt} {place : Extent} {text : String} (hplace : s.place? = some place)
    (h : itemsOf s = .ok [.verbatim text]) : dedented place = .ok text := by
  have hclass : ∀ head decorators body, s ≠ .classDef head decorators body := by
    rintro head decorators body rfl
    cases hplace
  rcases itemsOf_cases s hclass with ⟨hnot, -⟩ | ⟨-, place', hplace', hitems⟩
  · rw [isCarried_of_verbatim h] at hnot
    cases hnot
  · obtain rfl := Option.some.inj (hplace.symm.trans hplace')
    obtain ⟨found, hdedented, heq⟩ := exists_of_bind (hitems ▸ h)
    have hsame : [StubItem.verbatim found] = [.verbatim text] := Except.ok.inj heq
    simp_all

/-- A statement on a line of its own that makes the text of the line. -/
theorem inPlace_of_line {k : Nat} {s : Stmt} {text : String} (hone : OnOneLine text)
    (h : Stretch k (List.replicate k ' ' ++ (text.toList ++ ['\n'])) [s])
    (hmade : itemsOf s = .ok [.verbatim text]) (hcomment : s.isComment = true → text.toList.head? = some '#')
    (himport : k = 0 → isImporting s = false) : InPlace k (.verbatim text) := by
  have hne : text ≠ "" := fun hnil => by
    have := hone.written
    simp [hnil, Text.isAllBlank] at this
  have hlines : (unlines ((StubItem.verbatim text).lines (spaces k))).toList =
      List.replicate k ' ' ++ (text.toList ++ ['\n']) := by
    simp [StubItem.lines, Text.lines_of_not_mem hone.line hne, hone.written]
  refine ⟨[s], List.cons_ne_nil _ _, hlines ▸ h, ?_, ?_, ?_⟩
  · simp [itemsOfAll, hmade, bind, Except.bind, pure, Except.pure]
  · intro hc
    have := hcomment (by simpa using hc)
    simp [StubItem.isComment, this]
  · intro hk u hu
    obtain rfl := List.mem_singleton.1 hu
    exact himport hk

/-- A line feed behind the only line of a text does not change its first word. -/
theorem firstWord_of_lines {text line : String} (h : Text.lines text = [line]) :
    firstWord line.toList = firstWord text.toList := by
  have hstop : ∀ (cs : List Char) {c : Char} (more : List Char), Text.continuesName c = false →
      (cs ++ c :: more).takeWhile Text.continuesName = cs.takeWhile Text.continuesName := by
    intro cs c more hc
    induction cs with
    | nil => simp [hc]
    | cons d cs ih => simp only [List.cons_append, List.takeWhile_cons, ih]
  by_cases hfeed : '\n' ∈ text.toList
  · obtain ⟨piece, rest, hsplit, hpiece⟩ := List.eq_append_cons_of_mem hfeed
    rw [Text.lines, hsplit, Text.lineChars_append hpiece, List.map_cons] at h
    rw [← (List.cons.inj h).1, String.toList_ofList, hsplit, firstWord, firstWord, hstop _ _ (by decide)]
    rw [Text.dropReturn]
    split
    · next hlast =>
      obtain ⟨front, rfl⟩ := List.getLast?_eq_some_iff.1 hlast
      rw [List.dropLast_concat, hstop front [] (by decide)]
    · rfl
  · have hne : text ≠ "" := by
      rintro rfl
      cases h
    rw [Text.lines_of_not_mem hfeed hne] at h
    rw [(List.cons.inj h).1]

/-- **A text that is carried along in one line is read again where it is written.** -/
theorem verbatim_inPlace {k : Nat} {s : Stmt} {text : String} (hs : s.Kept)
    (h : itemsOf s = .ok [.verbatim text]) (hone : OnOneLine text) (himport : k = 0 → isImporting s = false) :
    InPlace k (.verbatim text) := by
  have hne : text ≠ "" := fun hnil => by
    have := hone.written
    simp [hnil, Text.isAllBlank] at this
  have hlines : ∀ {place}, s.place? = some place → Text.lines place.text = [text] := fun hplace =>
    lines_of_dedented (dedented_of_verbatim hplace h) hone.line hne
  have hcarried := isCarried_of_verbatim h
  cases hs with
  | @simple ts make column hscan hsimple =>
    have hplace := simpleStatement_place hsimple ⟨String.ofList (spanChars ts), column⟩
    have htext : String.ofList (spanChars ts) = text :=
      Text.eq_of_lines (hlines hplace) (by simpa using getLast?_spanChars_ne hscan hsimple)
    have hchars : spanChars ts = text.toList := by rw [← htext, String.toList_ofList]
    have hstretch := stretch_simpleStatement hscan hsimple (by rw [hchars]; exact hone.alone) k
    have hat := (isMade_of_simpleStatement hsimple).moved ⟨String.ofList (spanChars ts), column⟩ ⟨text, k⟩
    rw [hchars, String.ofList_toList, hat] at hstretch
    refine inPlace_of_line hone hstretch ?_ ?_ ?_
    · rw [itemsOf_at hcarried, carried_line hone.line hne]
    · intro hc
      rw [← hat, (isMade_of_simpleStatement hsimple).comment] at hc
      cases hc
    · intro hk
      rw [isImporting_at]
      exact himport hk
  | @comment cs column hcs =>
    have htext : String.ofList ('#' :: cs) = text := by
      refine Text.eq_of_lines (hlines rfl) ?_
      rw [String.toList_ofList]
      exact fun hlast => hcs (by simpa using List.mem_of_getLast? hlast)
    have hchars : '#' :: cs = text.toList := by rw [← htext, String.toList_ofList]
    have hstretch := stretch_commentChars hcs k
    rw [hchars, String.ofList_toList] at hstretch
    refine inPlace_of_line hone hstretch ?_ (fun _ => by rw [← hchars, List.head?_cons]) fun _ => rfl
    rw [itemsOf, carried_line hone.line hne]
  | @compound place parts hhead =>
    have hsame := firstWord_of_lines (hlines rfl)
    have hnil : place.text.toList ≠ [] := fun hnil => by
      have hnone := hlines rfl
      rw [Text.lines, hnil] at hnone
      cases hnone
    exact absurd (hsame ▸ hhead hnil) hone.alone
  | function | classDef => simp [isCarried] at hcarried

/-! ## Items -/

/-- The items of a statement that is no class. -/
theorem item_wellFormed {k : Nat} {s : Stmt} {items : List StubItem} {item : StubItem} (hs : s.Kept)
    (hclass : ∀ head decorators body, s ≠ .classDef head decorators body)
    (himport : k = 0 → isImporting s = false) (h : itemsOf s = .ok items) (hitem : item ∈ items)
    (htidy : item.Tidy k) : item.WellFormed k := by
  rcases itemsOf_cases s hclass with ⟨hcarried, -⟩ | ⟨-, place, -, hitems⟩
  · cases s with
    | assignment place targets typed value =>
      rcases targets with _ | ⟨target, _ | ⟨second, more⟩⟩
      · cases hcarried
      · have hname : target.isName = true := by simpa [isCarried] using hcarried
        rw [itemsOf, if_pos hname] at h
        obtain rfl := Except.ok.inj h
        obtain rfl := List.mem_singleton.1 hitem
        obtain ⟨hassigned, hplain⟩ := hs.assignment
        cases htidy with
        | ofAttribute halone => exact .ofAttribute (attribute_wellFormed hassigned hname (hplain hname) halone)
      · cases hcarried
    | function head decorators body =>
      obtain rfl := Except.ok.inj h
      obtain rfl := List.mem_singleton.1 hitem
      obtain ⟨hhead, hdecorators⟩ := hs.function_head
      cases htidy with
      | ofFunction hseparator => exact .ofFunction (function_wellFormed hhead hdecorators hseparator)
    | classDef head decorators body => exact absurd rfl (hclass head decorators body)
    | expression place values =>
      rw [itemsOf, if_pos (by simpa [isCarried] using hcarried)] at h
      obtain rfl := Except.ok.inj h
      cases hitem
    | passes | header =>
      obtain rfl := Except.ok.inj h
      cases hitem
    | _ => cases hcarried
  · obtain ⟨text, -, heq⟩ := exists_of_bind (hitems ▸ h)
    obtain rfl := Except.ok.inj heq
    obtain rfl := List.mem_singleton.1 hitem
    cases htidy with
    | line hone => exact .verbatim (verbatim_inPlace hs h hone himport)
    | verbatim hplace => exact .verbatim hplace

mutual
/-- The items of a statement are well formed when nothing of them is written elsewhere. -/
theorem itemsOf_wellFormed (s : Stmt) {k : Nat} {items : List StubItem} (hkept : ∀ u ∈ s.members, u.Kept)
    (himport : k = 0 → isImporting s = false) (h : itemsOf s = .ok items)
    (htidy : ∀ item ∈ items, item.Tidy k) :
    ∀ item ∈ items, item.WellFormed k := by
  cases s with
  | classDef head decorators body =>
    rw [Stmt.members] at hkept
    rw [itemsOf] at h
    obtain ⟨inner, hbody, heq⟩ := exists_of_bind h
    obtain rfl := Except.ok.inj heq
    intro item hitem
    obtain rfl := List.mem_singleton.1 hitem
    obtain ⟨hhead, hdecorators⟩ := (hkept _ List.mem_cons_self).class_head
    cases htidy _ List.mem_cons_self with
    | ofClass hbases hfirst hitems =>
      refine .ofClass (class_wellFormed hhead hdecorators hbases) hfirst ?_
      exact itemsOfAll_wellFormed body (fun u hu => hkept u (List.mem_cons_of_mem _ hu)) (by omega) hbody hitems
  | _ =>
    intro item hitem
    exact item_wellFormed (hkept _ (by simp [Stmt.members])) (by simp) himport h hitem (htidy item hitem)

theorem itemsOfAll_wellFormed (body : List Stmt) {k : Nat} {items : List StubItem} (hkept : KeptAll body)
    (himport : k = 0 → ∀ s ∈ body, isImporting s = false) (h : itemsOfAll body = .ok items)
    (htidy : ∀ item ∈ items, item.Tidy k) : ∀ item ∈ items, item.WellFormed k := by
  cases body with
  | nil =>
    obtain rfl := Except.ok.inj h
    simp
  | cons s body =>
    rw [itemsOfAll] at h
    obtain ⟨first, hfirst, h⟩ := exists_of_bind h
    obtain ⟨more, hmore, heq⟩ := exists_of_bind h
    obtain rfl := Except.ok.inj heq
    rw [KeptAll, membersOfAll] at hkept
    have hs := itemsOf_wellFormed s (fun u hu => hkept u (List.mem_append_left _ hu))
      (fun hk => himport hk s List.mem_cons_self) hfirst
      fun item hitem => htidy item (List.mem_append_left _ hitem)
    have hbody := itemsOfAll_wellFormed body (fun u hu => hkept u (List.mem_append_right _ hu))
      (fun hk u hu => himport hk u (List.mem_cons_of_mem _ hu)) hmore
      fun item hitem => htidy item (List.mem_append_right _ hitem)
    exact fun item hitem => (List.mem_append.1 hitem).elim (hs item) (hbody item)
end

/-! ## Stubs -/

/-- **A stub that was read is well formed** when its imports are made of words and nothing of its items is written
elsewhere than it was read. -/
theorem wellFormed_of_parse {text : String} {stub : Stub} (h : Stub.parse text = .ok stub)
    (himports : ∀ i ∈ stub.imports, i.isReadable = true) (hitems : ∀ item ∈ stub.items, item.Tidy 0) :
    stub.WellFormed := by
  refine ⟨himports, ?_⟩
  unfold Stub.parse at h
  split at h
  · cases h
  · next body hparse =>
    obtain ⟨items, hmade, heq⟩ := exists_of_bind h
    obtain rfl := Except.ok.inj heq
    refine itemsOfAll_wellFormed _ ?_ ?_ hmade hitems
    · exact fun s hs => kept_of_parse hparse s (membersOfAll_subset (List.filter_subset_self body) hs)
    · exact fun _ s hs => by simpa using (List.mem_filter.1 hs).2

/-- **A stub that was read and written is written the same when it is read and written again**, with the same items
and the same imports, when its imports are made of words and nothing of its items is written elsewhere than it was
read. -/
theorem render_again_of_parse {text : String} {stub : Stub} (h : Stub.parse text = .ok stub)
    (himports : ∀ i ∈ stub.imports, i.isReadable = true) (hitems : ∀ item ∈ stub.items, item.Tidy 0) :
    ∃ again, Stub.parse stub.render = .ok again ∧ again.render = stub.render ∧ again.items = stub.items ∧
      ∀ i, i ∈ again.imports ↔ i ∈ stub.imports :=
  (wellFormed_of_parse h himports hitems).render_again

/-- The text of a stub that is not written as stubs are. -/
def loose : String := "import b, a\nclass A( B ) :\n  x : int=1 # c\n  def f(self,  y = 2 ): pass\n  del x\n"

/-- The class of the stub. -/
def looseClass : StubItem :=
  .ofClass ⟨"A", [], ["B"]⟩
    [.ofAttribute ⟨"x", some "int", some "1"⟩, .verbatim "# c",
      .ofFunction ⟨"f", [], false,
        [⟨"self", .positional, "self"⟩, ⟨"y", .positional, "y = 2"⟩], ",  ", none⟩,
      .verbatim "del x"]

theorem looseClass_tidy : looseClass.Tidy 0 := by
  refine .ofClass (by decide) (by decide) ?_
  simp only [List.forall_mem_cons, List.not_mem_nil, false_implies, implies_true, and_true]
  have hcut : Text.cutLast '\n' ",  " = none := by decide
  refine ⟨.ofAttribute (by decide), .line ⟨by decide, by decide, by decide⟩, .ofFunction ?_,
    .line ⟨by decide, by decide, by decide⟩⟩
  intro before inner h
  rw [hcut] at h
  cases h

/-- The stub is read from its text, and what is written of it is read and written again. -/
theorem render_again_of_parse_loose :
    ∃ again, Stub.parse (Stub.render ⟨[.module "b" none, .module "a" none], [looseClass]⟩) = .ok again ∧
      again.render = Stub.render ⟨[.module "b" none, .module "a" none], [looseClass]⟩ := by
  have hparse : Stub.parse loose = .ok ⟨[.module "b" none, .module "a" none], [looseClass]⟩ := by decide +kernel
  obtain ⟨again, hread, hrender, -⟩ := render_again_of_parse hparse (by decide) (by simpa using looseClass_tidy)
  exact ⟨again, hread, hrender⟩

/-- A class with a comment among its bases. -/
def commented : Stub := ⟨[], [.ofClass ⟨"A", [], ["B", "# c", "C"]⟩ []]⟩

/-- A comment among the bases of a class is written in one line with them, and this is refused. -/
theorem commented_base_refused : ¬ ∀ text stub, Stub.parse text = .ok stub →
    ∃ again, Stub.parse stub.render = .ok again ∧ again.render = stub.render := by
  intro hall
  have hparse : Stub.parse "class A(B, # c\n C): ...\n" = .ok commented := by decide +kernel
  have hrefused : Stub.parse commented.render = .error .malformed := by decide +kernel
  obtain ⟨again, hread, -⟩ := hall _ _ hparse
  rw [hrefused] at hread
  cases hread

end Stub

end TypedStubs
