import TypedStubs.Proofs.Syntax.Extent
import TypedStubs.Proofs.Text.Lines
import TypedStubs.Stub.Reader

/-! # Where the indentation of a line is cut

What is carried along of a stub is written again without the indentation that it stood in.  This is counted in
bytes, so a line whose blanks take more than one byte each may be cut inside one of them
(`cutIndent_eq_error_iff`).  Then the whole text cannot be read, and there is no other reason why a well-formed
text cannot (`parse_returns_iff`).  A text whose indentation takes one byte for each blank is never cut so.
-/
namespace TypedStubs.Stub

open Syntax (Extent Stmt membersOfAll)

/-! ### Lines -/

/-- How many bytes the blanks take that a line starts with. -/
def indentBytes (cs : List Char) : Nat := (String.ofList (cs.takeWhile Text.isBlank)).utf8ByteSize

theorem utf8ByteSize_cons (c : Char) (cs : List Char) :
    (String.ofList (c :: cs)).utf8ByteSize = c.utf8Size + (String.ofList cs).utf8ByteSize := by
  have hcons : String.ofList (c :: cs) = String.singleton c ++ String.ofList cs := by
    rw [← String.toList_inj]
    simp
  rw [hcons, String.utf8ByteSize_append, String.utf8ByteSize_singleton]

theorem indentBytes_cons_of_blank {c : Char} (hc : Text.isBlank c = true) (cs : List Char) :
    indentBytes (c :: cs) = c.utf8Size + indentBytes cs := by
  rw [indentBytes, List.takeWhile_cons, if_pos hc, utf8ByteSize_cons, indentBytes]

theorem indentBytes_cons_of_not_blank {c : Char} (hc : Text.isBlank c = false) (cs : List Char) :
    indentBytes (c :: cs) = 0 := by
  simp [indentBytes, hc]

/-- Where a line is cut: behind its blanks, or behind the first `width` bytes of them. -/
def cutPlace (width : Nat) (cs : List Char) : String.Pos.Raw := ⟨min (indentBytes cs) width⟩

theorem isValid_cons {c : Char} {cs : List Char} {n : Nat} :
    (⟨n⟩ : String.Pos.Raw).IsValid (String.ofList (c :: cs)) ↔
      n = 0 ∨ c.utf8Size ≤ n ∧ (⟨n - c.utf8Size⟩ : String.Pos.Raw).IsValid (String.ofList cs) := by
  simp only [String.Pos.Raw.isValid_ofList]
  constructor
  · rintro ⟨_ | i, hi⟩
    · exact .inl (by simpa using hi)
    · rw [List.take_succ_cons, utf8ByteSize_cons] at hi
      exact .inr ⟨by omega, i, by omega⟩
  · rintro (rfl | ⟨hle, i, hi⟩)
    · exact ⟨0, by simp⟩
    · refine ⟨i + 1, ?_⟩
      rw [List.take_succ_cons, utf8ByteSize_cons]
      omega

/-- A line is cut unless the place falls inside one of its characters. -/
theorem cutIndent_eq_error_iff {width : Nat} {cs : List Char} {problem : Problem} :
    cutIndent width cs = .error problem ↔
      problem = .splitBlank ∧ ¬ (cutPlace width cs).IsValid (String.ofList cs) := by
  fun_induction cutIndent width cs with
  | case1 width =>
    simp [cutPlace, indentBytes]
  -- nothing is left to take off, and every text has a place at its start
  | case2 width c cs hstop =>
    have hplace : cutPlace width (c :: cs) = ⟨0⟩ := by
      rcases Bool.or_eq_true_iff.1 hstop with hzero | hblank
      · simp [cutPlace, of_decide_eq_true hzero]
      · simp [cutPlace, indentBytes_cons_of_not_blank (by simpa using hblank)]
    rw [hplace]
    simp
  | case3 width c cs hgo hfits ih =>
    have hblank : Text.isBlank c = true := by simp_all
    have hpos := c.utf8Size_pos
    have hplace : cutPlace width (c :: cs) =
        ⟨c.utf8Size + (cutPlace (width - c.utf8Size) cs).byteIdx⟩ := by
      simp only [cutPlace, indentBytes_cons_of_blank hblank]
      congr 1
      omega
    rw [ih, hplace, isValid_cons, Nat.add_sub_cancel_left]
    simp [Nat.ne_of_gt hpos]
  -- fewer bytes are left to take off than the blank has
  | case4 width c cs hgo hfits =>
    have hblank : Text.isBlank c = true := by simp_all
    have hwidth : width ≠ 0 := by simp_all
    have hplace : cutPlace width (c :: cs) = ⟨width⟩ := by
      simp only [cutPlace, indentBytes_cons_of_blank hblank]
      congr 1
      omega
    rw [hplace, isValid_cons]
    simp [hwidth, hfits, eq_comm]

/-! ### Results that can only be stopped by a split blank -/

instance instDecidableEqError {α : Type} (problem : Problem) :
    (x : Except Problem α) → Decidable (x = .error problem)
  | .ok _ => .isFalse fun h => by cases h
  | .error e => decidable_of_iff (e = problem) (by simp)

/-- The only problem there can be is a split blank, and there is one exactly if `p` holds. -/
def StopsIff {α : Type} (x : Except Problem α) (p : Prop) : Prop :=
  ∀ problem, x = .error problem ↔ problem = .splitBlank ∧ p

namespace StopsIff

variable {α β : Type} {x : Except Problem α} {p q : Prop}

theorem ok (a : α) (h : ¬ p) : StopsIff (.ok a) p := fun problem => by simp [h]

theorem congr (h : StopsIff x p) (hiff : p ↔ q) : StopsIff x q := fun problem => by rw [h problem, hiff]

theorem bind {f : α → Except Problem β} (hx : StopsIff x p) (hf : ∀ a, StopsIff (f a) q) :
    StopsIff (x >>= f) (p ∨ q) := by
  intro problem
  cases x with
  | error e =>
    obtain ⟨rfl, hp⟩ := (hx e).1 rfl
    simp [bind, Except.bind, hp, eq_comm]
  | ok a =>
    have hp : ¬ p := fun hp => by simpa using (hx .splitBlank).2 ⟨rfl, hp⟩
    have hrun : (Except.ok a >>= f) = f a := rfl
    rw [hrun, hf a problem]
    simp [hp]

/-- Whatever is made of the result, the same stops it. -/
theorem bind_pure (f : α → β) (hx : StopsIff x p) : StopsIff (x >>= fun a => pure (f a)) p :=
  (hx.bind fun a => .ok (p := False) (f a) id).congr (by rw [or_false])

theorem map (f : α → β) (hx : StopsIff x p) : StopsIff (f <$> x) p := by
  intro problem
  rw [← hx problem]
  cases x <;> simp

theorem mapM {f : α → Except Problem β} {p : α → Prop} (hf : ∀ a, StopsIff (f a) (p a)) (as : List α) :
    StopsIff (as.mapM f) (∃ a ∈ as, p a) := by
  induction as with
  | nil => exact .ok [] (by simp)
  | cons a as ih =>
    rw [List.mapM_cons]
    exact ((hf a).bind fun b => ih.bind_pure fun bs => b :: bs).congr (by simp)

end StopsIff

/-! ### Statements -/

/-- One of the lines below the first one of a stretch is cut inside a blank. -/
def SplitsBlank (place : Extent) : Prop :=
  ∃ line ∈ (Text.lines place.text).tail, ¬ (cutPlace place.column line.toList).IsValid line

theorem dedented_stopsIff (place : Extent) : StopsIff (dedented place) (SplitsBlank place) := by
  unfold dedented SplitsBlank
  cases Text.lines place.text with
  | nil => exact .ok "" (by simp)
  | cons first rest =>
    have hline (line : String) : StopsIff (cutIndent place.column line.toList)
        (¬ (cutPlace place.column line.toList).IsValid line) := fun problem => by
      rw [cutIndent_eq_error_iff, String.ofList_toList]
    exact (StopsIff.mapM (fun line => (hline line).map String.ofList) rest).bind_pure
      fun cut => Text.join "\n" (first :: cut)

theorem carried_stopsIff (place : Extent) : StopsIff (carried place) (SplitsBlank place) :=
  (dedented_stopsIff place).bind_pure fun text => [StubItem.verbatim text]

/-- Whether a statement is carried along.  The others make items of their own, or none. -/
def isCarried : Stmt → Bool
  | .expression _ values => !values.head?.any (·.kind == .ellipsis)
  | .assignment _ [target] _ _ => !target.isName
  | .assignment _ _ _ _ | .returns _ _ | .raises _ _ | .importing _ _ | .plain _ _ | .compound _ _
  | .comment _ => true
  | .passes _ | .function _ _ _ | .classDef _ _ _ | .header _ => false

/-- A statement is carried along with a line that is cut inside a blank. -/
def Splits (s : Stmt) : Prop := isCarried s = true ∧ ∃ place, s.place? = some place ∧ SplitsBlank place

/-- A statement that is no class makes its items, or is carried along. -/
theorem itemsOf_cases (s : Stmt) (hclass : ∀ head decorators body, s ≠ .classDef head decorators body) :
    (isCarried s = false ∧ ∃ items, itemsOf s = .ok items) ∨
      isCarried s = true ∧ ∃ place, s.place? = some place ∧ itemsOf s = carried place := by
  cases s with
  | expression place values =>
    by_cases h : values.head?.any (·.kind == .ellipsis) = true <;> simp [isCarried, itemsOf, Stmt.place?, h]
  | assignment place targets typed value =>
    rcases targets with _ | ⟨target, _ | ⟨second, more⟩⟩
    · simp [isCarried, itemsOf, Stmt.place?]
    · by_cases h : target.isName = true <;> simp [isCarried, itemsOf, Stmt.place?, h]
    · simp [isCarried, itemsOf, Stmt.place?]
  | classDef head decorators body => exact absurd rfl (hclass head decorators body)
  | _ => simp [isCarried, itemsOf, Stmt.place?]

theorem itemsOf_stopsIff_of_not_class {s : Stmt}
    (hclass : ∀ head decorators body, s ≠ .classDef head decorators body) :
    StopsIff (itemsOf s) (∃ u ∈ s.members, Splits u) := by
  rw [Stmt.members_of_not_class hclass]
  rcases itemsOf_cases s hclass with ⟨hnot, items, hitems⟩ | ⟨hcarried, place, hplace, hitems⟩
  · rw [hitems]
    exact .ok items (by simp [Splits, hnot])
  · rw [hitems]
    exact (carried_stopsIff place).congr (by simp [Splits, hcarried, hplace])

mutual
theorem itemsOf_stopsIff (s : Stmt) : StopsIff (itemsOf s) (∃ u ∈ s.members, Splits u) := by
  cases s with
  | classDef head decorators body =>
    rw [itemsOf, Stmt.members]
    refine ((itemsOfAll_stopsIff body).bind_pure fun items =>
      [StubItem.ofClass (classOf head decorators) items]).congr ?_
    simp [Splits, isCarried]
  | _ => exact itemsOf_stopsIff_of_not_class (by simp)

theorem itemsOfAll_stopsIff (body : List Stmt) :
    StopsIff (itemsOfAll body) (∃ u ∈ membersOfAll body, Splits u) := by
  cases body with
  | nil => exact .ok [] (by simp [membersOfAll])
  | cons s body =>
    rw [itemsOfAll, membersOfAll]
    refine ((itemsOf_stopsIff s).bind fun items =>
      (itemsOfAll_stopsIff body).bind_pure fun more => items ++ more).congr ?_
    simp only [List.mem_append, or_and_right, exists_or]
end

/-! ### Texts -/

/-- A text is not read if it is malformed, or if a statement is carried along with a split blank. -/
theorem parse_eq_error_iff {text : String} {problem : Problem} :
    Stub.parse text = .error problem ↔
      (problem = .malformed ∧ Syntax.parse? text = none) ∨
      problem = .splitBlank ∧ ∃ body, Syntax.parse? text = some body ∧
        ∃ s ∈ membersOfAll (body.filter (!isImporting ·)), Splits s := by
  unfold Stub.parse
  cases Syntax.parse? text with
  | none => simp [eq_comm]
  | some body =>
    have hitems := (itemsOfAll_stopsIff (body.filter (!isImporting ·))).bind_pure
      (fun items => (⟨body.flatMap importsOf, items⟩ : Stub)) problem
    rw [hitems]
    simp

/-- The blanks that indent the lines below the first one. -/
def indenting : List Char → List Char
  | [] => []
  | c :: cs => (if c = '\n' then cs.takeWhile Text.isBlank else []) ++ indenting cs

theorem takeWhile_prefix_append (p : Char → Bool) (cs back : List Char) :
    cs.takeWhile p <+: (cs ++ back).takeWhile p := by
  induction cs with
  | nil => exact List.nil_prefix
  | cons c cs ih =>
    rw [List.cons_append, List.takeWhile_cons, List.takeWhile_cons]
    split
    · exact List.prefix_cons_inj c |>.2 ih
    · exact List.nil_prefix

theorem indenting_subset {cs ds : List Char} (h : cs <:+: ds) : indenting cs ⊆ indenting ds := by
  obtain ⟨front, back, rfl⟩ := h
  have hback : indenting cs ⊆ indenting (cs ++ back) := by
    induction cs with
    | nil => exact List.nil_subset _
    | cons c cs ih =>
      rw [List.cons_append, indenting, indenting]
      refine List.append_subset.2
        ⟨List.subset_append_of_subset_left _ ?_, List.subset_append_of_subset_right _ ih⟩
      split
      · exact (takeWhile_prefix_append _ cs back).subset
      · exact List.nil_subset _
  rw [List.append_assoc]
  induction front with
  | nil => exact hback
  | cons c front ih => exact List.subset_append_of_subset_right _ ih

/-- What blanks of one byte each indent is cut between characters. -/
theorem exists_cutIndent (width : Nat) {cs : List Char}
    (h : ∀ c ∈ cs.takeWhile Text.isBlank, c.utf8Size = 1) : ∃ rest, cutIndent width cs = .ok rest := by
  fun_induction cutIndent width cs with
  | case1 => exact ⟨[], rfl⟩
  | case2 width c cs hstop => exact ⟨c :: cs, rfl⟩
  | case3 width c cs hgo hfits ih =>
    have hblank : Text.isBlank c = true := by simp_all
    rw [List.takeWhile_cons, if_pos hblank] at h
    exact ih fun d hd => h d (List.mem_cons_of_mem _ hd)
  | case4 width c cs hgo hfits =>
    have hblank : Text.isBlank c = true := by simp_all
    have hwidth : width ≠ 0 := by simp_all
    rw [List.takeWhile_cons, if_pos hblank] at h
    have hone := h c List.mem_cons_self
    omega

theorem not_splitsBlank {place : Extent} (h : ∀ c ∈ indenting place.text.toList, c.utf8Size = 1) :
    ¬ SplitsBlank place := by
  rintro ⟨line, hline, hnot⟩
  rw [Text.lines, ← List.map_tail] at hline
  obtain ⟨cs, hcs, rfl⟩ := List.mem_map.1 hline
  rw [String.toList_ofList] at hnot
  have hblanks : cs.takeWhile Text.isBlank ⊆ indenting place.text.toList := by
    refine List.Subset.trans ?_ (indenting_subset (Text.isInfix_feed_cons _ cs hcs))
    rw [indenting, if_pos rfl]
    exact List.subset_append_left _ _
  obtain ⟨rest, hrest⟩ := exists_cutIndent place.column fun c hc => h c (hblanks hc)
  rw [cutIndent_eq_error_iff.2 ⟨rfl, hnot⟩] at hrest
  cases hrest

/-- A text that is read or is malformed is one that no split blank stops. -/
theorem returns_iff {text : String} :
    ((∃ stub, Stub.parse text = .ok stub) ∨ Stub.parse text = .error .malformed) ↔
      Stub.parse text ≠ .error .splitBlank := by
  cases Stub.parse text with
  | ok stub => simp
  | error problem => cases problem <;> simp

/-- **A text is read or found to be malformed exactly if no blank would have to be split**: every line
of a statement that is carried along is cut between two of its characters.  So it is whenever the blanks that
indent lines take one byte each. -/
theorem reading_stops_only_at_split_blanks (text : String) :
    (((∃ stub, Stub.parse text = .ok stub) ∨ Stub.parse text = .error .malformed) ↔
      ∀ body, Syntax.parse? text = some body →
        ∀ s ∈ membersOfAll (body.filter (!isImporting ·)), isCarried s = true →
          ∀ place, s.place? = some place → ∀ line ∈ (Text.lines place.text).tail,
            (cutPlace place.column line.toList).IsValid line) ∧
    ((∀ c ∈ indenting text.toList, c.utf8Size = 1) →
      (∃ stub, Stub.parse text = .ok stub) ∨ Stub.parse text = .error .malformed) := by
  constructor
  · rw [returns_iff, Ne, parse_eq_error_iff]
    constructor
    · intro hnone body hbody s hs hcarried place hplace line hline
      by_contra hnot
      exact hnone (.inr ⟨rfl, body, hbody, s, hs, hcarried, place, hplace, line, hline, hnot⟩)
    · rintro hall (⟨hproblem, -⟩ | ⟨-, body, hbody, s, hs, hcarried, place, hplace, line, hline, hnot⟩)
      · cases hproblem
      · exact hnot (hall body hbody s hs hcarried place hplace line hline)
  · intro hnarrow
    rw [returns_iff, Ne, parse_eq_error_iff]
    rintro (⟨hproblem, -⟩ | ⟨-, body, hbody, s, hs, -, place, hplace, hsplits⟩)
    · cases hproblem
    · have hmem : s ∈ membersOfAll body := Syntax.membersOfAll_subset (List.filter_subset_self body) hs
      have hstands := Syntax.standIn_of_parse hbody s hmem place hplace
      exact not_splitsBlank (fun c hc => hnarrow c (indenting_subset hstands hc)) hsplits

/-- The text of a class with a string that goes on in lines indented by a tab and by spaces. -/
def tabbed : String := "class A:\n\t'''a\n\t  b\n  '''\n"

theorem reading_stops_only_at_split_blanks_tabbed :
    (∀ c ∈ indenting tabbed.toList, c.utf8Size = 1) ∧ ∃ stub, Stub.parse tabbed = .ok stub := by
  have hnarrow : ∀ c ∈ indenting tabbed.toList, c.utf8Size = 1 := forall_mem_of_all (by decide +kernel)
  have hformed : Stub.parse tabbed ≠ .error .malformed := by decide +kernel
  exact ⟨hnarrow, ((reading_stops_only_at_split_blanks tabbed).2 hnarrow).resolve_right hformed⟩

/-- Two blanks of three bytes each, in a string that stands four bytes deep. -/
theorem split_em_space :
    ¬ ∀ text, (∃ stub, Stub.parse text = .ok stub) ∨ Stub.parse text = .error .malformed := by
  intro hall
  have hsplit : Stub.parse "class A:\n    '''a\n\u2003\u2003b\n    '''\n" = .error .splitBlank := by
    decide +kernel
  exact returns_iff.1 (hall _) hsplit

end TypedStubs.Stub
