import Mathlib.Data.Option.Basic
import TypedStubs.Proofs.Source.Kept
import TypedStubs.Proofs.Stub.Again
import TypedStubs.Proofs.Stub.Emitted
import TypedStubs.Proofs.Stub.Insertion
import TypedStubs.Proofs.Syntax.Trimmed

/-! # What is generated of writable pieces is read again

A parameter of a signature is writable if its hint and its default are written as expressions and its name is a word
(`StubParameter.Writable`); it is read again as the parameter that it was written as (`StubParameter.Writable.reads`).
Dots as its default do no harm (`ParamText.Generated.withDots`), so what merging puts into a signature is of the same
make.  Items of such parts stay so when they are merged (`StubItem.Generated.mergeInto`), and they are well formed
(`StubItem.Generated.wellFormed`).
-/
namespace TypedStubs

open Syntax Rule

/-! ## Parameters -/

/-- A parameter of a signature that can be written. -/
inductive StubParameter.Writable : StubParameter → Prop where
  /-- A marker. -/
  | ofMarker {kind : ParamKind} (hkind : kind = .positionalOnlyMarker ∨ kind = .keywordOnlyMarker) :
      Writable (.marker kind)
  /-- One with a word for its name. -/
  | positional {p : StubParameter} (hkind : p.kind = .positional) (hname : IsLexeme .word p.name.toList)
      (hhint : ∀ h ∈ p.hint, h.isWritable = true)
      (hdefault : ∀ text ∈ p.default, Spells (EndsAt isStop) 1 (.inner .full) text) : Writable p
  /-- One that takes any number of arguments, without a default. -/
  | variadic {p : StubParameter} {gap : List Char} {w : String}
      (hkind : p.kind = .varPositional ∨ p.kind = .varKeyword) (hname : p.name = String.ofList (gap ++ w.toList))
      (hgap : IsGap 1 gap) (hword : IsLexeme .word w.toList) (hhint : ∀ h ∈ p.hint, h.isWritable = true)
      (hdefault : p.default = none) : Writable p

/-- A parameter as it is written. -/
def StubParameter.text (p : StubParameter) : ParamText := p.textWith p.hint

theorem toList_annotated (name : String) (hint : Option Hint) (default : Option String) :
    (StubParameter.annotated name hint default).toList =
      plainChars name.toList (hint.map (·.render.toList)) (default.map String.toList) := by
  cases hint <;> cases default <;>
    simp [StubParameter.annotated, plainChars, hintChars, defaultChars, aroundEquals]

/-- The text of a hint that can be written is read as one. -/
theorem spells_hint {hint : Hint} (h : hint.isWritable = true) (depth : Nat) :
    ∀ text ∈ some hint.render, Spells (EndsAt isStop) depth hintExpr text := by
  rintro _ ⟨⟩
  exact (Hint.isBarred_render h).spells_hint depth

theorem spells_hints {hint : Option Hint} (h : ∀ k ∈ hint, k.isWritable = true) (depth : Nat) :
    ∀ text ∈ hint.map (·.render), Spells (EndsAt isStop) depth hintExpr text := by
  intro text htext
  obtain ⟨k, hk, rfl⟩ := Option.map_eq_some_iff.1 htext
  exact spells_hint (h k hk) depth _ rfl

/-- Texts that some pieces spell are the texts of their expressions. -/
theorem map_toList_of_map_text {pieces : Option (List Token × Expr)} {texts : Option String}
    (h : pieces.map (·.2.text) = texts) : pieces.map (·.2.text.toList) = texts.map String.toList := by
  rw [← h, Option.map_map]
  rfl

/-- **A writable parameter is read again as it was written.** -/
theorem StubParameter.Writable.reads {p : StubParameter} (h : p.Writable) :
    ∃ q, Reads EndsArgument 1 param q.text.toList q ∧ Stub.paramOf q = p.text := by
  cases h with
  | @ofMarker kind hkind =>
    rcases hkind with rfl | rfl
    · exact ⟨⟨"/", _, "/", none, none⟩, reads_marker (.inl ⟨rfl, rfl⟩), rfl⟩
    · exact ⟨⟨"*", _, "*", none, none⟩, reads_marker (.inr ⟨rfl, rfl⟩), rfl⟩
  | positional hkind hname hhint hdefault =>
    obtain ⟨hint, hhintPiece, hhintRead, hhintText⟩ := exists_pieces (spells_hints hhint 1)
    obtain ⟨default, hdefaultPiece, hdefaultRead, hdefaultText⟩ := exists_pieces hdefault
    have hread := reads_plainParam hname hhintPiece hhintRead hdefaultPiece hdefaultRead
    have htext := toList_annotated p.name p.hint p.default
    have hmap : p.hint.map (·.render.toList) = (p.hint.map (·.render)).map String.toList := by simp [Function.comp_def]
    rw [hmap, ← map_toList_of_map_text hhintText, ← map_toList_of_map_text hdefaultText] at htext
    have hrender : p.renderWith p.hint = annotated p.name p.hint p.default := by simp [renderWith, hkind]
    dsimp only at hread
    rw [← htext, ← hrender, String.ofList_toList] at hread
    refine ⟨⟨p.renderWith p.hint, .positional, p.name, _, _⟩, hread, ?_⟩
    rw [text, textWith, hkind]
    rfl
  | @variadic _ gap w hkind hname hgap hword hhint hdefault =>
    obtain ⟨hint, hhintPiece, hhintRead, hhintText⟩ := exists_pieces (spells_hints hhint 1)
    have hmap : p.hint.map (·.render.toList) = (p.hint.map (·.render)).map String.toList := by simp [Function.comp_def]
    -- one reading for either number of stars
    have starred {stars : String}
        (hstars : stars = "*" ∧ p.kind = .varPositional ∨ stars = "**" ∧ p.kind = .varKeyword)
        (hrender : p.renderWith p.hint = annotated (stars ++ p.name) p.hint p.default) :
        ∃ q, Reads EndsArgument 1 param q.text.toList q ∧ Stub.paramOf q = p.text := by
      have hread := reads_starParam hstars hgap hword hhintPiece hhintRead
      have htext := toList_annotated (stars ++ p.name) p.hint p.default
      rw [hmap, ← map_toList_of_map_text hhintText, hdefault] at htext
      have hchars : (p.renderWith p.hint).toList =
          stars.toList ++ (gap ++ w.toList) ++ hintChars (hint.map (·.2.text.toList)) := by
        rw [hrender, hdefault, htext]
        simp [plainChars, defaultChars, hname]
      dsimp only at hread
      rw [← hchars, String.ofList_toList, ← hname] at hread
      refine ⟨⟨p.renderWith p.hint, p.kind, p.name, _, none⟩, hread, ?_⟩
      rw [text, textWith]
      rcases hstars with ⟨-, hkind⟩ | ⟨-, hkind⟩ <;> rw [hkind] <;> rfl
    rcases hkind with hkind | hkind
    · exact starred (.inl ⟨rfl, hkind⟩) (by simp [renderWith, hkind])
    · exact starred (.inr ⟨rfl, hkind⟩) (by simp [renderWith, hkind])

namespace StubParameter.Writable

variable {p : StubParameter}

theorem hint (h : p.Writable) {k : Hint} (hk : p.hint = some k) : k.isWritable = true := by
  cases h with
  | ofMarker => cases hk
  | positional _ _ hhint | variadic _ _ _ _ hhint => exact hhint k hk

/-- Another hint does no harm. -/
theorem withHint (h : p.Writable) {k k' : Hint} (hk : p.hint = some k) (hwritable : k'.isWritable = true) :
    StubParameter.Writable { p with hint := some k' } := by
  have hnew : ∀ h ∈ some k', h.isWritable = true := by
    rintro _ ⟨⟩
    exact hwritable
  cases h with
  | ofMarker => cases hk
  | positional hkind hname _ hdefault => exact .positional hkind hname hnew hdefault
  | variadic hkind hname hgap hword _ hdefault => exact .variadic hkind hname hgap hword hnew hdefault

end StubParameter.Writable

/-! ### Dots as a default -/

theorem spells_dots (depth : Nat) : Spells (EndsAt isStop) depth (.inner .full) "..." := by
  have hdots : Hint.isValue "..." = true := by decide
  exact (Hint.isBarred_value hdots).spells_expression depth

/-- What stands for a default is an expression if the default is one. -/
theorem spells_stubDefault {text : String} {depth : Nat} (h : Spells (EndsAt isStop) depth (.inner .full) text) :
    Spells (EndsAt isStop) depth (.inner .full) (Signature.stubDefault text) := by
  unfold Signature.stubDefault
  split
  · obtain ⟨e, ⟨us, hpiece, hread⟩, rfl⟩ := h
    rw [hpiece.isTrimmed.trim]
    exact ⟨e, ⟨us, hpiece, hread⟩, rfl⟩
  · exact spells_dots depth

namespace StubParameter

variable {p : StubParameter}

/-- Whether a parameter has a default can be told by how it is written. -/
theorem hasDefault_text (hkind : p.kind = .positional) (hname : IsLexeme .word p.name.toList)
    (hhint : ∀ h ∈ p.hint, h.isWritable = true) : p.text.hasDefault = p.default.isSome := by
  have hfront : ParamText.Balanced p.name.toList := ParamText.balanced_of_plain fun c hc =>
    Hint.not_mem_signs (p := Text.continuesName) (by decide +kernel) (hname.continuesName c hc)
  have hrender : p.text.text = annotated p.name p.hint p.default := by simp [text, textWith, renderWith, hkind]
  rw [ParamText.hasDefault, hrender]
  exact equalsOutside_annotated hfront (fun h hh => Hint.balanced_of_isWritable (hhint h hh) 0) p.default

/-- Dots are the default that a parameter is written with. -/
theorem withDots_text (hkind : p.kind = .positional) (hname : IsLexeme .word p.name.toList)
    (hdefault : p.default = none) : p.text.withDots = { p with default := some "..." }.text := by
  have hcolon : ':' ∉ p.name.toList := fun hc => by
    have hcontinues := hname.continuesName ':' hc
    have hnot : Text.continuesName ':' = false := by decide +kernel
    rw [hnot] at hcontinues
    cases hcontinues
  cases hhint : p.hint <;>
    simp [ParamText.withDots, text, textWith, renderWith, annotated, hkind, hdefault, hhint, hcolon,
      ← String.toList_inj]

end StubParameter

/-- A parameter that is written for a writable one. -/
def ParamText.Generated (q : ParamText) : Prop := ∃ p : StubParameter, p.Writable ∧ q = p.text

namespace ParamText.Generated

variable {p : ParamText}

theorem star : ParamText.star.Generated := ⟨.marker .keywordOnlyMarker, .ofMarker (.inr rfl), rfl⟩

theorem withDots (h : p.Generated) (hname : p.name ≠ "") (hkind : isCatchAll p.kind = false)
    (hdefault : p.hasDefault = false) : p.withDots.Generated := by
  obtain ⟨q, hq, rfl⟩ := h
  cases hq with
  | ofMarker => exact absurd rfl hname
  | variadic hvariadic =>
    rcases hvariadic with h | h <;> simp [isCatchAll, StubParameter.text, StubParameter.textWith, h] at hkind
  | positional hpositional hword hhint hgiven =>
    rw [StubParameter.hasDefault_text hpositional hword hhint, Option.isSome_eq_false_iff, Option.isNone_iff_eq_none]
      at hdefault
    rw [StubParameter.withDots_text hpositional hword hdefault]
    refine ⟨{ q with default := some "..." }, .positional hpositional hword hhint ?_, rfl⟩
    rintro text ⟨⟩
    exact spells_dots 1

end ParamText.Generated

/-- Merging puts nothing else into a signature. -/
theorem generated_mergeParam {params : List ParamText} {p : ParamText} (namedOnly : Bool)
    (hparams : ∀ q ∈ params, q.Generated) (hp : p.Generated) :
    ∀ q ∈ mergeParam params namedOnly p, q.Generated := by
  intro q hq
  rcases (mergesTo_mergeParam params namedOnly p).mem hq with hq | rfl | ⟨hnew, rfl | ⟨hkind, hdefault, rfl⟩⟩
  · exact hparams q hq
  · exact .star
  · exact hp
  · exact hp.withDots (name_ne_empty_of_not_covers hnew) hkind hdefault

theorem generated_mergeParams {params generated : List ParamText} {namedOnly : Bool}
    (hparams : ∀ q ∈ params, q.Generated) (hgenerated : ∀ q ∈ generated, q.Generated) :
    ∀ q ∈ mergeParams params namedOnly generated, q.Generated := by
  induction generated generalizing params namedOnly with
  | nil => exact hparams
  | cons p rest ih =>
    obtain ⟨hp, hrest⟩ := List.forall_mem_cons.1 hgenerated
    exact ih (generated_mergeParam _ hparams hp) hrest

/-! ## Items -/

/-- A function that is written for a declared one. -/
structure StubFunction.Generated (f : StubFunction) : Prop where
  /-- Its name is a word. -/
  name : IsLexeme .word f.name.toList
  /-- Its decorators are expressions. -/
  decorators : ∀ text ∈ f.decorators, Spells (EndsAt isStop) 0 (.inner .full) text
  /-- Its parameters are written for writable ones. -/
  params : ∀ p ∈ f.params, p.Generated
  /-- What it returns is a hint. -/
  returns : ∀ text ∈ f.returns, Spells (EndsAt isStop) 0 hintExpr text
  /-- Its parameters stand on one line. -/
  separator : f.separator = ", "

namespace StubFunction.Generated

variable {f g : StubFunction}

theorem wellFormed (h : f.Generated) : f.WellFormed where
  name := h.name
  decorators := h.decorators
  params := by
    intro p hp
    obtain ⟨q, hq, rfl⟩ := h.params p hp
    exact hq.reads
  returns := h.returns
  separator := h.separator ▸ Stub.isSeparator_comma
  few := fun _ => h.separator

theorem merge (hf : f.Generated) (hg : g.Generated) : (f.merge g).Generated where
  name := hf.name
  decorators := by
    simp only [StubFunction.merge]
    split
    · exact hg.decorators
    · exact hf.decorators
  params := generated_mergeParams hf.params hg.params
  returns := by
    intro text htext
    rcases (Option.orElse_eq_some _ _ _).1 htext with htext | ⟨-, htext⟩
    · exact hf.returns text htext
    · exact hg.returns text htext
  separator := hf.separator

end StubFunction.Generated

/-- An item that is written for a declaration. -/
inductive StubItem.Generated : StubItem → Prop where
  /-- An attribute. -/
  | ofAttribute {a : StubAttribute} (h : a.WellFormed) : Generated (.ofAttribute a)
  /-- A function. -/
  | ofFunction {f : StubFunction} (h : f.Generated) : Generated (.ofFunction f)
  /-- A class with its items. -/
  | ofClass {head : StubClass} {items : List StubItem} (h : head.WellFormed)
      (hitems : ∀ item ∈ items, Generated item) : Generated (.ofClass head items)

/-- **A generated item is well formed** wherever it stands: there are no comments among them. -/
theorem StubItem.Generated.wellFormed {item : StubItem} (h : item.Generated) (k : Nat) : item.WellFormed k := by
  induction h generalizing k with
  | ofAttribute h => exact .ofAttribute h
  | ofFunction h => exact .ofFunction h.wellFormed
  | @ofClass head items h hitems ih =>
    refine .ofClass h ?_ fun item hitem => ih item hitem (k + 4)
    cases items with
    | nil => rfl
    | cons first rest => cases hitems first List.mem_cons_self <;> rfl

mutual
/-- **Generated items stay so when one is merged into another.** -/
theorem StubItem.Generated.mergeInto : ∀ {g x : StubItem}, g.Generated → x.Generated → (mergeInto g x).Generated
  | .ofClass _ members, .ofClass head items, .ofClass _ hmembers, .ofClass hhead hitems => by
    rw [TypedStubs.mergeInto]
    exact .ofClass hhead (generated_mergeAll hmembers hitems)
  | .ofFunction g, .ofFunction f, .ofFunction hg, .ofFunction hf => by
    rw [TypedStubs.mergeInto]
    exact .ofFunction (hf.merge hg)
  | .ofClass _ _, .ofAttribute _, _, hx | .ofClass _ _, .ofFunction _, _, hx
  | .ofFunction _, .ofAttribute _, _, hx | .ofFunction _, .ofClass _ _, _, hx
  | .ofAttribute _, _, _, hx => by simpa only [TypedStubs.mergeInto] using hx

theorem generated_mergeAll : ∀ {gs items : List StubItem}, (∀ g ∈ gs, g.Generated) →
    (∀ item ∈ items, item.Generated) → ∀ item ∈ mergeAll gs items, item.Generated
  | [], items, _, hitems => by rwa [mergeAll_nil]
  | g :: more, items, hgs, hitems => by
    obtain ⟨hg, hmore⟩ := List.forall_mem_cons.1 hgs
    rw [mergeAll_cons]
    exact generated_mergeAll hmore
      (forall_mem_mergeItem hitems hg fun x hx _ => hg.mergeInto (hitems x hx))
end

end TypedStubs
