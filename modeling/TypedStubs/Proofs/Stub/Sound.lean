import TypedStubs.Proofs.Index.Hierarchy
import TypedStubs.Proofs.Stub.Generated
import TypedStubs.Proofs.Stub.Localized
import TypedStubs.Proofs.Stub.Markers

/-! # What is written of sources that can be written

A source can be written if its annotations say hints that are written as expressions, its bases and named arguments
do, and its attributes have names that may stand at the front of a line (`SourceClass.isWritable`,
`SourceFunction.isWritable`).  In a scope of such sources (`Scope.Sound`) every hint that is found, be it declared,
inherited, assigned or told by an accessor, can be written; so each function, attribute and class is written of
writable pieces (`Scope.Sound.yields_function`, `Scope.Sound.yields_classItem`).
-/
namespace TypedStubs

open Syntax Rule

/-! ## Sources that can be written -/

/-- Whether the hint that a text says, if it says one, is written as an expression. -/
def Hint.isWritableText (text : String) : Bool := (Hint.parse text).toOption.all isWritable

/-- Whether a text is read as a name, and starts no other statement. -/
def isAttributeName (name : String) : Bool :=
  Text.isWord name && !(blockWords ++ clauseWords ++ plainWords).contains name &&
    (assignedValue.read [spelled name []]).any fun (e, rest) => e.isName && e.text == name && rest.isEmpty

/-- Whether what a base or a named argument is written as is an argument. -/
def isWritableBase (base : String) : Bool :=
  match Text.cut "=" base with
  | some (key, value) =>
    (Hint.parse (Text.trim value)).toOption.all fun h => h.isWritable && Text.isWord (Text.trim key)
  | none => Hint.isWritableText base

/-- Whether the annotations of a function are written as expressions. -/
def SourceFunction.isWritable (f : SourceFunction) : Bool :=
  f.params.all (·.hintText.all Hint.isWritableText) && f.returnText.all Hint.isWritableText

/-- Whether an attribute can be annotated in a stub. -/
def SourceAttribute.isWritable (a : SourceAttribute) : Bool :=
  isAttributeName a.name && a.hintText.all Hint.isWritableText

/-- Whether the bases and the members of a class can be written. -/
def SourceClass.isWritable (c : SourceClass) : Bool :=
  c.bases.all isWritableBase && (c.classAttributes ++ c.instanceAttributes).all (·.isWritable) &&
    c.methods.all (·.isWritable)

/-- Whether a declaration can be written. -/
def Declaration.isWritable : Declaration → Bool
  | .ofClass c => c.isWritable
  | .ofFunction f => f.isWritable
  | .ofAttribute a => a.isWritable

/-- Whether the imports of a module can be written, also in the stub of another module, and its declarations. -/
def SourceModule.isWritable (m : SourceModule) : Bool :=
  Import.isOrigin m.name && m.imports.all (fun i => i.isReadable && (i.absolutize m.package).isUsable) &&
    m.declarations.all (·.isWritable)

/-- Whether the names that settings put into stubs can be written. -/
def Settings.isWritable (s : Settings) : Bool :=
  Hint.isReference s.unknownType && Hint.isReference s.classVarMarker &&
    (s.genericTypes ++ s.genericAliases.map (·.2)).all
      (fun name => (Import.member s.genericModule name none).isUsable) &&
    s.baselineImports.all fun line => (Import.readLine line).toOption.all (·.all Import.isReadable)

theorem SourceFunction.isWritable_iff {f : SourceFunction} : f.isWritable = true ↔
    (∀ p ∈ f.params, p.hintText.all Hint.isWritableText = true) ∧ f.returnText.all Hint.isWritableText = true := by
  simp only [isWritable, Bool.and_eq_true, List.all_eq_true]

theorem SourceAttribute.isWritable_iff {a : SourceAttribute} : a.isWritable = true ↔
    isAttributeName a.name = true ∧ a.hintText.all Hint.isWritableText = true := by
  simp only [isWritable, Bool.and_eq_true]

theorem SourceClass.isWritable_iff {c : SourceClass} : c.isWritable = true ↔
    (∀ base ∈ c.bases, isWritableBase base = true) ∧
    (∀ a ∈ c.classAttributes ++ c.instanceAttributes, a.isWritable = true) ∧
    ∀ f ∈ c.methods, f.isWritable = true := by
  simp only [isWritable, Bool.and_eq_true, List.all_eq_true, and_assoc]

theorem SourceModule.isWritable_iff {m : SourceModule} : m.isWritable = true ↔
    Import.isOrigin m.name = true ∧
    (∀ i ∈ m.imports, i.isReadable = true ∧ (i.absolutize m.package).isUsable = true) ∧
    ∀ d ∈ m.declarations, d.isWritable = true := by
  simp only [isWritable, Bool.and_eq_true, List.all_eq_true, and_assoc]

theorem Settings.isWritable_iff {s : Settings} : s.isWritable = true ↔
    Hint.isReference s.unknownType = true ∧ Hint.isReference s.classVarMarker = true ∧
    (∀ name ∈ s.genericTypes ++ s.genericAliases.map (·.2),
      (Import.member s.genericModule name none).isUsable = true) ∧
    ∀ line ∈ s.baselineImports, (Import.readLine line).toOption.all (·.all Import.isReadable) = true := by
  simp only [isWritable, Bool.and_eq_true, List.all_eq_true, and_assoc]

/-- A class of a source that can be written. -/
structure SourceClass.Sound (c : SourceClass) : Prop where
  /-- What it keeps of the source can be written again. -/
  kept : c.Kept
  /-- What is made of it can be written. -/
  writable : c.isWritable = true

/-- A function of a source that can be written. -/
structure SourceFunction.Sound (f : SourceFunction) : Prop where
  /-- What it keeps of the source can be written again. -/
  kept : f.Kept
  /-- What is made of it can be written. -/
  writable : f.isWritable = true

namespace Hint

theorem isWritable_of_parse {text : String} {h : Hint} (htext : isWritableText text = true)
    (hparse : Hint.parse text = .ok h) : h.isWritable = true := by
  simpa [isWritableText, hparse, Except.toOption] using htext

end Hint

theorem isWritable_readHint? {text : Option String} {h : Hint} (htext : text.all Hint.isWritableText = true)
    (hread : text.bind Scope.readHint? = some h) : h.isWritable = true := by
  obtain ⟨said, rfl, hsaid⟩ := Option.bind_eq_some_iff.1 hread
  have hall : (Scope.readHint? said).all Hint.isWritable = true := htext
  rw [hsaid] at hall
  exact hall

section

variable {c : SourceClass} (h : c.Sound)
include h

theorem SourceClass.Sound.base {base : String} (hbase : base ∈ c.bases) :
    Spells EndsArgument 1 argument base ∧ isWritableBase base = true :=
  ⟨h.kept.bases base hbase, (isWritable_iff.1 h.writable).1 base hbase⟩

theorem SourceClass.Sound.attribute {a : SourceAttribute} (ha : a ∈ c.classAttributes ++ c.instanceAttributes) :
    isAttributeName a.name = true ∧ a.hintText.all Hint.isWritableText = true :=
  SourceAttribute.isWritable_iff.1 ((isWritable_iff.1 h.writable).2.1 a ha)

theorem SourceClass.Sound.method {f : SourceFunction} (hf : f ∈ c.methods) : f.Sound :=
  ⟨h.kept.methods f hf, (isWritable_iff.1 h.writable).2.2 f hf⟩

end

theorem SourceFunction.Sound.hintText {f : SourceFunction} (h : f.Sound) {p : Parameter} (hp : p ∈ f.params) :
    p.hintText.all Hint.isWritableText = true := (isWritable_iff.1 h.writable).1 p hp

theorem SourceFunction.Sound.returnText {f : SourceFunction} (h : f.Sound) :
    f.returnText.all Hint.isWritableText = true := (isWritable_iff.1 h.writable).2

/-- What a parameter is given in a stub can be written. -/
theorem Parameter.Kept.writable {d : Parameter} (h : d.Kept) (hmarker : d.isMarker = false) {hint : Option Hint}
    (hhint : ∀ k ∈ hint, k.isWritable = true) :
    StubParameter.Writable ⟨d.name, d.kind, hint, d.default.map Signature.stubDefault, false⟩ := by
  have hvariadic (hkind : d.kind = .varPositional ∨ d.kind = .varKeyword) :
      StubParameter.Writable ⟨d.name, d.kind, hint, d.default.map Signature.stubDefault, false⟩ := by
    obtain ⟨hdefault, gap, w, hname, hgap, hword⟩ := h.variadic (by simpa [isVariadic] using hkind)
    exact .variadic hkind hname hgap hword hhint (by rw [hdefault]; rfl)
  cases hkind : d.kind with
  | positional =>
    obtain ⟨hname, hdefault⟩ := h.ordinary hkind
    refine .positional rfl hname hhint fun text htext => ?_
    obtain ⟨given, hgiven, rfl⟩ := Option.map_eq_some_iff.1 htext
    exact spells_stubDefault (hdefault given hgiven)
  | positionalOnlyMarker | keywordOnlyMarker => simp [isMarker, hkind] at hmarker
  | varPositional => exact hkind ▸ hvariadic (.inl hkind)
  | varKeyword => exact hkind ▸ hvariadic (.inr hkind)

/-- The decorators that stay are expressions. -/
theorem spells_decorators {scope : Scope} {owner : Option SourceClass} {all : List Decorator}
    (h : ∀ d ∈ all, Spells (EndsAt isStop) 0 (.inner .full) d.text) :
    ∀ text ∈ scope.decorators owner all, Spells (EndsAt isStop) 0 (.inner .full) text := by
  intro text htext
  obtain ⟨d, hd, rfl⟩ := List.mem_map.1 htext
  exact h d (List.mem_filter.1 hd).1

/-- What is asked of the name of an attribute. -/
theorem exists_name {name : String} (h : isAttributeName name = true) :
    (∃ e, Reads EndsValue 0 assignedValue name.toList e ∧ e.isName = true ∧ e.text = name) ∧
      name ∉ blockWords ++ clauseWords ++ plainWords := by
  simp only [isAttributeName, Bool.and_eq_true, Bool.not_eq_true'] at h
  obtain ⟨⟨hword, halone⟩, hread⟩ := h
  obtain ⟨⟨e, rest⟩, hread, hname⟩ := (Option.any_eq_true _ _).1 hread
  simp only [Bool.and_eq_true, beq_iff_eq, List.isEmpty_iff] at hname
  obtain ⟨⟨hname, rfl⟩, rfl⟩ := hname
  have hscan := (piece_word (isLexeme_of_isWord hword) 0).scanned
  exact ⟨⟨e, reads_value hscan (.nil _) hread, hname, rfl⟩, by simpa using halone⟩

/-- An attribute with a hint that can be written. -/
theorem generated_hinted {name : String} (hname : isAttributeName name = true) {hint : Hint}
    (hhint : hint.isWritable = true) : (Scope.hinted name hint.render).Generated := by
  obtain ⟨hread, halone⟩ := exists_name hname
  exact .ofAttribute ⟨hread, halone, spells_hint hhint 0, by simp, .inl rfl⟩

theorem Signature.referencedClass?_mem {s : Settings} {index : SourceIndex} {r : Docstring.Reference}
    {c : SourceClass} (h : referencedClass? s index r = some c) : c ∈ index.classes := by
  unfold referencedClass? at h
  dsimp only at h
  split at h
  · next found hfound =>
    obtain rfl := Option.some.inj h
    split at hfound
    · exact SourceIndex.class?_mem hfound
    · cases hfound
  · exact SourceIndex.classesNamed_subset (List.mem_filter.1 (MatchPolicy.pick_mem h)).1

/-! ## Hints that are found -/

/-- The type that an accessor tells can be written. -/
theorem SourceClass.Sound.accessorType? {c : SourceClass} (h : c.Sound) {s : Settings} {name : String} {hint : Hint}
    (hfound : c.accessorType? s name = some hint) : hint.isWritable = true := by
  obtain ⟨f, hf, htype⟩ := Option.bind_eq_some_iff.1 hfound
  have hmem : f ∈ c.methods := List.mem_of_find?_eq_some (Option.filter_eq_some_iff.1 hf).1
  rcases (Option.orElse_eq_some _ _ _).1 htype with htype | ⟨-, htype⟩
  · exact isWritable_readHint? (h.method hmem).returnText htype
  · exact (h.method hmem).kept.inferred hint (Option.filter_eq_some_iff.1 htype).1

namespace SourceIndex

variable {index : SourceIndex} {policy : MatchPolicy} {α : Type} {P : α → Prop} {find : SourceClass → Option α}

/-- What holds of every answer that an indexed class gives holds of what a search finds. -/
theorem of_searchFrom (hfind : ∀ c ∈ index.classes, ∀ a, find c = some a → P a) {entered : List String}
    {pending : List SourceClass} (hpending : ∀ c ∈ pending, c ∈ index.classes) {a : α}
    (h : index.searchFrom policy find entered pending = some a) : P a := by
  fun_induction searchFrom index policy find entered pending with
  | case1 => cases h
  | case2 entered c rest _ ih => exact ih (List.forall_mem_cons.1 hpending).2 h
  | case3 entered c rest _ answer hfound =>
    exact hfind c (hpending c List.mem_cons_self) a (hfound.trans h)
  | case4 entered c rest _ _ ih =>
    refine ih (fun b hb => ?_) h
    exact (List.mem_append.1 hb).elim basesOf_mem (hpending b ∘ List.mem_cons_of_mem c)

theorem of_search? (hfind : ∀ c ∈ index.classes, ∀ a, find c = some a → P a) {c : SourceClass}
    (hc : c ∈ index.classes) {a : α} (h : index.search? policy find c = some a) : P a := by
  unfold search? at h
  split at h
  · next answer hfound => exact hfind c hc a (hfound.trans h)
  · exact of_searchFrom hfind (fun _ => basesOf_mem) h

end SourceIndex

/-! ## The scope of a stub -/

/-- A scope whose sources and settings can be written. -/
structure Scope.Sound (scope : Scope) : Prop where
  /-- Its imports are usable. -/
  usable : scope.Usable
  /-- The hint of unknown types can be written. -/
  unknown : Hint.isReference scope.settings.unknownType = true
  /-- So can the mark of class attributes. -/
  marker : Hint.isReference scope.settings.classVarMarker = true
  /-- All classes are sound. -/
  classes : ∀ c ∈ scope.index.classes, c.Sound

/-- Whether the class that functions are methods of, if there is one, is a class of the index. -/
def Scope.Owns (scope : Scope) (owner : Option SourceClass) : Prop := ∀ c ∈ owner, c ∈ scope.index.classes

theorem Scope.owns_none (scope : Scope) : scope.Owns none := by simp [Owns]

theorem Scope.owns_some {scope : Scope} {c : SourceClass} (hc : c ∈ scope.index.classes) : scope.Owns (some c) := by
  simpa [Owns] using hc

namespace Scope.Sound

variable {scope : Scope} (h : scope.Sound)
include h

theorem inheritedType? {name : String} {c : SourceClass} {hint : Hint} (hc : c ∈ scope.index.classes)
    (hfound : Signature.inheritedType? scope.settings scope.index name c = some hint) : hint.isWritable = true :=
  SourceIndex.of_search? (P := fun hint => hint.isWritable = true)
    (fun c hc _ ha => (h.classes c hc).accessorType? ha) hc hfound

/-- The hint of an attribute can be written. -/
theorem attributeHint {owner : Option SourceClass} (howner : scope.Owns owner) {a : SourceAttribute}
    (htext : a.hintText.all Hint.isWritableText = true) (hvalue : ∀ k ∈ a.valueType, k.isWritable = true) :
    (scope.attributeHint owner a).isWritable = true := by
  unfold Scope.attributeHint
  cases hknown : (a.hintText.bind readHint? <|> owner.bind (scope.assignedHint? · a) <|>
    owner.bind (·.accessorType? scope.settings a.name) <|> a.valueType) with
  | none => exact h.unknown
  | some hint =>
    simp only [Option.orElse_eq_some] at hknown
    rcases hknown with hknown | ⟨-, hknown | ⟨-, hknown | ⟨-, hknown⟩⟩⟩
    · exact isWritable_readHint? htext hknown
    · obtain ⟨c, hc, hassigned⟩ := Option.bind_eq_some_iff.1 hknown
      have hsound := h.classes c (howner c hc)
      obtain ⟨init, hinit, hassigned⟩ := Option.bind_eq_some_iff.1 hassigned
      obtain ⟨name, -, hassigned⟩ := Option.bind_eq_some_iff.1 hassigned
      obtain ⟨p, hp, hassigned⟩ := Option.bind_eq_some_iff.1 hassigned
      have hinit := hsound.method (List.mem_of_find?_eq_some hinit)
      have hptext := hinit.hintText (List.mem_of_find?_eq_some hp)
      cases htyped : p.hintText with
      | some text =>
        rw [htyped] at hassigned hptext
        exact isWritable_readHint? hptext hassigned
      | none =>
        rw [htyped] at hassigned
        exact hsound.accessorType? hassigned
    · obtain ⟨c, hc, htype⟩ := Option.bind_eq_some_iff.1 hknown
      exact (h.classes c (howner c hc)).accessorType? htype
    · exact hvalue hint hknown

/-! ### Signatures -/

theorem declaredHint {owner : Option SourceClass} (howner : scope.Owns owner) {isFirst : Bool} {d : Parameter}
    (htext : d.hintText.all Hint.isWritableText = true) {hint : Option Hint}
    (hhint : Signature.declaredHint scope.settings scope.index owner isFirst d = .ok hint) :
    ∀ k ∈ hint, k.isWritable = true := by
  unfold Signature.declaredHint at hhint
  cases htyped : d.hintText with
  | some text =>
    rw [htyped] at htext
    cases hparse : Hint.parse text with
    | error e => simp [htyped, hparse, Functor.map, Except.map] at hhint
    | ok k =>
      simp only [htyped, hparse, Functor.map, Except.map, Except.ok.injEq] at hhint
      rintro _ rfl
      exact Option.some.inj hhint ▸ Hint.isWritable_of_parse htext hparse
  | none =>
    cases owner with
    | none =>
      simp only [htyped, Except.ok.injEq] at hhint
      simp [← hhint]
    | some c =>
      simp only [htyped, Except.ok.injEq] at hhint
      intro k hk
      rw [← hhint] at hk
      split at hk
      · cases hk
      · exact h.inheritedType? (howner c rfl) hk

theorem declaredParams {owner : Option SourceClass} (howner : scope.Owns owner) {isFirst : Bool}
    {declared : List Parameter} (hkept : ∀ p ∈ declared, p.Kept ∧ p.hintText.all Hint.isWritableText = true)
    {params : List StubParameter}
    (hparams : Signature.declaredParams scope.settings scope.index owner isFirst declared = .ok params) :
    ∀ p ∈ params, p.Writable := by
  induction declared generalizing isFirst params with
  | nil =>
    obtain rfl := Except.ok.inj hparams
    simp
  | cons d rest ih =>
    obtain ⟨⟨hd, htext⟩, hrest⟩ := List.forall_mem_cons.1 hkept
    unfold Signature.declaredParams at hparams
    split at hparams
    · next hmarker =>
      obtain ⟨more, hmore, heq⟩ := Hint.bind_eq_ok.1 hparams
      obtain rfl := Except.ok.inj heq
      refine List.forall_mem_cons.2 ⟨.ofMarker ?_, ih hrest hmore⟩
      simpa [Parameter.isMarker] using hmarker
    next hmarker =>
    split at hparams
    · exact ih hrest hparams
    obtain ⟨hint, hhint, hparams⟩ := Hint.bind_eq_ok.1 hparams
    obtain ⟨more, hmore, heq⟩ := Hint.bind_eq_ok.1 hparams
    obtain rfl := Except.ok.inj heq
    refine List.forall_mem_cons.2 ⟨?_, ih hrest hmore⟩
    have hwritable := h.declaredHint howner htext hhint
    exact hd.writable (by simpa using hmarker) hwritable

theorem documentedParams (f : SourceFunction) :
    ∀ p ∈ Signature.documentedParams scope.settings scope.index f, p.Writable := by
  intro p hp
  simp only [Signature.documentedParams] at hp
  split at hp
  · next c init hfound =>
    obtain ⟨reference, -, hfound⟩ := Option.bind_eq_some_iff.1 hfound
    obtain ⟨c', hc, hfound⟩ := Option.bind_eq_some_iff.1 hfound
    obtain ⟨init', hinit, hfound⟩ := Option.bind_eq_some_iff.1 hfound
    obtain ⟨rfl, rfl⟩ := Prod.mk.inj (Option.some.inj hfound)
    have hindexed := Signature.referencedClass?_mem hc
    have hsound : init'.Sound := SourceIndex.of_searchFrom
      (fun c hc _ ha => (h.classes c hc).method (List.mem_of_find?_eq_some ha))
      (List.forall_mem_singleton.2 hindexed) hinit
    obtain ⟨d, hd, hrecovered⟩ := List.mem_filterMap.1 hp
    have hkept := hsound.kept.params d (List.mem_of_mem_drop hd)
    unfold Signature.recoveredParam? at hrecovered
    split at hrecovered
    · cases hrecovered
    next hplain =>
    obtain ⟨hint, htype, rfl⟩ := Option.map_eq_some_iff.1 hrecovered
    have hkind : d.kind = .positional := by
      cases hkind : d.kind <;> simp [Parameter.isMarker, Parameter.isVariadic, hkind] at hplain ⊢
    refine .positional rfl (hkept.ordinary hkind).1 ?_ ?_
    · rintro k ⟨⟩
      exact h.inheritedType? hindexed htype
    · rintro text ⟨⟩
      exact spells_dots 1
  · cases hp

theorem signature {owner : Option SourceClass} (howner : scope.Owns owner) {f : SourceFunction} (hf : f.Sound)
    {params : List StubParameter}
    (hparams : Signature.synthesize scope.settings scope.index f owner = .ok params) : ∀ p ∈ params, p.Writable := by
  refine Signature.forall_mem_synthesize (fun declared hdeclared => ?_) (h.documentedParams f) (.ofMarker (.inr rfl))
    hparams
  exact h.declaredParams howner (fun p hp => ⟨hf.kept.params p hp, hf.hintText hp⟩) hdeclared

/-! ### What is written -/

/-- A hint that a text says is written as an expression. -/
theorem yields_localizeText {text : String} (htext : Hint.isWritableText text = true) :
    YieldsOk (fun s => ∃ said hint : Hint, Hint.parse text = .ok said ∧ hint.isWritable = true ∧ s = hint.render)
      (scope.localizeText text) :=
  (YieldsOk.liftExcept fun _ hparse => hparse).bind fun said hsaid =>
    (YieldsOk.lift (yields_localize h.usable (Hint.isWritable_of_parse htext hsaid))).bind fun hint hhint =>
      .pure ⟨said, hint, hsaid, hhint, rfl⟩

theorem yields_paramText {p : StubParameter} (hp : p.Writable) : Yields ParamText.Generated (scope.paramText p) := by
  unfold paramText
  split
  · next hint hhint =>
    exact (yields_localize h.usable (hp.hint hhint)).bind fun k hk =>
      .pure ⟨{ p with hint := some k }, hp.withHint hhint hk, rfl⟩
  · next hnone => exact .pure ⟨p, hp, by rw [StubParameter.text, StubParameter.textWith, hnone]⟩

theorem yields_returnText {f : SourceFunction} (hf : f.Sound) :
    YieldsOk (fun r => ∀ text ∈ r, Spells (EndsAt isStop) 0 hintExpr text) (scope.returnText f) := by
  have hreturn := hf.returnText
  cases htext : f.returnText with
  | some text =>
    rw [htext] at hreturn
    simp only [returnText, htext]
    refine (h.yields_localizeText hreturn).bind fun said hsaid => ?_
    obtain ⟨-, hint, -, hhint, rfl⟩ := hsaid
    exact .pure (spells_hint hhint 0)
  | none =>
    simp only [returnText, htext]
    by_cases hinit : f.name = "__init__"
    · have hnone : (Hint.name "None").isWritable = true := by decide
      rw [if_pos hinit]
      exact .pure (spells_hint hnone 0)
    rw [if_neg hinit]
    cases hinferred : f.inferredReturn with
    | some hint =>
      exact (YieldsOk.lift (yields_localize h.usable (hf.kept.inferred hint hinferred))).bind fun k hk =>
        .pure (spells_hint hk 0)
    | none => exact .pure (by simp)

/-- **A function whose annotations can be written is written of writable pieces.** -/
theorem yields_function {owner : Option SourceClass} (howner : scope.Owns owner) {f : SourceFunction}
    (hf : f.Sound) : YieldsOk StubFunction.Generated (scope.function f owner) := by
  refine (YieldsOk.liftExcept fun params hparams => h.signature howner hf hparams).bind fun signature hsignature => ?_
  refine (YieldsOk.mapM fun p hp => .lift (h.yields_paramText (hsignature p hp))).bind fun params hparams => ?_
  refine (h.yields_returnText hf).bind fun returns hreturns => .pure ⟨hf.kept.name, ?_, hparams, hreturns, rfl⟩
  exact spells_decorators hf.kept.decorators

theorem yields_functionItems {owner : Option SourceClass} (howner : scope.Owns owner) {fs : List SourceFunction}
    (hfs : ∀ f ∈ fs, f.Sound) (tally : Tally) :
    Yields (fun r => ∀ f ∈ r.1, f.Generated) (scope.functionItems owner tally fs) := by
  induction fs generalizing tally with
  | nil => exact .pure (by simp)
  | cons f fs ih =>
    obtain ⟨hf, hrest⟩ := List.forall_mem_cons.1 hfs
    rw [functionItems]
    split
    · exact ih hrest _
    · refine Yields.bind (h.yields_function howner hf) fun outcome houtcome => ?_
      cases outcome with
      | error e => exact ih hrest _
      | ok built =>
        exact (ih hrest _).bind fun more hmore => .pure (List.forall_mem_cons.2 ⟨houtcome built rfl, hmore⟩)

/-- The hint of a class attribute can be written. -/
theorem yields_classVarText {hint : Hint} (hhint : hint.isWritable = true) :
    Yields (fun s => ∃ k : Hint, k.isWritable = true ∧ s = k.render) (scope.classVarText hint) := by
  unfold classVarText
  split
  · exact .pure ⟨hint, hhint, rfl⟩
  · refine (yields_localizeName h.usable h.marker).bind fun marker hmarker => .pure ⟨_, ?_, rfl⟩
    simp [Hint.isWritable, Hint.areWritable, hmarker, hhint]

theorem yields_attributeItems {c : SourceClass} (hc : c ∈ scope.index.classes) :
    Yields (fun items => ∀ item ∈ items, item.Generated) (scope.attributeItems c) := by
  have hsound := h.classes c hc
  have known {owner : Option SourceClass} (howner : scope.Owns owner) {a : SourceAttribute}
      (ha : a ∈ c.classAttributes ++ c.instanceAttributes) :
      isAttributeName a.name = true ∧ (scope.attributeHint owner a).isWritable = true := by
    obtain ⟨hname, htext⟩ := hsound.attribute ha
    exact ⟨hname, h.attributeHint howner htext (hsound.kept.attributes a ha)⟩
  refine Yields.bind (P := fun items => ∀ item ∈ items, item.Generated) (.mapM fun a ha => ?_) fun first hfirst => ?_
  · obtain ⟨hname, hhint⟩ := known scope.owns_none (List.mem_append_left _ (mem_freeAttributes ha).1)
    refine (yields_localize h.usable hhint).bind fun _ hk => (h.yields_classVarText hk).bind fun _ htext => ?_
    obtain ⟨hint, hwritable, rfl⟩ := htext
    exact .pure (generated_hinted hname hwritable)
  refine Yields.bind (P := fun items => ∀ item ∈ items, item.Generated) (.mapM fun a ha => ?_)
    fun second hsecond => ?_
  · obtain ⟨hname, hhint⟩ := known (owns_some hc) (List.mem_append_right _ (mem_freeAttributes ha).1)
    exact (yields_localize h.usable hhint).bind fun _ hk => .pure (generated_hinted hname hk)
  · exact .pure fun item hitem => (List.mem_append.1 hitem).elim (hfirst item) (hsecond item)

/-- A base or a named argument is written as an argument. -/
theorem yields_base {base : String} (hkept : Spells EndsArgument 1 argument base)
    (hbase : isWritableBase base = true) : Yields (Spells EndsArgument 1 argument) (scope.base base) := by
  unfold isWritableBase at hbase
  unfold Scope.base
  split
  · next key value hcut =>
    rw [hcut] at hbase
    have hwritable {said : Hint} (hparse : Hint.parse (Text.trim value) = .ok said) :
        said.isWritable = true ∧ Text.isWord (Text.trim key) = true := by
      simpa [hparse, Except.toOption] using hbase
    have htext : Hint.isWritableText (Text.trim value) = true := by
      unfold Hint.isWritableText
      cases hparse : Hint.parse (Text.trim value) with
      | error e => rfl
      | ok said => exact (hwritable hparse).1
    refine Yields.bind (h.yields_localizeText htext) fun outcome houtcome => ?_
    cases outcome with
    | error e => exact .pure hkept
    | ok text =>
      obtain ⟨said, hint, hparse, hhint, rfl⟩ := houtcome text rfl
      exact .pure ((Hint.isBarred_render hhint).spells_given (isLexeme_of_isWord (hwritable hparse).2))
  · next hcut =>
    rw [hcut] at hbase
    refine Yields.bind (h.yields_localizeText hbase) fun outcome houtcome => ?_
    cases outcome with
    | error e => exact .pure hkept
    | ok text =>
      obtain ⟨-, hint, -, hhint, rfl⟩ := houtcome text rfl
      exact .pure (Hint.isBarred_render hhint).spells_argument

/-- **A class whose members can be written is written of writable pieces.** -/
theorem yields_classItem {c : SourceClass} (hc : c ∈ scope.index.classes) (tally : Tally) :
    Yields (fun r => r.1.Generated) (scope.classItem tally c) := by
  have hsound := h.classes c hc
  have hbases : Yields (fun bases => ∀ base ∈ bases, Spells EndsArgument 1 argument base)
      (c.bases.mapM scope.base) := by
    refine .mapM fun base hbase => ?_
    obtain ⟨hkept, hwritable⟩ := hsound.base hbase
    exact h.yields_base hkept hwritable
  refine hbases.bind fun bases hbases => (h.yields_attributeItems hc).bind fun attributes hattributes => ?_
  refine (h.yields_functionItems (owns_some hc) (fun f hf => hsound.method hf) tally).bind fun methods hmethods =>
    .pure ?_
  refine .ofClass ⟨hsound.kept.name, spells_decorators hsound.kept.decorators, hbases⟩ fun item hitem => ?_
  rcases List.mem_append.1 hitem with hitem | hitem
  · exact hattributes item hitem
  · obtain ⟨f, hf, rfl⟩ := List.mem_map.1 hitem
    exact .ofFunction (hmethods f hf)

/-- An attribute of the module is written of writable pieces. -/
theorem yields_moduleAttribute {a : SourceAttribute} (hw : a.isWritable = true)
    (hvalue : ∀ value ∈ a.value, Spells EndsValue 0 assignedValue value)
    (htype : ∀ k ∈ a.valueType, k.isWritable = true) : Yields StubItem.Generated (scope.moduleAttribute a) := by
  obtain ⟨hname, htext⟩ := SourceAttribute.isWritable_iff.1 hw
  cases hmakes : a.value.filter makesType with
  | some value =>
    obtain ⟨hread, halone⟩ := exists_name hname
    have hgiven := (Option.filter_eq_some_iff.1 hmakes).1
    simp only [moduleAttribute, hmakes]
    refine .pure (.ofAttribute ⟨hread, halone, by simp, ?_, .inr rfl⟩)
    rintro _ ⟨⟩
    exact hvalue value hgiven
  | none =>
    simp only [moduleAttribute, hmakes]
    have hhint := h.attributeHint scope.owns_none htext htype
    exact (yields_localize h.usable hhint).bind fun _ hk => .pure (generated_hinted hname hk)

end Scope.Sound

end TypedStubs
