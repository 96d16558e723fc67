import TypedStubs.Proofs.Hint.Expression
import TypedStubs.Proofs.Source.Imports
import TypedStubs.Proofs.Source.InstanceAttributes
import TypedStubs.Proofs.Source.Returns
import TypedStubs.Proofs.Syntax.Carried

/-! # What a module keeps of its source can be written again

A module that was read holds names that are words, decorators, bases and values that are expressions, and defaults
that are expressions wherever a parameter stands (`SourceModule.kept_read`).  What is inferred of it, the types of
literals and of returned values, is written as an expression too.  Annotations are left out: they are kept as they
were written, and what is made of them is said by the reader of hints.
-/
namespace TypedStubs

open Syntax Rule

/-! ## Parameters -/

/-- A parameter that can be written again.  Behind stars, a gap may stand before its name. -/
structure Parameter.Kept (p : Parameter) : Prop where
  /-- An ordinary one has a word for its name, and an expression for its default. -/
  ordinary : p.kind = .positional →
    IsLexeme .word p.name.toList ∧ ∀ text ∈ p.default, Spells (EndsAt isStop) 1 (.inner .full) text
  /-- One that takes any number of arguments has no default. -/
  variadic : p.isVariadic = true → p.default = none ∧ ∃ (gap : List Char) (w : String),
    p.name = String.ofList (gap ++ w.toList) ∧ IsGap 1 gap ∧ IsLexeme .word w.toList

namespace Syntax

variable {ts rest : List Token}

/-- A name behind stars can be written again with the gap before it. -/
theorem starredName_kept {kind : ParamKind} {text : String} (hscan : Scanned 1 ts)
    (h : (starredName kind).read ts = some ((text, false), rest)) :
    Scanned 1 rest ∧ ∃ (gap : List Char) (w : String),
      splatName text = String.ofList (gap ++ w.toList) ∧ IsGap 1 gap ∧ IsLexeme .word w.toList := by
  obtain ⟨hread, htext⟩ := read_withText_eq_some.1 h
  obtain ⟨_, mid, hsign, hname⟩ := read_bind_eq_some.1 hread
  obtain ⟨_, htake⟩ := read_discard_eq_some.1 hsign
  obtain ⟨t, rfl, rfl, ht⟩ := read_take_eq_some.1 htake
  obtain ⟨isMarker, mid', hat, hword⟩ := read_bind_eq_some.1 hname
  obtain ⟨-, rfl⟩ := Prod.mk.inj (Option.some.inj hat)
  split at hword
  · cases (Prod.mk.inj (Option.some.inj hword)).1
  obtain ⟨_, mid', hany, hend⟩ := read_bind_eq_some.1 hword
  obtain ⟨-, rfl⟩ := Prod.mk.inj (Option.some.inj hend)
  obtain ⟨name, hany⟩ := read_discard_eq_some.1 hany
  have hafter := hscan.behind (d := 1) (a := 0) (b := 0) (.discard (.oneOf (by decide))) hsign
  have hrest := hafter.behind (d := 1) (a := 0) (b := 0) .anyWord hany
  have hword := isLexeme_of_anyWord hafter hany
  obtain ⟨u, rfl, -, rfl⟩ := read_anyWord_eq_some.1 hany
  have hstars : t.text = "*" ∨ t.text = "**" := by
    simp only [isOneOf, Bool.and_eq_true, List.contains_iff_mem] at ht
    simpa using ht.2
  refine ⟨hrest, u.before, u.text, ?_, hafter.isGap, hword⟩
  rw [← splatName_starred hstars hafter.isGap hword, htext]
  refine congrArg splatName ((textSince_append_right [t, u] mid').trans ?_)
  simp [spanChars_cons, written_cons, Lexeme.text]

/-- A default can be written again. -/
theorem paramDefault_kept {default : Option String} (hscan : Scanned 1 ts) (hrest : EndsArgument rest)
    (h : paramDefault.read ts = some (default, rest)) :
    ∀ text ∈ default, Spells (EndsAt isStop) 1 (.inner .full) text := by
  obtain ⟨found, mid, hmaybe, heq⟩ := read_bind_eq_some.1 h
  obtain ⟨rfl, rfl⟩ := Prod.mk.inj (Option.some.inj heq)
  obtain ⟨given, mid', htake, hgiven⟩ := read_bind_eq_some.1 hmaybe
  cases given with
  | false =>
    obtain ⟨rfl, -⟩ := Prod.mk.inj (Option.some.inj hgiven)
    simp
  | true =>
    rw [if_pos rfl] at hgiven
    obtain ⟨t, rfl, ht⟩ := exists_of_takeSymbol htake
    obtain ⟨⟨text, e⟩, mid'', hvalue, hpure⟩ := read_bind_eq_some.1 hgiven
    obtain ⟨rfl, rfl⟩ := Prod.mk.inj (Option.some.inj hpure)
    obtain ⟨hread, rfl⟩ := read_withText_eq_some.1 hvalue
    rintro _ ⟨⟩
    rw [← expression_spelled .full hread]
    exact ⟨e, reads_expression (hscan.behind_symbol ht (by decide)) hrest.isStop hread, rfl⟩

theorem starParam_kept {kind : ParamKind} {p : Param} (hscan : Scanned 1 ts)
    (hkind : kind = .varPositional ∨ kind = .varKeyword) (h : (starParam kind).read ts = some (p, rest)) :
    (parameterOf p).Kept := by
  obtain ⟨⟨text, isMarker⟩, mid, hname, hmore⟩ := read_bind_eq_some.1 h
  cases isMarker with
  | true =>
    obtain ⟨rfl, -⟩ := Prod.mk.inj (Option.some.inj hmore)
    exact ⟨nofun, nofun⟩
  | false =>
    obtain ⟨hint, mid', -, heq⟩ := read_bind_eq_some.1 hmore
    obtain ⟨rfl, -⟩ := Prod.mk.inj (Option.some.inj heq)
    refine ⟨fun hk => ?_, fun _ => ⟨rfl, (starredName_kept hscan hname).2⟩⟩
    rcases hkind with rfl | rfl <;> cases hk

theorem bareParam_kept {p : Param} (hscan : Scanned 1 ts) (hrest : EndsArgument rest)
    (h : bareParam.read ts = some (p, rest)) : (parameterOf p).Kept := by
  obtain ⟨slash, mid, htake, h⟩ := read_bind_eq_some.1 h
  cases slash with
  | true =>
    obtain ⟨rfl, -⟩ := Prod.mk.inj (Option.some.inj h)
    exact ⟨nofun, nofun⟩
  | false =>
    obtain rfl := eq_of_takeSymbol htake
    obtain ⟨star, mid, hat, h⟩ := read_bind_eq_some.1 h
    obtain ⟨-, rfl⟩ := Prod.mk.inj (Option.some.inj hat)
    cases star with
    | true => exact starParam_kept hscan (.inl rfl) h
    | false =>
      obtain ⟨stars, mid, hat, h⟩ := read_bind_eq_some.1 h
      obtain ⟨-, rfl⟩ := Prod.mk.inj (Option.some.inj hat)
      cases stars with
      | true => exact starParam_kept hscan (.inr rfl) h
      | false =>
        obtain ⟨name, mid, hname, h⟩ := read_bind_eq_some.1 h
        have hafter := hscan.behind (d := 1) (a := 0) (b := 0) .anyWord hname
        obtain ⟨hint, mid', hhint, h⟩ := read_bind_eq_some.1 h
        obtain ⟨default, mid'', hdefault, heq⟩ := read_bind_eq_some.1 h
        obtain ⟨rfl, rfl⟩ := Prod.mk.inj (Option.some.inj heq)
        have hbehind := hafter.behind (d := 1) (a := 0) (b := 0) paramHint_nets hhint
        exact ⟨fun _ => ⟨isLexeme_of_anyWord hscan hname, paramDefault_kept hbehind hrest hdefault⟩,
          nofun⟩

/-- **A parameter that is read again has a name and a default that can be written again.** -/
theorem param_kept {p : Param} (h : Reads EndsArgument 1 param p.text.toList p) : (parameterOf p).Kept := by
  obtain ⟨us, hpiece, -, hread⟩ := h
  have hend : EndsArgument [sign ")" []] := ⟨_, _, rfl, rfl⟩
  obtain ⟨⟨text, bare⟩, mid, htext, heq⟩ := read_bind_eq_some.1 (hread [] _ hend)
  obtain ⟨hp, rfl⟩ := Prod.mk.inj (Option.some.inj heq)
  have hbare := bareParam_kept hpiece.scanned_closed hend (read_withText_eq_some.1 htext).1
  have hsame : parameterOf p = parameterOf bare := by rw [← hp]; rfl
  exact hsame ▸ hbare

end Syntax

/-! ## Inferred types -/

/-- The names of the types of literals. -/
def literalTypes : List String := ["int", "float", "bool", "None", "bytes", "str", "list", "dict", "set", "tuple"]

theorem literalTypeName_mem {kind : ExprKind} {text name : String} (h : literalTypeName kind text = some name) :
    name ∈ literalTypes := by
  have hsigned : ∀ name, signedType text = some name → name ∈ literalTypes := by
    intro name h
    simp only [signedType] at h
    split at h
    · cases h
    split at h <;> obtain rfl := Option.some.inj h <;> decide
  have hstring : stringType text ∈ literalTypes := by
    simp only [stringType]
    split <;> decide
  cases kind with
  | string => exact Option.some.inj h ▸ hstring
  | unary => exact hsigned name h
  | _ => cases h <;> decide

/-- The type of a literal can be written. -/
theorem isWritable_literalType {kind : ExprKind} {text : String} {h : Hint}
    (hliteral : literalType kind text = some h) : h.isWritable = true := by
  obtain ⟨name, hname, rfl⟩ := Option.map_eq_some_iff.1 hliteral
  have hall : ∀ name ∈ literalTypes, Hint.isReference name = true := by decide
  exact hall name (literalTypeName_mem hname)

/-- The union of hints that can be written can be written. -/
theorem Hint.isWritable_unionOf? {hs : List Hint} {h : Hint} (hunion : unionOf? hs = some h)
    (hall : ∀ k ∈ hs, k.isWritable = true) : h.isWritable = true := by
  have hmembers : ∀ k ∈ unionMembers hs, k.isWritable = true := by
    intro k hk
    rw [unionMembers, foldl_addNew, List.nil_append, List.removeAll_nil, List.mem_eraseDups] at hk
    obtain ⟨whole, hwhole, hk⟩ := List.mem_flatMap.1 hk
    have := hall whole hwhole
    cases whole with
    | union members =>
      simp only [isWritable, Bool.and_eq_true] at this
      exact areWritable_iff.1 this.2 k hk
    | _ => exact List.mem_singleton.1 hk ▸ this
  unfold unionOf? at hunion
  split at hunion
  · cases hunion
  · next only heq =>
    obtain rfl := Option.some.inj hunion
    exact hmembers _ (by simp [heq])
  · obtain rfl := Option.some.inj hunion
    have hne : unionMembers hs ≠ [] := by assumption
    simpa [isWritable, hne] using areWritable_iff.2 hmembers

theorem isWritable_returned {nodes : List BodyNode} {h : Hint} (hmem : some h ∈ returnedTypes nodes) :
    h.isWritable = true := by
  obtain ⟨n, -, hn⟩ := List.mem_filterMap.1 hmem
  match n, hn with
  | .stmt (.returns _ none), hn =>
    obtain rfl := Option.some.inj (Option.some.inj hn)
    decide
  | .stmt (.returns _ (some e)), hn => exact isWritable_literalType (Option.some.inj hn)

/-- The inferred type of what a body returns can be written. -/
theorem isWritable_inferReturn {body : List Stmt} {h : Hint} (hinfer : inferReturn body = some h) :
    h.isWritable = true := by
  rw [inferReturn, walk_eq_foldl, ReturnSummary.foldl_note, ReturnSummary.type?] at hinfer
  split at hinfer
  · cases hinfer
  split at hinfer
  · obtain rfl := Option.some.inj hinfer
    decide
  · refine Hint.isWritable_unionOf? hinfer fun k hk => ?_
    obtain ⟨type, htype, rfl⟩ : ∃ type ∈ returnedTypes _, type = some k := by
      simpa [ReturnSummary.addNodes] using hk
    exact isWritable_returned htype

/-! ## Declarations -/

/-- A function whose pieces can be written again. -/
structure SourceFunction.Kept (f : SourceFunction) : Prop where
  /-- Its name is a word. -/
  name : IsLexeme .word f.name.toList
  /-- Its decorators are expressions. -/
  decorators : ∀ d ∈ f.decorators, Spells (EndsAt isStop) 0 (.inner .full) d.text
  /-- Its parameters can be written again. -/
  params : ∀ p ∈ f.params, p.Kept
  /-- What it seems to return can be written. -/
  inferred : ∀ h ∈ f.inferredReturn, h.isWritable = true

/-- A class whose pieces can be written again. -/
structure SourceClass.Kept (c : SourceClass) : Prop where
  /-- Its name is a word. -/
  name : IsLexeme .word c.name.toList
  /-- Its decorators are expressions. -/
  decorators : ∀ d ∈ c.decorators, Spells (EndsAt isStop) 0 (.inner .full) d.text
  /-- Its bases and named arguments are arguments. -/
  bases : ∀ base ∈ c.bases, Spells EndsArgument 1 argument base
  /-- Its methods can be written again. -/
  methods : ∀ f ∈ c.methods, f.Kept
  /-- The types of its attributes, as their values tell, can be written. -/
  attributes : ∀ a ∈ c.classAttributes ++ c.instanceAttributes, ∀ h ∈ a.valueType, h.isWritable = true

/-- A declaration of a module whose pieces can be written again.  A class knows the module. -/
def Declaration.Kept (module : String) : Declaration → Prop
  | .ofClass c => c.Kept ∧ c.module = module
  | .ofFunction f => f.Kept
  | .ofAttribute a => (∀ value ∈ a.value, Spells EndsValue 0 assignedValue value) ∧
    ∀ h ∈ a.valueType, h.isWritable = true

/-- A module whose declarations can be written again. -/
def SourceModule.Kept (m : SourceModule) : Prop := ∀ d ∈ m.declarations, d.Kept m.name

section Reading

variable {module scope : String} {decorators : List Expr} {body : List Stmt} {s : Stmt}

theorem text_decoratorOf (e : Expr) : (decoratorOf e).text = e.text := by
  unfold decoratorOf
  split <;> rfl

theorem decorators_kept (h : KeptDecorators decorators) :
    ∀ d ∈ decorators.map decoratorOf, Spells (EndsAt isStop) 0 (.inner .full) d.text := by
  intro d hd
  obtain ⟨e, he, rfl⟩ := List.mem_map.1 hd
  rw [text_decoratorOf]
  exact ⟨e, h e he, rfl⟩

theorem functionOf_kept {head : FunctionHead} (h : (Stmt.function head decorators body).Kept) :
    (functionOf module scope head decorators body).Kept where
  name := h.function_head.1.name
  decorators := decorators_kept h.function_head.2
  params := by
    intro p hp
    obtain ⟨q, hq, rfl⟩ := List.mem_map.1 hp
    exact param_kept (h.function_head.1.params q hq)
  inferred := fun _ hinferred => isWritable_inferReturn hinferred

theorem isWritable_valueType {value : Option Expr} {h : Hint}
    (htype : (value.bind fun e => literalType e.kind e.text) = some h) : h.isWritable = true := by
  obtain ⟨e, -, hliteral⟩ := Option.bind_eq_some_iff.1 htype
  exact isWritable_literalType hliteral

theorem isWritable_attributesOf {a : SourceAttribute} (ha : a ∈ attributesOf module scope s) :
    ∀ h ∈ a.valueType, h.isWritable = true := by
  unfold attributesOf at ha
  split at ha
  · obtain ⟨target, -, rfl⟩ := List.mem_map.1 ha
    exact fun _ htype => isWritable_valueType htype
  · cases ha

theorem isWritable_instanceAttributes {init : SourceFunction} {a : SourceAttribute}
    (ha : a ∈ instanceAttributes scope init body) : ∀ h ∈ a.valueType, h.isWritable = true := by
  obtain ⟨p, rest, -, hfirst⟩ := (givenBy_instanceAttributes scope init body).first a ha
  obtain ⟨t, -, hdeclared⟩ := List.mem_filterMap.1 (List.mem_of_find?_eq_some hfirst)
  obtain ⟨name, -, hdeclared⟩ := Option.bind_eq_some_iff.1 hdeclared
  obtain rfl := Option.some.inj hdeclared
  exact fun _ htype => isWritable_valueType htype

theorem mem_membersOfAll (hs : s ∈ body) : s ∈ membersOfAll body := by
  rw [membersOfAll_eq]
  refine List.mem_flatMap.2 ⟨s, hs, ?_⟩
  cases s <;> simp [Stmt.members]

theorem Syntax.KeptAll.kept (h : KeptAll body) (hs : s ∈ (splitDocstring body).2) : s.Kept :=
  h s (mem_membersOfAll (subset_splitDocstring body hs))

theorem Syntax.KeptAll.inside {head : ClassHead} (h : KeptAll body) {inside : List Stmt}
    (hs : Stmt.classDef head decorators inside ∈ body) : KeptAll inside := by
  intro s hmem
  refine h s ?_
  rw [membersOfAll_eq]
  exact List.mem_flatMap.2 ⟨_, hs, by simp [Stmt.members, hmem]⟩

theorem classOf_kept {head : ClassHead} (h : (Stmt.classDef head decorators body).Kept) (hbody : KeptAll body) :
    (classOf module head decorators body).Kept where
  name := h.class_head.1.name
  decorators := decorators_kept h.class_head.2
  bases := by
    intro base hbase
    obtain ⟨a, ha, hbase⟩ := List.mem_filterMap.1 hbase
    cases a with
    | base e =>
      obtain rfl := Option.some.inj hbase
      exact ⟨e, h.class_head.1.arguments _ ha, rfl⟩
    | comment text => cases hbase
  methods := by
    intro f hf
    obtain ⟨m, hm, rfl⟩ := List.mem_map.1 hf
    obtain ⟨s, hs, hm⟩ := List.mem_filterMap.1 hm
    have hkept := hbody.kept hs
    cases s with
    | function head decorators inside =>
      obtain rfl := Option.some.inj hm
      exact functionOf_kept hkept
    | _ => cases hm
  attributes := by
    intro a ha
    rcases List.mem_append.1 ha with ha | ha
    · obtain ⟨s, -, ha⟩ := List.mem_flatMap.1 ha
      exact isWritable_attributesOf ha
    · rw [instanceAttributes_classOf] at ha
      split at ha
      · exact isWritable_instanceAttributes ha
      · cases ha

theorem declarationsOf_kept (hbody : KeptAll body) (hs : s ∈ (splitDocstring body).2) :
    ∀ d ∈ declarationsOf module s, d.Kept module := by
  have hkept := hbody.kept hs
  intro d hd
  cases s with
  | classDef head decorators inside =>
    obtain rfl := List.mem_singleton.1 hd
    exact ⟨classOf_kept hkept (hbody.inside (subset_splitDocstring body hs)), rfl⟩
  | function head decorators inside =>
    obtain rfl := List.mem_singleton.1 hd
    exact functionOf_kept hkept
  | assignment place targets typed value =>
    obtain ⟨a, ha, rfl⟩ := List.mem_map.1 hd
    refine ⟨fun text htext => ?_, isWritable_attributesOf ha⟩
    obtain ⟨target, -, rfl⟩ := List.mem_map.1 ha
    obtain ⟨e, he, rfl⟩ := Option.map_eq_some_iff.1 htext
    exact ⟨e, hkept.value e he, rfl⟩
  | _ =>
    obtain ⟨a, ha, -⟩ := List.mem_map.1 hd
    cases ha

/-- **What a module keeps of a source that is well formed can be written again.** -/
theorem SourceModule.kept_read {source : String} (h : parse? source = some body) (name path : String)
    (isPackage : Bool) : (SourceModule.read name path isPackage source).Kept := by
  intro d hd
  rw [SourceModule.read, h, Option.getD_some] at hd
  obtain ⟨s, hs, hd⟩ := List.mem_flatMap.1 hd
  exact declarationsOf_kept (kept_of_parse h) hs d hd

end Reading

end TypedStubs
