import TypedStubs.Proofs.Stub.Blend
import TypedStubs.Proofs.Stub.Meaning
import TypedStubs.Source.Reader

/-! # Marks of class attributes

An attribute that is assigned in the body of a class gets `ClassVar` around its hint, unless that is there
already.  The look for it is a look at the name of the hint in the stub: it is there if the name starts
with the word.  So a hint that is spelled so in the source is left as it is, and any other gets one layer
(`Scope.class_attributes_marked`).

A name that the module binds keeps its spelling.  What `ClassVar` means by another name, or through the
module that it comes from, gets a second layer (`aliased_marker_wrapped_again`).
-/
namespace TypedStubs

open Dotted (IsSimple head)

/-- The name of a hint: itself, or the head of a generic. -/
def Hint.ownName? : Hint → Option String
  | .name path => some path
  | .subscript head _ => some head
  | .list _ | .union _ | .literal _ => none

theorem Hint.head?_eq (h : Hint) : h.head? = h.ownName?.map head := by
  cases h <;> rfl

namespace Scope

variable {scope : Scope} {added : List Import} {dotted : String}

/-! ### The name of a hint in the stub -/

/-- A hint with the names of the stub. -/
def inStub (scope : Scope) (added : List Import) (h : Hint) : Hint := ((scope.localize h).run added).1

theorem ownName?_inStub (scope : Scope) (added : List Import) (h : Hint) :
    (scope.inStub added h).ownName? = h.ownName?.map fun p => (scope.spelling added p).text := by
  cases h with
  | name path => rfl
  | subscript head args =>
    rw [inStub, localize, Hint.mapNamesM]
    cases Hint.takesValues head <;> rfl
  | list items => rfl
  | union members => rfl
  | literal text => rfl

theorem head?_inStub (scope : Scope) (added : List Import) (h : Hint) :
    (scope.inStub added h).head? = h.ownName?.map fun p => head (scope.spelling added p).text := by
  rw [Hint.head?_eq, ownName?_inStub, Option.map_map]
  rfl

/-- Whether a dotted name stands for `target` in the other modules. -/
inductive StandsFor (scope : Scope) (dotted : String) : String → Prop where
  /-- One of them imports it. -/
  | foreign {site : ImportSite} (h : scope.foreignSite? (head dotted) = some site) :
    StandsFor scope dotted (site.stmt.absolutize site.module.package).qualified
  /-- It is a class. -/
  | ofClass {c : SourceClass} (h : scope.PicksClass dotted c) : StandsFor scope dotted c.qualified

/-- Whether a name that is looked up in the other modules is found under a name that starts with
`first`. -/
def FoundAs (scope : Scope) (added : List Import) (dotted first : String) : Prop :=
  scope.LooksUp added dotted ∧ ∃ i ∈ scope.available added, ∃ name, i.bound? = some name ∧
    head name = first ∧ scope.StandsFor dotted i.qualified

/-- A name keeps its head, unless it is a generic or found under another name. -/
theorem SpelledAs.head_cases {s : Spelling} (h : scope.SpelledAs added dotted s) :
    head s.text = head dotted ∨ scope.IsGeneric dotted s.text ∨ scope.FoundAs added dotted (head s.text) := by
  cases h with
  | own | bound | unknown => exact .inl rfl
  | generic _ hgeneric => exact .inr (.inl hgeneric)
  | @foreign site hopen hgeneric hbound hsite =>
    rw [foreignSpelling]
    split
    · next asName hreuse =>
      obtain ⟨i, hi, -, htarget, hname⟩ := boundTo?_eq_some hreuse
      refine .inr (.inr ⟨⟨hopen, hgeneric, hbound⟩, i, hi, asName, hname, ?_, ?_⟩)
      · exact (Dotted.head_cons_path asName _).symm
      · exact htarget ▸ .foreign hsite
    · exact .inl rfl
  | @ofClass c hopen hgeneric hbound _ hclass =>
    rw [classSpelling]
    split
    · exact .inl rfl
    split
    · next asName hreuse =>
      obtain ⟨i, hi, -, htarget, hname⟩ := boundTo?_eq_some hreuse
      exact .inr (.inr ⟨⟨hopen, hgeneric, hbound⟩, i, hi, asName, hname, rfl, htarget ▸ .ofClass hclass⟩)
    · exact .inl rfl

/-! ### One attribute -/

/-- The text of a class attribute: its hint, with the mark. -/
def classText (scope : Scope) (a : SourceAttribute) : Adding String := do
  let hint ← scope.localize (scope.attributeHint none a)
  scope.classVarText hint

/-- What the text of a class attribute is, whose hint is `source`, when some imports were added. -/
structure MarkedAs (scope : Scope) (added : List Import) (source : Hint) (text : String) : Prop where
  /-- It is the hint in the stub if its name starts with `ClassVar`, and has one layer of it if not. -/
  once : text = if (scope.inStub added source).head? = some "ClassVar" then (scope.inStub added source).render
    else (Hint.subscript "ClassVar" [scope.inStub added source]).render
  /-- The name `ClassVar` is left as it is. -/
  own : source.ownName? = some "ClassVar" → (scope.inStub added source).ownName? = some "ClassVar"
  /-- If the name in the stub starts with it, so does that in the source, or it is what a name that the
  module does not bind is found under. -/
  found : (scope.inStub added source).head? = some "ClassVar" → source.head? = some "ClassVar" ∨
    ∃ p ∈ source.ownName?, scope.FoundAs added p "ClassVar"
  /-- Any other name that the module binds gets a layer, whatever it means. -/
  aliased : ∀ p ∈ source.ownName?, head p ≠ "ClassVar" →
    (∃ i ∈ scope.module.imports, i.bound? = some (head p)) →
      text = (Hint.subscript "ClassVar" [scope.inStub added source]).render

theorem binds_of_mem_imports {i : Import} {name : String} (hi : i ∈ scope.module.imports)
    (hname : i.bound? = some name) (added : List Import) : scope.binds added name = true := by
  refine binds_iff.2 ⟨i.absolutize scope.module.package, ?_, by rw [Import.bound?_absolutize, hname]⟩
  simp only [available, List.mem_append, List.mem_map]
  exact .inl (.inr ⟨i, hi, rfl⟩)

/-- The name of the generic comes from that alone. -/
theorem eq_of_genericName?_standard {name : String}
    (h : Settings.standard.genericName? name = some "ClassVar") : name = "ClassVar" := by
  rw [Settings.genericName?] at h
  split at h
  · next target hlookup =>
    obtain rfl := Option.some.inj h
    obtain ⟨before, after, heq, -⟩ := List.lookup_eq_some_iff.1 hlookup
    have hmem : (name, "ClassVar") ∈ Settings.standard.genericAliases := by simp [heq]
    have hsame : "ClassVar" = "Callable" := congrArg Prod.snd (List.mem_singleton.1 hmem)
    exact absurd hsame (by decide)
  · have hsame := List.find?_some h
    exact (beq_iff_eq.1 hsame).symm

section Standard

variable (hsettings : scope.settings = .standard)

include hsettings

theorem isGeneric_marker : scope.IsGeneric "ClassVar" "ClassVar" :=
  ⟨by decide +kernel, by rw [hsettings]; decide +kernel⟩

/-- The mark is spelled in one way. -/
theorem spelling_marker (added : List Import) : (scope.spelling added "ClassVar").text = "ClassVar" := by
  have hgeneric := isGeneric_marker hsettings
  have hspelled := spelledAs_spelling scope added "ClassVar"
  generalize scope.spelling added "ClassVar" = s at hspelled ⊢
  cases hspelled with
  | own => rfl
  | generic _ h => exact (Option.some.inj (hgeneric.2.symm.trans h.2)).symm
  | bound _ h => exact absurd hgeneric (h _)
  | foreign _ h => exact absurd hgeneric (h _)
  | ofClass _ h => exact absurd hgeneric (h _)
  | unknown h => exact absurd hgeneric (h _)

theorem classText_run (a : SourceAttribute) (added : List Import) :
    ((scope.classText a).run added).1 =
      if (scope.inStub added (scope.attributeHint none a)).head? = some "ClassVar"
        then (scope.inStub added (scope.attributeHint none a)).render
        else (Hint.subscript "ClassVar" [scope.inStub added (scope.attributeHint none a)]).render := by
  have hmarker : scope.settings.classVarMarker = "ClassVar" := by rw [hsettings]; rfl
  rw [classText, StateT.run_bind]
  change ((scope.classVarText (scope.inStub added (scope.attributeHint none a))).run _).1 = _
  rw [classVarText, hmarker]
  split
  · rfl
  · change (Hint.subscript (scope.spelling _ "ClassVar").text _).render = _
    rw [spelling_marker hsettings]

/-- If a name in the stub starts with the mark, so does that in the source, or it is found so. -/
theorem head_of_spelling_marker {s : Spelling} (h : scope.SpelledAs added dotted s)
    (hhead : head s.text = "ClassVar") :
    head dotted = "ClassVar" ∨ scope.FoundAs added dotted "ClassVar" := by
  rcases h.head_cases with hsame | hgeneric | hfound
  · exact .inl (hsame.symm.trans hhead)
  · have hstandard : ∀ name generic, Settings.standard.genericName? name = some generic →
        IsSimple generic := isSimple_of_genericName? (by decide +kernel) (by decide +kernel)
    have hname := hsettings ▸ hgeneric.2
    rw [Dotted.head_of_isSimple (hstandard _ _ hname)] at hhead
    rw [hhead] at hname
    obtain rfl := eq_of_genericName?_standard hname
    exact .inl (by decide +kernel)
  · exact .inr (hhead ▸ hfound)

/-- **A class attribute is marked by the spelling of its hint.** -/
theorem classText_markedAs (a : SourceAttribute) (added : List Import) :
    scope.MarkedAs added (scope.attributeHint none a) ((scope.classText a).run added).1 := by
  have honce := classText_run hsettings a added
  generalize scope.attributeHint none a = source at honce ⊢
  have hfound : (scope.inStub added source).head? = some "ClassVar" → source.head? = some "ClassVar" ∨
      ∃ p ∈ source.ownName?, scope.FoundAs added p "ClassVar" := by
    intro hhead
    rw [head?_inStub, Option.map_eq_some_iff] at hhead
    obtain ⟨p, hp, hhead⟩ := hhead
    rcases head_of_spelling_marker hsettings (spelledAs_spelling scope added p) hhead with h | h
    · exact .inl (by rw [Hint.head?_eq, hp, Option.map_some, h])
    · exact .inr ⟨p, hp, h⟩
  refine ⟨honce, fun hown => ?_, hfound, fun p hp hne hbound => ?_⟩
  · rw [ownName?_inStub, hown, Option.map_some, spelling_marker hsettings]
  · -- a name that the module binds is not looked up elsewhere
    obtain ⟨i, hi, hname⟩ := hbound
    have hnot : (scope.inStub added source).head? ≠ some "ClassVar" := by
      intro hhead
      rcases hfound hhead with h | ⟨q, hq, hup, -⟩
      · rw [Hint.head?_eq, hp, Option.map_some, Option.some.injEq] at h
        exact hne h
      · obtain rfl := Option.some.inj (hq.symm.trans hp)
        exact absurd (binds_of_mem_imports hi hname added) (by simp [hup.2.2])
    rw [honce, if_neg hnot]

end Standard

/-! ### The attributes of a stub -/

/-- The attributes of the body of a class that are emitted. -/
def classLevel (scope : Scope) (c : SourceClass) : List SourceAttribute :=
  scope.freeAttributes (c.methods.map (·.name)) c.classAttributes

/-- The attributes that the constructor of a class gives its instances and that are emitted. -/
def instanceLevel (scope : Scope) (c : SourceClass) : List SourceAttribute :=
  scope.freeAttributes ((scope.classLevel c).map (·.name) ++ c.methods.map (·.name)) c.instanceAttributes

/-- An attribute of the body comes before one of the instances of the same name. -/
theorem name_ne_of_mem_instanceLevel {c : SourceClass} {a b : SourceAttribute}
    (ha : a ∈ scope.instanceLevel c) (hb : b ∈ scope.classLevel c) : b.name ≠ a.name := fun hname =>
  (mem_freeAttributes ha).2.2 (List.mem_append_left _ (hname ▸ List.mem_map_of_mem hb))

/-- Whether an attribute is what a scope writes for one of a class: for one of its body the marked hint,
and for one of its instances any. -/
inductive WritesMember (scope : Scope) (c : SourceClass) : StubAttribute → Prop where
  | ofClass {a : SourceAttribute} (ha : a ∈ scope.classLevel c) (added : List Import) :
    WritesMember scope c ⟨a.name, some ((scope.classText a).run added).1, none⟩
  | ofInstance {a : SourceAttribute} (ha : a ∈ scope.instanceLevel c) (text : String) :
    WritesMember scope c ⟨a.name, some text, none⟩

theorem writesMember_of_mem_attributeItems {c : SourceClass} {x : StubAttribute}
    (h : .ofAttribute x ∈ ((scope.attributeItems c).run added).1) : scope.WritesMember c x := by
  unfold attributeItems at h
  rw [StateT.run_bind] at h
  rcases List.mem_append.1 h with h | h
  · obtain ⟨a, ha, s, hitem⟩ := exists_of_forall₂ (forall₂_mapM_run (R := fun a item => ∃ s,
      item = hinted a.name ((scope.classText a).run s).1) (fun a s => ⟨s, rfl⟩) _ _) h
    obtain rfl := StubItem.ofAttribute.inj hitem
    exact .ofClass ha s
  · obtain ⟨a, ha, text, hitem⟩ := exists_of_forall₂ (forall₂_mapM_run (R := fun a item => ∃ text,
      item = hinted a.name text) (fun a s => ⟨_, rfl⟩) _ _) h
    obtain rfl := StubItem.ofAttribute.inj hitem
    exact .ofInstance ha text

end Scope

/-- Whether the attributes in an item, if it is a class, have a property that its name has a part in. -/
def StubItem.Holds (R : String → StubAttribute → Prop) : StubItem → Prop
  | .ofClass head members => ∀ x, .ofAttribute x ∈ members → R head.name x
  | .ofAttribute _ | .ofFunction _ | .verbatim _ => True

/-- An attribute stays as it is when something is merged into it. -/
theorem eq_of_mergeInto_eq {g item : StubItem} {x : StubAttribute}
    (h : mergeInto g item = .ofAttribute x) : item = .ofAttribute x := by
  cases item <;> cases g <;> simp_all [mergeInto]

theorem StubItem.Holds.mergeInto {R : String → StubAttribute → Prop} {item g : StubItem}
    (hslot : sameSlot item g = true) (hitem : item.Holds R) (hg : g.Holds R) :
    (mergeInto g item).Holds R := by
  cases item with
  | ofClass head items =>
    cases g with
    | ofClass other members =>
      have hname : head.name = other.name := Option.some.inj (name?_of_sameSlot hslot)
      simp only [TypedStubs.mergeInto]
      intro x hx
      refine forall_mem_mergeAll (P := fun item => ∀ x, item = .ofAttribute x → R head.name x)
        (fun _ h => h) (fun item g _ h _ x hx => h x (eq_of_mergeInto_eq hx)) ?_ ?_ _ hx x rfl
      · rintro _ hmember y rfl
        exact hname ▸ hg y hmember
      · rintro _ hmember y rfl
        exact hitem y hmember
    | ofAttribute _ | ofFunction _ | verbatim _ => simpa only [TypedStubs.mergeInto] using hitem
  | ofAttribute a => cases g <;> simp only [TypedStubs.mergeInto] <;> trivial
  | ofFunction f => cases g <;> simp only [TypedStubs.mergeInto] <;> trivial
  | verbatim text => cases g <;> simp only [TypedStubs.mergeInto] <;> trivial

namespace Scope

variable {scope : Scope}

/-- Whether an item is a class, named after `c`, with attributes that are written for those of `c`. -/
def WritesMembers (scope : Scope) (c : SourceClass) (item : StubItem) : Prop :=
  ∃ head members, item = .ofClass head members ∧ head.name = c.name ∧
    ∀ x, .ofAttribute x ∈ members → scope.WritesMember c x

theorem writesMembers_classItem (scope : Scope) (tally : Tally) (c : SourceClass) (added : List Import) :
    scope.WritesMembers c ((scope.classItem tally c).run added).1.1 := by
  obtain ⟨head, added₁, added₂, hname, hitem, -⟩ := scope.exists_classItem_run tally c added
  refine ⟨head, _, hitem, hname, fun x hx => ?_⟩
  rcases List.mem_append.1 hx with hx | hx
  · exact writesMember_of_mem_attributeItems hx
  · obtain ⟨f, -, hf⟩ := List.mem_map.1 hx
    cases hf

/-- Whether an attribute of a class is what is written for an attribute of a class of that name that is
left in. -/
def FromMember (scope : Scope) (name : String) (x : StubAttribute) : Prop :=
  ∃ c ∈ scope.keptClassesNamed name, scope.WritesMember c x

theorem WritesMembers.holds {c : SourceClass} {item : StubItem} (hc : c ∈ scope.keptClasses)
    (h : scope.WritesMembers c item) : item.Holds scope.FromMember := by
  obtain ⟨head, members, rfl, hname, hmembers⟩ := h
  intro x hx
  exact ⟨c, List.mem_filter.2 ⟨hc, by simp [hname]⟩, hmembers x hx⟩

end Scope

/-- **An attribute of a class of a fresh stub is written for one of the class.** -/
theorem fromMember_of_mem_fresh (settings : Settings) (index : SourceIndex) (module : SourceModule) :
    let scope := Scope.onto settings index module .empty
    ∀ item ∈ (buildStub settings index module .empty).1.items, item.Holds scope.FromMember := by
  intro scope
  obtain ⟨attributes, hattributes, hfirst⟩ := scope.exists_assignments (.start [])
  obtain ⟨classes, hclasses, hsecond⟩ :=
    scope.exists_classes_of scope.writesMembers_classItem ((Emission.start []).assignments scope)
  obtain ⟨functions, hfunctions, hthird⟩ :=
    scope.exists_functions (((Emission.start []).assignments scope).classes scope)
  have hitems : (buildStub settings index module .empty).1.items =
      mergeAll (attributes ++ classes ++ functions.map .ofFunction) [] :=
    ((hfirst.trans hsecond).trans hthird).items
  rw [hitems]
  refine forall_mem_mergeAll (fun _ hg => hg) (fun item g hslot h hg => h.mergeInto hslot hg) ?_ nofun
  intro item hitem
  rw [List.mem_append, List.mem_append, List.mem_map] at hitem
  rcases hitem with (hitem | hitem) | ⟨built, -, rfl⟩
  · obtain ⟨a, -, hint, value, rfl⟩ := Scope.exists_of_forall₂ hattributes hitem
    trivial
  · obtain ⟨c, hc, h⟩ := Scope.exists_of_forall₂ hclasses hitem
    exact h.holds hc
  · trivial

/-- **Class attributes are marked once, by the spelling of their hints.**  An attribute of a class of a
fresh stub is one that the constructor gives the instances of a class of that name, with none of that name
in the body of the class, or one of the body of such a class.  The text of the latter is its hint in the stub, if the name of that starts with `ClassVar`,
and else has one layer of it.  A hint that is spelled `ClassVar` in the source has a name that starts with
it; any other has none, unless the module does not bind its name and that is found under another.  So a
name by which the module imports something else gets a layer, even if it means `ClassVar`. -/
theorem class_attributes_marked (index : SourceIndex) (module : SourceModule) :
    let scope := Scope.onto .standard index module .empty
    ∀ head members, .ofClass head members ∈ (buildStub .standard index module .empty).1.items →
      ∀ x, .ofAttribute x ∈ members → ∃ c ∈ scope.keptClassesNamed head.name,
        ((∃ a ∈ scope.instanceLevel c, a.name = x.name) ∧ ∀ b ∈ scope.classLevel c, b.name ≠ x.name) ∨
        ∃ a ∈ scope.classLevel c, a.name = x.name ∧ ∃ added text, x.hintText = some text ∧
          scope.MarkedAs added (scope.attributeHint none a) text := by
  intro scope head members hitem x hx
  obtain ⟨c, hc, hwrites⟩ := fromMember_of_mem_fresh .standard index module _ hitem x hx
  refine ⟨c, hc, ?_⟩
  cases hwrites with
  | ofInstance ha text =>
    exact .inl ⟨⟨_, ha, rfl⟩, fun b hb => Scope.name_ne_of_mem_instanceLevel ha hb⟩
  | @ofClass a ha added =>
    exact .inr ⟨a, ha, rfl, added, _, rfl, Scope.classText_markedAs rfl a added⟩

/-- A module with some imports and a class that has one attribute. -/
def oneClassVar (imports : List Import) (hintText : Option String) : SourceModule where
  name := "m"
  path := "m.py"
  isPackage := false
  docstring := none
  imports := imports
  declarations := [.ofClass {
    name := "A"
    qualified := "m.A"
    module := "m"
    decorators := []
    docstring := none
    bases := []
    classAttributes := [⟨"x", "m.A.x", "m", hintText, some "1", some (.name "int"), none⟩]
    instanceAttributes := []
    methods := [] }]

example : SourceModule.read "m" "m.py" false "import typing\nclass A:\n    x: typing.ClassVar[int] = 1\n" =
    oneClassVar [.module "typing" none] (some "typing.ClassVar[int]") := by
  decide +kernel

/-- An attribute without an annotation. -/
theorem class_attributes_marked_plain :
    let index : SourceIndex := ⟨[oneClassVar [] none]⟩
    let scope := Scope.onto .standard index (oneClassVar [] none) .empty
    .ofClass ⟨"A", [], []⟩ [.ofAttribute ⟨"x", some "ClassVar[int]", none⟩] ∈
        (buildStub .standard index (oneClassVar [] none) .empty).1.items ∧
      ∃ c ∈ scope.keptClassesNamed "A", ∃ a ∈ scope.classLevel c, a.name = "x" ∧
        ∃ added, scope.MarkedAs added (scope.attributeHint none a) "ClassVar[int]" := by
  have hitems : (buildStub .standard ⟨[oneClassVar [] none]⟩ (oneClassVar [] none) .empty).1.items =
      [.ofClass ⟨"A", [], []⟩ [.ofAttribute ⟨"x", some "ClassVar[int]", none⟩]] := rfl
  intro index scope
  have hitem : .ofClass ⟨"A", [], []⟩ [.ofAttribute ⟨"x", some "ClassVar[int]", none⟩] ∈
      (buildStub .standard index (oneClassVar [] none) .empty).1.items := hitems ▸ List.mem_singleton_self _
  obtain ⟨c, hc, h⟩ := class_attributes_marked index (oneClassVar [] none) _ _ hitem _
    (List.mem_singleton_self _)
  refine ⟨hitem, c, hc, ?_⟩
  rcases h with ⟨⟨a, ha, -⟩, -⟩ | ⟨a, ha, hname, added, text, htext, hmarked⟩
  · -- the class gives its instances no attribute
    obtain rfl := List.mem_singleton.1 hc
    cases ha
  · obtain rfl := Option.some.inj htext
    exact ⟨a, ha, hname, added, hmarked⟩

/-- **What `ClassVar` means by another name is wrapped again**, through the module that it comes from and
by the name that the module imports it under.  By its own name it is left as it is. -/
theorem aliased_marker_wrapped_again :
    let body (imports : List Import) (text : String) : String :=
      let m := oneClassVar imports (some text)
      (buildStub .standard ⟨[m]⟩ m .empty).1.body
    body [.module "typing" none] "typing.ClassVar[int]" = "class A:\n    x: ClassVar[typing.ClassVar[int]]\n" ∧
      body [.member "typing" "ClassVar" (some "CV")] "CV[int]" = "class A:\n    x: ClassVar[CV[int]]\n" ∧
      body [.member "typing" "ClassVar" none] "ClassVar[int]" = "class A:\n    x: ClassVar[int]\n" := by
  decide +kernel

end TypedStubs
