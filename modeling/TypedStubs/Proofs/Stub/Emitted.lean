import TypedStubs.Proofs.Stub.Written

/-! # What is emitted

A stage merges one item after the other into those that are there.  `Emission.Adds` says this of a step
and of a run, and `Scope.exists_emitted` of a whole emission: what it merges in is exactly what the scope
writes for the declarations that are left in, attributes first, then classes, then functions.

An item that finds its slot taken adds no name, and one that does not keeps its own, so the names of a
stub are those it had and those of what is merged in (`mem_names_mergeAll`).  `buildStub_exact` puts this
together: nothing that is left in gets lost, what cannot be written is noted, and nothing that is left
out gets in.
-/
namespace TypedStubs

/-! ### Slots -/

theorem changeFirst_cases {α : Type} (p : α → Bool) (f : α → α) (new : α) (xs : List α) :
    (∃ before x after, xs = before ++ x :: after ∧ p x = true ∧ (∀ y ∈ before, p y = false) ∧
      changeFirst p f new xs = before ++ f x :: after) ∨
    (∀ y ∈ xs, p y = false) ∧ changeFirst p f new xs = xs ++ [new] := by
  induction xs with
  | nil => exact .inr ⟨nofun, rfl⟩
  | cons x xs ih =>
    unfold changeFirst
    by_cases hx : p x = true
    · exact .inl ⟨[], x, xs, rfl, hx, nofun, by rw [if_pos hx]; rfl⟩
    · rw [if_neg hx]
      have hnot : p x = false := Bool.eq_false_iff.2 hx
      rcases ih with ⟨before, y, after, rfl, hy, hbefore, heq⟩ | ⟨hnone, heq⟩
      · exact .inl ⟨x :: before, y, after, rfl, hy, List.forall_mem_cons.2 ⟨hnot, hbefore⟩,
          by rw [heq]; rfl⟩
      · exact .inr ⟨List.forall_mem_cons.2 ⟨hnot, hnone⟩, by rw [heq]; rfl⟩

theorem mergeAll_cons (generated : StubItem) (more items : List StubItem) :
    mergeAll (generated :: more) items = mergeAll more (mergeItem items generated) := by
  simp only [mergeAll, mergeItem]

theorem mergeAll_nil (items : List StubItem) : mergeAll [] items = items := by
  simp only [mergeAll]

theorem mergeAll_append (first more items : List StubItem) :
    mergeAll (first ++ more) items = mergeAll more (mergeAll first items) := by
  induction first generalizing items with
  | nil => rw [mergeAll_nil, List.nil_append]
  | cons g first ih => rw [List.cons_append, mergeAll_cons, mergeAll_cons, ih]

/-- What holds of items holds still when one is merged in, if it holds of that one and is kept where it finds
its slot taken. -/
theorem forall_mem_mergeItem {P : StubItem → Prop} {items : List StubItem} {g : StubItem}
    (hitems : ∀ item ∈ items, P item) (hg : P g)
    (hinto : ∀ x ∈ items, sameSlot x g = true → P (mergeInto g x)) : ∀ item ∈ mergeItem items g, P item := by
  intro item hitem
  unfold mergeItem at hitem
  rcases changeFirst_cases (sameSlot · g) (mergeInto g) g items with
    ⟨before, x, after, rfl, hx, -, heq⟩ | ⟨-, heq⟩
  · rw [heq, List.mem_append, List.mem_cons] at hitem
    rcases hitem with hitem | rfl | hitem
    · exact hitems item (by simp [hitem])
    · exact hinto x (by simp) hx
    · exact hitems item (by simp [hitem])
  · rw [heq, List.mem_append, List.mem_singleton] at hitem
    rcases hitem with hitem | heq
    · exact hitems item hitem
    · exact heq ▸ hg

/-- What holds of items holds still after a merge, if it holds of what is generated and is kept where
that finds its slot taken. -/
theorem forall_mem_mergeAll {P Q : StubItem → Prop} {generated items : List StubItem}
    (hnew : ∀ g, Q g → P g)
    (hinto : ∀ item g : StubItem, sameSlot item g = true → P item → Q g → P (mergeInto g item))
    (hgenerated : ∀ g ∈ generated, Q g) (hitems : ∀ item ∈ items, P item) :
    ∀ item ∈ mergeAll generated items, P item := by
  induction generated generalizing items with
  | nil => rwa [mergeAll_nil]
  | cons g more ih =>
    obtain ⟨hg, hmore⟩ := List.forall_mem_cons.1 hgenerated
    rw [mergeAll_cons]
    exact ih hmore (forall_mem_mergeItem hitems (hnew g hg) fun x hx hslot => hinto x g hslot (hitems x hx) hg)

/-- A merge keeps the name of what is there. -/
theorem name?_mergeInto (generated existing : StubItem) :
    (mergeInto generated existing).name? = existing.name? := by
  cases generated <;> cases existing <;> simp [mergeInto, StubItem.name?, StubFunction.merge]

/-- What is in the slot of an item has its name. -/
theorem name?_of_sameSlot {existing generated : StubItem} (h : sameSlot existing generated = true) :
    existing.name? = generated.name? := by
  cases existing <;> cases generated <;> simp_all [sameSlot, StubItem.name?]

theorem mem_names_mergeItem {items : List StubItem} {generated : StubItem} {name : String} :
    name ∈ (mergeItem items generated).filterMap (·.name?) ↔
      name ∈ items.filterMap (·.name?) ∨ generated.name? = some name := by
  unfold mergeItem
  rcases changeFirst_cases (sameSlot · generated) (mergeInto generated) generated items with
    ⟨before, x, after, rfl, hx, -, heq⟩ | ⟨-, heq⟩
  · rw [heq, ← name?_of_sameSlot hx]
    simp only [List.filterMap_append, List.filterMap_cons, name?_mergeInto]
    cases x.name? with
    | none => simp
    | some other =>
      simp only [List.mem_append, List.mem_cons, Option.some.injEq, eq_comm (a := other)]
      tauto
  · rw [heq]
    simp [List.filterMap_append]

/-- **The names after a merge are those that were there and those that are merged in.** -/
theorem mem_names_mergeAll {generated items : List StubItem} {name : String} :
    name ∈ (mergeAll generated items).filterMap (·.name?) ↔
      name ∈ items.filterMap (·.name?) ∨ name ∈ generated.filterMap (·.name?) := by
  induction generated generalizing items with
  | nil => simp [mergeAll_nil]
  | cons g more ih =>
    rw [mergeAll_cons, ih, mem_names_mergeItem, or_assoc, List.filterMap_cons]
    cases hname : g.name? <;> simp [eq_comm]

/-! ### Stages -/

/-- Whether one emission is another with some items merged in and some failures noted, both in their
order. -/
structure Emission.Adds (e later : Emission) (items : List StubItem) (failed : List String) :
    Prop where
  /-- The items are merged in. -/
  items : later.items = mergeAll items e.items
  /-- The failures are noted behind those that were. -/
  failed : later.tally.failed = e.tally.failed ++ failed

namespace Emission

variable {e later last : Emission} {items more : List StubItem} {failed further : List String}

theorem Adds.refl (e : Emission) : e.Adds e [] [] := ⟨(mergeAll_nil _).symm, (List.append_nil _).symm⟩

theorem Adds.trans (h : e.Adds later items failed) (h' : later.Adds last more further) :
    e.Adds last (items ++ more) (failed ++ further) where
  items := by rw [h'.items, h.items, mergeAll_append]
  failed := by rw [h'.failed, h.failed, List.append_assoc]

/-- Steps that each merge in what they write make a run that merges in all of it. -/
theorem exists_adds_foldl {α : Type} (Writes : α → StubItem → Prop) (fails : α → List String)
    {step : Emission → α → Emission}
    (hstep : ∀ (e : Emission) (a : α), ∃ item, Writes a item ∧ e.Adds (step e a) [item] (fails a))
    (xs : List α) (e : Emission) : ∃ items, List.Forall₂ Writes xs items ∧
      e.Adds (xs.foldl step e) items (xs.flatMap fails) := by
  induction xs generalizing e with
  | nil => exact ⟨[], .nil, .refl e⟩
  | cons x xs ih =>
    obtain ⟨item, hitem, hfirst⟩ := hstep e x
    obtain ⟨items, hitems, hrest⟩ := ih (step e x)
    exact ⟨item :: items, .cons hitem hitems, hfirst.trans hrest⟩

theorem adds_merge (e : Emission) (item : StubItem) : e.Adds (e.merge item) [item] [] where
  items := by
    rw [mergeAll_cons, mergeAll_nil]
    rfl
  failed := (List.append_nil _).symm

theorem adds_foldl_merge (fs : List StubFunction) (e : Emission) :
    e.Adds (fs.foldl (fun e f => e.merge (.ofFunction f)) e) (fs.map .ofFunction) [] := by
  induction fs generalizing e with
  | nil => exact .refl e
  | cons f fs ih => exact (e.adds_merge _).trans (ih _)

end Emission

namespace Scope

theorem exists_assignments (scope : Scope) (e : Emission) :
    ∃ items, List.Forall₂ IsAttribute (scope.module.attributes.filter (!scope.skips ·)) items ∧
      e.Adds (e.assignments scope) items [] := by
  have hnone : ((scope.module.attributes.filter (!scope.skips ·)).flatMap fun _ => []) =
      ([] : List String) := List.flatMap_eq_nil_iff.2 fun _ _ => rfl
  rw [← hnone]
  refine Emission.exists_adds_foldl IsAttribute _ (fun e a => ?_) _ e
  exact ⟨_, scope.isAttribute_moduleAttribute a e.added, (Emission.adds_merge _ _).items,
    (List.append_nil _).symm⟩

/-- The classes that are left in. -/
def keptClasses (scope : Scope) : List SourceClass :=
  scope.module.classes.filter fun c => !scope.excludes c.name c.qualified

/-- The classes that are left in are merged in, each as what it is written as. -/
theorem exists_classes_of (scope : Scope) {R : SourceClass → StubItem → Prop}
    (hR : ∀ tally c added, R c ((scope.classItem tally c).run added).1.1) (e : Emission) :
    ∃ items, List.Forall₂ R scope.keptClasses items ∧
      e.Adds (e.classes scope) items
        (scope.keptClasses.flatMap fun c => scope.failing (some c) c.methods) := by
  refine Emission.exists_adds_foldl R _ (fun e c => ?_) scope.keptClasses e
  have hadds := Emission.adds_merge
    ⟨e.items, ((scope.classItem e.tally c).run e.added).2, ((scope.classItem e.tally c).run e.added).1.2⟩
    ((scope.classItem e.tally c).run e.added).1.1
  exact ⟨_, hR e.tally c e.added, hadds.items, (scope.writesClass_classItem e.tally c e.added).2⟩

theorem exists_classes (scope : Scope) (e : Emission) :
    ∃ items, List.Forall₂ scope.WritesClass scope.keptClasses items ∧
      e.Adds (e.classes scope) items
        (scope.keptClasses.flatMap fun c => scope.failing (some c) c.methods) :=
  scope.exists_classes_of (fun tally c added => (scope.writesClass_classItem tally c added).1) e

theorem exists_functions (scope : Scope) (e : Emission) :
    ∃ built, List.Forall₂ (scope.WritesFunction none)
        (scope.module.functions.filter (scope.emits none)) built ∧
      e.Adds (e.functions scope) (built.map .ofFunction)
        (scope.failing none scope.module.functions) := by
  obtain ⟨hbuilt, hfailed⟩ := scope.functionItems_spec none e.tally scope.module.functions e.added
  refine ⟨_, hbuilt, (Emission.adds_foldl_merge _ _).items, ?_⟩
  exact ((Emission.adds_foldl_merge _ _).failed.trans (List.append_nil _)).trans hfailed

/-- The qualified names of all functions and methods that are left in and cannot be written. -/
def failures (scope : Scope) : List String :=
  (scope.keptClasses.flatMap fun c => scope.failing (some c) c.methods) ++
    scope.failing none scope.module.functions

/-- Whether items and functions are what is written for the declarations that are left in, in their
order. -/
structure WritesAll (scope : Scope) (attributes classes : List StubItem)
    (functions : List StubFunction) : Prop where
  /-- The attributes. -/
  attributes : List.Forall₂ IsAttribute (scope.module.attributes.filter (!scope.skips ·)) attributes
  /-- The classes. -/
  classes : List.Forall₂ scope.WritesClass scope.keptClasses classes
  /-- The functions that can be written. -/
  functions : List.Forall₂ (scope.WritesFunction none)
    (scope.module.functions.filter (scope.emits none)) functions

/-- **An emission merges in what is written for the declarations that are left in.** -/
theorem exists_emitted (scope : Scope) (e : Emission) :
    ∃ attributes classes functions, scope.WritesAll attributes classes functions ∧
      e.Adds (Stage.all.foldl (Stage.emit scope) e)
        (attributes ++ classes ++ functions.map .ofFunction) scope.failures := by
  obtain ⟨attributes, hattributes, hfirst⟩ := scope.exists_assignments e
  obtain ⟨classes, hclasses, hsecond⟩ := scope.exists_classes (e.assignments scope)
  obtain ⟨functions, hfunctions, hthird⟩ :=
    scope.exists_functions ((e.assignments scope).classes scope)
  exact ⟨attributes, classes, functions, ⟨hattributes, hclasses, hfunctions⟩,
    (hfirst.trans hsecond).trans hthird⟩

end Scope

/-! ### What is left out -/

/-- Whether the settings leave a declaration in, by its simple and by its qualified name. -/
def Settings.Admits (s : Settings) (name qualified : String) : Prop :=
  name ∉ s.excludedNames ∧ qualified ∉ s.excludedNames

/-- Whether the settings leave an attribute in. -/
structure Settings.AdmitsAttribute (s : Settings) (a : SourceAttribute) : Prop where
  /-- Its names are. -/
  names : s.Admits a.name a.qualified
  /-- It is no excluded attribute. -/
  name : a.name ∉ s.excludedAttributes
  /-- It does not hold a logger. -/
  value : ∀ value, a.value = some value → s.makesLogger value = false

/-- Whether a name is that of an attribute that is left in. -/
def Settings.NamesAttribute (s : Settings) (as : List SourceAttribute) (name : String) : Prop :=
  ∃ a ∈ as, a.name = name ∧ s.AdmitsAttribute a

/-- Whether a name is that of a function that is left in. -/
def Settings.NamesFunction (s : Settings) (fs : List SourceFunction) (name : String) : Prop :=
  ∃ f ∈ fs, f.name = name ∧ s.Admits f.name f.qualified

/-- Whether a name is that of a class that is left in. -/
def Settings.NamesClass (s : Settings) (cs : List SourceClass) (name : String) : Prop :=
  ∃ c ∈ cs, c.name = name ∧ s.Admits c.name c.qualified

/-- Whether an item is named after an attribute or a method of a class that is left in. -/
def SourceClass.Declares (s : Settings) (c : SourceClass) : StubItem → Prop
  | .ofAttribute a => s.NamesAttribute (c.classAttributes ++ c.instanceAttributes) a.name
  | .ofFunction f => s.NamesFunction c.methods f.name
  | .ofClass _ _ | .verbatim _ => False

/-- Whether an item is named after a declaration of a module that is left in, and its members, if it is
a class, after members of classes of its name. -/
def SourceModule.Declares (s : Settings) (m : SourceModule) : StubItem → Prop
  | .ofAttribute a => s.NamesAttribute m.attributes a.name
  | .ofFunction f => s.NamesFunction m.functions f.name
  | .ofClass head items => s.NamesClass m.classes head.name ∧
    ∀ item ∈ items, ∃ c ∈ m.classes, c.name = head.name ∧ s.Admits c.name c.qualified ∧
      c.Declares s item
  | .verbatim _ => False

theorem Scope.excludes_eq_false_iff {scope : Scope} {name qualified : String} :
    scope.excludes name qualified = false ↔ scope.settings.Admits name qualified := by
  simp only [Scope.excludes, Settings.excludesName, Settings.Admits, List.any_eq_false,
    Bool.or_eq_true, beq_iff_eq, not_or]
  constructor
  · intro h
    exact ⟨fun hmem => (h _ hmem).1 rfl, fun hmem => (h _ hmem).2 rfl⟩
  · rintro ⟨hname, hqualified⟩ n hn
    exact ⟨fun heq => hname (heq ▸ hn), fun heq => hqualified (heq ▸ hn)⟩

theorem Scope.skips_eq_false_iff {scope : Scope} {a : SourceAttribute} :
    scope.skips a = false ↔ scope.settings.AdmitsAttribute a := by
  have hvalue : a.value.any scope.settings.makesLogger = false ↔
      ∀ value, a.value = some value → scope.settings.makesLogger value = false := by
    cases a.value <;> simp
  simp only [Scope.skips, Bool.or_eq_false_iff, Scope.excludes_eq_false_iff, hvalue,
    Settings.excludesAttribute, List.contains_eq_mem, decide_eq_false_iff_not]
  exact ⟨fun ⟨⟨hnames, hname⟩, hvalue⟩ => ⟨hnames, hname, hvalue⟩,
    fun h => ⟨⟨h.names, h.name⟩, h.value⟩⟩

theorem SourceClass.Declares.mergeInto {s : Settings} {c : SourceClass} {item : StubItem}
    (h : c.Declares s item) (generated : StubItem) : c.Declares s (mergeInto generated item) := by
  cases item with
  | ofAttribute a => cases generated <;> simpa only [TypedStubs.mergeInto] using h
  | ofFunction f => cases generated <;> simp only [TypedStubs.mergeInto] <;> exact h
  | ofClass head items => exact h.elim
  | verbatim text => exact h.elim

theorem SourceModule.Declares.mergeInto {s : Settings} {m : SourceModule} {item generated : StubItem}
    (h : m.Declares s item) (hgenerated : m.Declares s generated)
    (hslot : sameSlot item generated = true) : m.Declares s (mergeInto generated item) := by
  cases item with
  | ofAttribute a => cases generated <;> simpa only [TypedStubs.mergeInto] using h
  | ofFunction f => cases generated <;> simp only [TypedStubs.mergeInto] <;> exact h
  | verbatim text => exact h.elim
  | ofClass head items =>
    cases generated with
    | ofClass other members =>
      have hname : head.name = other.name := Option.some.inj (name?_of_sameSlot hslot)
      simp only [TypedStubs.mergeInto]
      -- members are merged as items are, and both classes have the name that members refer to
      refine ⟨h.1, forall_mem_mergeAll (fun _ hg => hg) ?_ ?_ h.2⟩
      · rintro item g - ⟨c, hc, hcname, hadmits, hdeclares⟩ -
        exact ⟨c, hc, hcname, hadmits, hdeclares.mergeInto g⟩
      · exact fun member hmember => hname ▸ hgenerated.2 member hmember
    | ofAttribute _ | ofFunction _ | verbatim _ => simpa only [TypedStubs.mergeInto] using h

section Fresh

variable {scope : Scope} {item : StubItem}

theorem Scope.namesAttribute {as : List SourceAttribute} {a : SourceAttribute} (ha : a ∈ as)
    (hskips : scope.skips a = false) : scope.settings.NamesAttribute as a.name :=
  ⟨a, ha, rfl, skips_eq_false_iff.1 hskips⟩

theorem Scope.WritesFunction.namesFunction {owner : Option SourceClass} {fs : List SourceFunction}
    {f : SourceFunction} {built : StubFunction} (h : scope.WritesFunction owner f built)
    (hf : f ∈ fs.filter (scope.emits owner)) : scope.settings.NamesFunction fs built.name := by
  obtain ⟨hf, hemits⟩ := List.mem_filter.1 hf
  have hkept : scope.excludes f.name f.qualified = false := by
    simpa using (Bool.and_eq_true_iff.1 hemits).1
  exact ⟨f, hf, h.frameOf.name.symm, excludes_eq_false_iff.1 hkept⟩

theorem Scope.declares_of_isAttribute {a : SourceAttribute}
    (ha : a ∈ scope.module.attributes.filter (!scope.skips ·)) (h : IsAttribute a item) :
    scope.module.Declares scope.settings item := by
  obtain ⟨hint, value, rfl⟩ := h
  obtain ⟨ha, hskips⟩ := List.mem_filter.1 ha
  exact namesAttribute ha (by simpa using hskips)

theorem Scope.declares_of_writesClass {c : SourceClass} (hc : c ∈ scope.keptClasses)
    (h : scope.WritesClass c item) : scope.module.Declares scope.settings item := by
  obtain ⟨head, attributes, methods, rfl, hname, hattributes, hmethods⟩ := h
  obtain ⟨hc, hkept⟩ := List.mem_filter.1 hc
  have hadmits : scope.settings.Admits c.name c.qualified :=
    excludes_eq_false_iff.1 (by simpa using hkept)
  refine ⟨⟨c, hc, hname.symm, hadmits⟩, fun member hmember => ⟨c, hc, hname.symm, hadmits, ?_⟩⟩
  rcases List.mem_append.1 hmember with h | h
  · obtain ⟨d, hd, hskips, hint, value, rfl⟩ := hattributes member h
    exact namesAttribute hd hskips
  · obtain ⟨built, hbuilt, rfl⟩ := List.mem_map.1 h
    obtain ⟨f, hf, hwrites⟩ := exists_of_forall₂ hmethods hbuilt
    exact hwrites.namesFunction hf

/-- The items of a fresh stub are what is written, merged into nothing. -/
theorem exists_fresh (settings : Settings) (index : SourceIndex) (module : SourceModule) :
    let scope := Scope.onto settings index module .empty
    ∃ attributes classes functions, scope.WritesAll attributes classes functions ∧
      (buildStub settings index module .empty).1.items =
        mergeAll (attributes ++ classes ++ functions.map .ofFunction) [] := by
  intro scope
  obtain ⟨attributes, classes, functions, hall, hadds⟩ := scope.exists_emitted (.start [])
  exact ⟨attributes, classes, functions, hall, hadds.items⟩

/-- Every item of a fresh stub is named after a declaration that is left in. -/
theorem declares_of_mem_fresh (settings : Settings) (index : SourceIndex) (module : SourceModule) :
    ∀ item ∈ (buildStub settings index module .empty).1.items, module.Declares settings item := by
  let scope := Scope.onto settings index module .empty
  obtain ⟨attributes, classes, functions, hall, hitems⟩ := exists_fresh settings index module
  rw [hitems]
  refine forall_mem_mergeAll (fun _ hg => hg) (fun item g hslot h hg => h.mergeInto hg hslot) ?_ nofun
  intro item hitem
  rw [List.mem_append, List.mem_append, List.mem_map] at hitem
  rcases hitem with (hitem | hitem) | ⟨built, hbuilt, rfl⟩
  · obtain ⟨a, ha, h⟩ := Scope.exists_of_forall₂ hall.attributes hitem
    exact scope.declares_of_isAttribute ha h
  · obtain ⟨c, hc, h⟩ := Scope.exists_of_forall₂ hall.classes hitem
    exact scope.declares_of_writesClass hc h
  · obtain ⟨f, hf, h⟩ := Scope.exists_of_forall₂ hall.functions hbuilt
    exact h.namesFunction hf

theorem Settings.NamesAttribute.not_mem {s : Settings} {as : List SourceAttribute} {name : String}
    (h : s.NamesAttribute as name) : name ∉ s.excludedNames := by
  obtain ⟨a, -, rfl, hadmits⟩ := h
  exact hadmits.names.1

theorem Settings.NamesFunction.not_mem {s : Settings} {fs : List SourceFunction} {name : String}
    (h : s.NamesFunction fs name) : name ∉ s.excludedNames := by
  obtain ⟨f, -, rfl, hadmits⟩ := h
  exact hadmits.1

theorem Settings.NamesClass.not_mem {s : Settings} {cs : List SourceClass} {name : String}
    (h : s.NamesClass cs name) : name ∉ s.excludedNames := by
  obtain ⟨c, -, rfl, hadmits⟩ := h
  exact hadmits.1

/-- An item that is named after a declaration has no excluded name. -/
theorem SourceModule.Declares.not_mem {s : Settings} {m : SourceModule} (h : m.Declares s item)
    {name : String} (hname : item.name? = some name) : name ∉ s.excludedNames := by
  cases item with
  | ofAttribute a => exact Option.some.inj hname ▸ h.not_mem
  | ofFunction f => exact Option.some.inj hname ▸ h.not_mem
  | ofClass head items => exact Option.some.inj hname ▸ h.1.not_mem
  | verbatim text => cases hname

/-- Nor has a member of a class. -/
theorem SourceModule.Declares.member_not_mem {s : Settings} {m : SourceModule} {head : StubClass}
    {members : List StubItem} (h : m.Declares s (.ofClass head members)) (hitem : item ∈ members)
    {name : String} (hname : item.name? = some name) : name ∉ s.excludedNames := by
  obtain ⟨c, -, -, -, hdeclares⟩ := h.2 item hitem
  cases item with
  | ofAttribute a => exact Option.some.inj hname ▸ hdeclares.not_mem
  | ofFunction f => exact Option.some.inj hname ▸ hdeclares.not_mem
  | ofClass head items => exact hdeclares.elim
  | verbatim text => cases hname

end Fresh

/-! ### Exactness -/

theorem filterMap_of_forall₂ {α β γ : Type} {R : α → β → Prop} {f : α → γ} {g : β → Option γ}
    {xs : List α} {ys : List β} (h : List.Forall₂ R xs ys) (hR : ∀ x y, R x y → g y = some (f x)) :
    ys.filterMap g = xs.map f := by
  induction h with
  | nil => rfl
  | cons hx _ ih => rw [List.filterMap_cons_some (hR _ _ hx), ih, List.map_cons]

section Names

variable {scope : Scope} {items : List StubItem} {name : String}

theorem Scope.mem_names_attributes (scope : Scope)
    (h : List.Forall₂ IsAttribute (scope.module.attributes.filter (!scope.skips ·)) items) :
    name ∈ items.filterMap (·.name?) ↔
      scope.settings.NamesAttribute scope.module.attributes name := by
  have hname (a item) (ha : IsAttribute a item) : item.name? = some a.name := by
    obtain ⟨hint, value, rfl⟩ := ha
    rfl
  rw [filterMap_of_forall₂ h hname]
  simp only [List.mem_map, List.mem_filter, Bool.not_eq_true', skips_eq_false_iff, and_assoc,
    Settings.NamesAttribute, and_comm (a := SourceAttribute.name _ = name)]

theorem Scope.mem_names_classes (scope : Scope)
    (h : List.Forall₂ scope.WritesClass scope.keptClasses items) :
    name ∈ items.filterMap (·.name?) ↔ scope.settings.NamesClass scope.module.classes name := by
  have hname (c item) (hc : scope.WritesClass c item) : item.name? = some c.name := by
    obtain ⟨head, attributes, methods, rfl, hhead, -⟩ := hc
    exact congrArg some hhead
  rw [filterMap_of_forall₂ h hname]
  simp only [keptClasses, List.mem_map, List.mem_filter, Bool.not_eq_true', excludes_eq_false_iff,
    and_assoc, Settings.NamesClass, and_comm (a := SourceClass.name _ = name)]

theorem Scope.mem_names_functions (scope : Scope) {built : List StubFunction}
    (h : List.Forall₂ (scope.WritesFunction none)
      (scope.module.functions.filter (scope.emits none)) built) :
    name ∈ (built.map StubItem.ofFunction).filterMap (·.name?) ↔
      ∃ f ∈ scope.module.functions, f.name = name ∧ scope.settings.Admits f.name f.qualified ∧
        scope.writable none f = true := by
  have hname (f b) (hb : scope.WritesFunction none f b) :
      ((·.name?) ∘ StubItem.ofFunction) b = some f.name := congrArg some hb.frameOf.name
  rw [List.filterMap_map, filterMap_of_forall₂ h hname]
  simp only [emits, List.mem_map, List.mem_filter, Bool.and_eq_true, Bool.not_eq_true',
    excludes_eq_false_iff, and_assoc, and_comm (a := SourceFunction.name _ = name)]

end Names

/-- **Emission is exact.**  The names of a stub are those of the items it had and of the declarations
that are left in, functions that cannot be written apart; these are noted as failed.  A fresh stub has
nothing that is not declared or that is left out. -/
theorem buildStub_exact (settings : Settings) (index : SourceIndex) (module : SourceModule)
    (existing : Stub) :
    let scope := Scope.onto settings index module existing
    let (built, tally) := buildStub settings index module existing
    (∀ owner f added, ((scope.function f owner).run.run added).1.isOk = scope.writable owner f) ∧
    (∀ name, name ∈ built.items.filterMap (·.name?) ↔
      name ∈ existing.items.filterMap (·.name?) ∨
      settings.NamesAttribute module.attributes name ∨
      settings.NamesClass module.classes name ∨
      ∃ f ∈ module.functions, f.name = name ∧ settings.Admits f.name f.qualified ∧
        scope.writable none f = true) ∧
    tally.failed = scope.failures ∧
    ∀ item ∈ (buildStub settings index module .empty).1.items,
      module.Declares settings item ∧
      (∀ name, item.name? = some name → name ∉ settings.excludedNames) ∧
      ∀ head members, item = .ofClass head members → ∀ member ∈ members, ∀ name,
        member.name? = some name → name ∉ settings.excludedNames := by
  intro scope
  obtain ⟨attributes, classes, functions, hall, hadds⟩ :=
    scope.exists_emitted (.start existing.items)
  refine ⟨scope.function_isOk, fun name => ?_, hadds.failed, fun item hitem => ?_⟩
  · have hitems : (buildStub settings index module existing).1.items =
        mergeAll (attributes ++ classes ++ functions.map .ofFunction) existing.items := hadds.items
    show name ∈ (buildStub settings index module existing).1.items.filterMap (·.name?) ↔ _
    rw [hitems, mem_names_mergeAll, List.filterMap_append, List.filterMap_append, List.mem_append,
      List.mem_append, or_assoc, scope.mem_names_attributes hall.attributes,
      scope.mem_names_classes hall.classes, scope.mem_names_functions hall.functions]
    exact Iff.rfl
  · have hdeclares := declares_of_mem_fresh settings index module item hitem
    refine ⟨hdeclares, fun name hname => hdeclares.not_mem hname, ?_⟩
    rintro head members rfl member hmember name hname
    exact hdeclares.member_not_mem hmember hname

end TypedStubs
