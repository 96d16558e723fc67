import Mathlib.Data.List.Induction
import TypedStubs.Proofs.Stub.Emitted
import TypedStubs.Source.Reader

/-! # What a fresh stub blends

Items of one slot become one item.  In a stub that starts from nothing, an item is the first one that
was generated for its slot, with all later ones of its kind merged into it in their order
(`exists_blend`).  The proof is by induction on what is merged in, from the end: items keep to slots of
their own, and everything that was generated has its slot among them (`Blends`).

A function of a module that is declared once is therefore written as it is.  Functions that share their
name and their role for a property are blended (`buildStub_blends`).  In a class it is otherwise: the
methods of its first declaration stay apart, even those of one name, and only further declarations of
the class are merged into it.
-/
namespace TypedStubs

/-! ### Items of one slot -/

/-- Whether a generated item is of the slot and of the kind of an existing one. -/
def StubItem.alike : (existing generated : StubItem) → Bool
  | .ofFunction f, .ofFunction g => f.name == g.name && f.role? == g.role?
  | .ofClass head _, .ofClass other _ => head.name == other.name
  | .ofAttribute a, .ofAttribute b => a.name == b.name
  | _, _ => false

/-- What is alike is generated for the same slots. -/
theorem sameSlot_of_alike {x g : StubItem} (h : x.alike g = true) (y : StubItem) :
    sameSlot y g = sameSlot y x := by
  cases x <;> cases g <;> cases y <;> simp_all [StubItem.alike, sameSlot, StubItem.name?]

/-- It takes up the same slot. -/
theorem sameSlot_of_alike_left {x g : StubItem} (h : x.alike g = true) (y : StubItem) :
    sameSlot g y = sameSlot x y := by
  cases x <;> cases g <;> cases y <;> simp_all [StubItem.alike, sameSlot, StubItem.name?]

/-- The same items are alike to it. -/
theorem alike_congr {x g : StubItem} (h : x.alike g = true) (y : StubItem) :
    g.alike y = x.alike y := by
  cases x <;> cases g <;> cases y <;> simp_all [StubItem.alike]

theorem sameSlot_self_of_alike {x g : StubItem} (h : x.alike g = true) : sameSlot x g = true := by
  cases x <;> cases g <;> simp_all [StubItem.alike, sameSlot, StubItem.name?]

theorem alike_of_not_sameSlot {x g : StubItem} (h : sameSlot x g = false) : x.alike g = false :=
  Bool.eq_false_iff.2 fun halike => absurd (sameSlot_self_of_alike halike) (by simp [h])

theorem alike_self {x : StubItem} (h : x.name?.isSome = true) : x.alike x = true := by
  cases x <;> simp_all [StubItem.alike, StubItem.name?]

/-- What is of a slot and of another kind adds nothing. -/
theorem mergeInto_eq_self {x g : StubItem} (hslot : sameSlot x g = true) (h : x.alike g = false) :
    mergeInto g x = x := by
  cases x <;> cases g <;> simp_all [StubItem.alike, sameSlot, StubItem.name?, mergeInto]

/-- A function keeps its role when one of that role is merged into it. -/
theorem StubFunction.role?_merge {f g : StubFunction} (hname : f.name = g.name)
    (hrole : f.role? = g.role?) : (f.merge g).role? = f.role? := by
  cases hdecorators : f.decorators with
  | nil =>
    have hmerged : (f.merge g).decorators = g.decorators := by simp [merge, hdecorators]
    calc (f.merge g).role? = g.role? := by
          unfold role?
          rw [hmerged, ← hname]
          rfl
      _ = f.role? := hrole.symm
  | cons d ds => simp [merge, role?, hdecorators]

/-- What an item becomes by a merge is alike to it. -/
theorem alike_mergeInto {x g : StubItem} (hslot : sameSlot x g = true) :
    x.alike (mergeInto g x) = true := by
  cases x with
  | ofFunction f =>
    cases g with
    | ofFunction g =>
      obtain ⟨hname, hrole⟩ : f.name = g.name ∧ f.role? = g.role? := by simpa [sameSlot] using hslot
      have hname' : (f.merge g).name = f.name := rfl
      simp [mergeInto, StubItem.alike, StubFunction.role?_merge hname hrole, hname']
    | ofAttribute _ | ofClass _ _ | verbatim _ => simp [mergeInto, StubItem.alike]
  | ofClass head items => cases g <;> simp [mergeInto, StubItem.alike]
  | ofAttribute a => cases g <;> simp [mergeInto, StubItem.alike]
  | verbatim text => simp [sameSlot, StubItem.name?] at hslot

/-! ### Runs of merges -/

/-- What holds of items that generated ones were merged into, starting from nothing. -/
structure Blends (generated items : List StubItem) : Prop where
  /-- Every item keeps to a slot of its own. -/
  apart : items.Pairwise fun x y => sameSlot x y = false
  /-- Everything that was generated has its slot. -/
  covers : ∀ g ∈ generated, ∃ x ∈ items, sameSlot x g = true
  /-- An item is the first one that is alike to it with the others merged into it. -/
  blend : ∀ x ∈ items, ∃ g more, generated.filter x.alike = g :: more ∧
    x = more.foldl (fun x g => mergeInto g x) g

variable {generated items : List StubItem} {g : StubItem}

/-- An item that finds no slot goes to the end. -/
theorem Blends.append (h : Blends generated items) (hg : g.name?.isSome = true)
    (hnone : ∀ x ∈ items, sameSlot x g = false) : Blends (generated ++ [g]) (items ++ [g]) where
  apart := by
    rw [List.pairwise_append]
    refine ⟨h.apart, List.pairwise_singleton _ _, fun x hx y hy => ?_⟩
    exact List.mem_singleton.1 hy ▸ hnone x hx
  covers := by
    intro k hk
    rcases List.mem_append.1 hk with hk | hk
    · obtain ⟨x, hx, hslot⟩ := h.covers k hk
      exact ⟨x, List.mem_append_left _ hx, hslot⟩
    · obtain rfl := List.mem_singleton.1 hk
      exact ⟨k, by simp, sameSlot_self_of_alike (alike_self hg)⟩
  blend := by
    intro x hx
    rw [List.filter_append]
    rcases List.mem_append.1 hx with hx | hx
    · have hnot := alike_of_not_sameSlot (hnone x hx)
      simpa [hnot] using h.blend x hx
    · obtain rfl := List.mem_singleton.1 hx
      -- an earlier one of its kind would have left its slot taken
      have hfirst : generated.filter x.alike = [] := by
        refine List.filter_eq_nil_iff.2 fun k hk halike => ?_
        obtain ⟨y, hy, hslot⟩ := h.covers k hk
        rw [sameSlot_of_alike halike, hnone y hy] at hslot
        cases hslot
      exact ⟨x, [], by simp [hfirst, alike_self hg], rfl⟩

/-- An item that finds its slot is merged into what is there. -/
theorem Blends.change {before after : List StubItem} {y : StubItem}
    (h : Blends generated (before ++ y :: after)) (hslot : sameSlot y g = true)
    (hbefore : ∀ x ∈ before, sameSlot x g = false) :
    Blends (generated ++ [g]) (before ++ mergeInto g y :: after) := by
  have hchanged := alike_mergeInto hslot
  obtain ⟨hfront, hback, hcross⟩ := List.pairwise_append.1 h.apart
  obtain ⟨hy, hafter⟩ := List.pairwise_cons.1 hback
  have hrest : ∀ x ∈ before ++ after, x.alike g = false := by
    intro x hx
    rcases List.mem_append.1 hx with hx | hx
    · exact alike_of_not_sameSlot (hbefore x hx)
    · -- what is alike to a later item would have found the slot of the earlier one taken
      refine Bool.eq_false_iff.2 fun halike => ?_
      have hne := hy x hx
      rw [← sameSlot_of_alike halike y, hslot] at hne
      cases hne
  constructor
  · rw [List.pairwise_append, List.pairwise_cons]
    refine ⟨hfront, ⟨fun x hx => ?_, hafter⟩, fun x hx z hz => ?_⟩
    · rw [sameSlot_of_alike_left hchanged]
      exact hy x hx
    · rcases List.mem_cons.1 hz with rfl | hz
      · rw [sameSlot_of_alike hchanged]
        exact hcross x hx y List.mem_cons_self
      · exact hcross x hx z (List.mem_cons_of_mem _ hz)
  · intro k hk
    have hold : ∃ x ∈ before ++ y :: after, sameSlot x k = true := by
      rcases List.mem_append.1 hk with hk | hk
      · exact h.covers k hk
      · obtain rfl := List.mem_singleton.1 hk
        exact ⟨y, by simp, hslot⟩
    obtain ⟨x, hx, hxk⟩ := hold
    rw [List.mem_append, List.mem_cons] at hx
    rcases hx with hx | rfl | hx
    · exact ⟨x, by simp [hx], hxk⟩
    · exact ⟨_, by simp, (sameSlot_of_alike_left hchanged k).trans hxk⟩
    · exact ⟨x, by simp [hx], hxk⟩
  · intro x hx
    rw [List.mem_append, List.mem_cons] at hx
    rw [List.filter_append]
    -- the new item is alike to none of the others, so what they are blended from is as before
    have hother (hmem : x ∈ before ++ after) (hold : x ∈ before ++ y :: after) :
        ∃ first more, generated.filter x.alike ++ [g].filter x.alike = first :: more ∧
          x = more.foldl (fun x g => mergeInto g x) first := by
      simpa [hrest x hmem] using h.blend x hold
    rcases hx with hx | rfl | hx
    · exact hother (by simp [hx]) (by simp [hx])
    · obtain ⟨first, more, hfilter, hblend⟩ := h.blend y (by simp)
      have hsame : (mergeInto g y).alike = y.alike := funext (alike_congr hchanged)
      rw [hsame, hfilter]
      cases halike : y.alike g with
      | true =>
        refine ⟨first, more ++ [g], by simp [halike], ?_⟩
        rw [List.foldl_append, ← hblend]
        rfl
      | false =>
        rw [mergeInto_eq_self hslot halike]
        exact ⟨first, more, by simp [halike], hblend⟩
    · exact hother (by simp [hx]) (by simp [hx])

theorem blends_mergeAll (hnamed : ∀ g ∈ generated, g.name?.isSome = true) :
    Blends generated (mergeAll generated []) := by
  induction generated using List.reverseRecOn with
  | nil =>
    rw [mergeAll_nil]
    exact ⟨.nil, nofun, nofun⟩
  | append_singleton generated g ih =>
    have h := ih fun k hk => hnamed k (List.mem_append_left _ hk)
    rw [mergeAll_append, mergeAll_cons, mergeAll_nil]
    generalize mergeAll generated [] = items at h ⊢
    unfold mergeItem
    rcases changeFirst_cases (sameSlot · g) (mergeInto g) g items with
      ⟨before, y, after, rfl, hy, hbefore, heq⟩ | ⟨hnone, heq⟩
    · rw [heq]
      exact h.change hy hbefore
    · rw [heq]
      exact h.append (hnamed g (by simp)) hnone

/-! ### Functions of a module -/

/-- A function with others merged into it in their order. -/
def StubFunction.mergedWith (f : StubFunction) (more : List StubFunction) : StubFunction :=
  more.foldl .merge f

theorem StubFunction.mergedWith_concat (f g : StubFunction) (more : List StubFunction) :
    f.mergedWith (more ++ [g]) = (f.mergedWith more).merge g :=
  List.foldl_concat _ _ _ _

theorem foldl_mergeInto_map (f : StubFunction) (more : List StubFunction) :
    (more.map StubItem.ofFunction).foldl (fun x g => mergeInto g x) (.ofFunction f) =
      .ofFunction (f.mergedWith more) := by
  induction more generalizing f with
  | nil => rfl
  | cons g more ih =>
    simp only [List.map_cons, List.foldl_cons, mergeInto]
    exact ih (f.merge g)

namespace Scope

variable {scope : Scope}

/-- The role for a property that a function of `owner` is written with. -/
def role? (scope : Scope) (owner : Option SourceClass) (d : SourceFunction) : Option String :=
  StubFunction.role? ⟨d.name, scope.decorators owner d.decorators, d.isAsync, [], ", ", none⟩

theorem FrameOf.role? {owner : Option SourceClass} {d : SourceFunction} {built : StubFunction}
    (h : scope.FrameOf owner d built) : built.role? = scope.role? owner d := by
  simp only [StubFunction.role?, Scope.role?, h.name, h.decorators]

/-- The functions of the module that are emitted under a name, in a role for a property. -/
def emittedFunctions (scope : Scope) (name : String) (role : Option String) : List SourceFunction :=
  (scope.module.functions.filter (scope.emits none)).filter fun d =>
    name == d.name && role == scope.role? none d

variable {attributes classes : List StubItem} {functions : List StubFunction}

/-- Everything that is written has a name. -/
theorem WritesAll.named (h : scope.WritesAll attributes classes functions) :
    ∀ g ∈ attributes ++ classes ++ functions.map .ofFunction, g.name?.isSome = true := by
  intro g hg
  rw [List.mem_append, List.mem_append, List.mem_map] at hg
  rcases hg with (hg | hg) | ⟨f, -, rfl⟩
  · obtain ⟨a, -, hint, value, rfl⟩ := exists_of_forall₂ h.attributes hg
    rfl
  · obtain ⟨c, -, head, members, methods, rfl, -⟩ := exists_of_forall₂ h.classes hg
    rfl
  · rfl

/-- Only functions are alike to a function. -/
theorem WritesAll.filter_ofFunction (h : scope.WritesAll attributes classes functions)
    (f : StubFunction) :
    (attributes ++ classes ++ functions.map StubItem.ofFunction).filter
        (StubItem.ofFunction f).alike =
      (functions.filter fun g => f.name == g.name && f.role? == g.role?).map .ofFunction := by
  have hattributes : attributes.filter (StubItem.ofFunction f).alike = [] := by
    refine List.filter_eq_nil_iff.2 fun x hx => ?_
    obtain ⟨a, -, hint, value, rfl⟩ := exists_of_forall₂ h.attributes hx
    exact Bool.false_ne_true
  have hclasses : classes.filter (StubItem.ofFunction f).alike = [] := by
    refine List.filter_eq_nil_iff.2 fun x hx => ?_
    obtain ⟨c, -, head, members, methods, rfl, -⟩ := exists_of_forall₂ h.classes hx
    exact Bool.false_ne_true
  rw [List.filter_append, List.filter_append, hattributes, hclasses, List.filter_map]
  rfl

/-- Only classes are alike to a class. -/
theorem WritesAll.filter_ofClass (h : scope.WritesAll attributes classes functions)
    (head : StubClass) (items : List StubItem) :
    (attributes ++ classes ++ functions.map StubItem.ofFunction).filter
        (StubItem.ofClass head items).alike =
      classes.filter (StubItem.ofClass head items).alike := by
  have hattributes : attributes.filter (StubItem.ofClass head items).alike = [] := by
    refine List.filter_eq_nil_iff.2 fun x hx => ?_
    obtain ⟨a, -, hint, value, rfl⟩ := exists_of_forall₂ h.attributes hx
    exact Bool.false_ne_true
  have hfunctions :
      (functions.map StubItem.ofFunction).filter (StubItem.ofClass head items).alike = [] := by
    refine List.filter_eq_nil_iff.2 fun x hx => ?_
    obtain ⟨f, -, rfl⟩ := List.mem_map.1 hx
    exact Bool.false_ne_true
  rw [List.filter_append, List.filter_append, hattributes, hfunctions, List.nil_append,
    List.append_nil]

/-- A function of a fresh stub is the first one that is written under its name in its role, with the
others merged into it. -/
theorem WritesAll.exists_function (h : scope.WritesAll attributes classes functions) {f : StubFunction}
    (hblend : ∃ g more, (attributes ++ classes ++ functions.map StubItem.ofFunction).filter
        (StubItem.ofFunction f).alike = g :: more ∧
      StubItem.ofFunction f = more.foldl (fun x g => mergeInto g x) g) :
    ∃ (g : StubFunction) (more : List StubFunction), f = g.mergedWith more ∧
      List.Forall₂ (scope.WritesFunction none) (scope.emittedFunctions f.name f.role?) (g :: more) := by
  obtain ⟨g, more, hfilter, hf⟩ := hblend
  rw [h.filter_ofFunction, List.map_eq_cons_iff] at hfilter
  obtain ⟨first, rest, hfilter, rfl, rfl⟩ := hfilter
  rw [foldl_mergeInto_map] at hf
  refine ⟨first, rest, StubItem.ofFunction.inj hf, ?_⟩
  rw [← hfilter]
  refine List.rel_filter (fun d b hb => ?_) h.functions
  simp [hb.frameOf.name, hb.frameOf.role?]

/-! ### Methods of a class -/

/-- Whether a function is how some of the classes write a method of a given name. -/
def WritesMethod (scope : Scope) (cs : List SourceClass) (name : String) (built : StubFunction) :
    Prop :=
  ∃ c ∈ cs, ∃ d ∈ c.methods.filter (scope.emits (some c)), d.name = name ∧
    scope.WritesFunction (some c) d built

/-- Whether a member of a class, if it is a function, is one that some of the classes write, with others
merged into it that all but the first of them write. -/
def BlendsMethod (scope : Scope) (cs : List SourceClass) : StubItem → Prop
  | .ofFunction f => ∃ (g : StubFunction) (more : List StubFunction), f = g.mergedWith more ∧
    scope.WritesMethod cs f.name g ∧ ∀ m ∈ more, scope.WritesMethod cs.tail f.name m
  | .ofAttribute _ | .ofClass _ _ | .verbatim _ => True

/-- Whether a member is a function that some of the classes write, if it is a function at all. -/
def FromClasses (scope : Scope) (cs : List SourceClass) : StubItem → Prop
  | .ofFunction f => scope.WritesMethod cs f.name f
  | .ofAttribute _ | .ofClass _ _ | .verbatim _ => True

theorem fromClasses_of_writesClass {c : SourceClass} {cs : List SourceClass} (hc : c ∈ cs)
    {head : StubClass} {members : List StubItem} (h : scope.WritesClass c (.ofClass head members)) :
    ∀ member ∈ members, scope.FromClasses cs member := by
  obtain ⟨head', attributes, methods, heq, -, hattributes, hmethods⟩ := h
  obtain ⟨rfl, rfl⟩ := StubItem.ofClass.inj heq
  intro member hmember
  rcases List.mem_append.1 hmember with h | h
  · obtain ⟨a, -, -, hint, value, rfl⟩ := hattributes member h
    trivial
  · obtain ⟨built, hbuilt, rfl⟩ := List.mem_map.1 h
    obtain ⟨d, hd, hwrites⟩ := exists_of_forall₂ hmethods hbuilt
    exact ⟨c, hc, d, hd, hwrites.frameOf.name.symm, hwrites⟩

theorem BlendsMethod.mergeInto {cs : List SourceClass} {x g : StubItem}
    (hslot : sameSlot x g = true) (hx : scope.BlendsMethod cs x)
    (hg : scope.FromClasses cs.tail g) : scope.BlendsMethod cs (mergeInto g x) := by
  cases x with
  | ofFunction f =>
    cases g with
    | ofFunction g =>
      obtain ⟨first, more, rfl, hfirst, hmore⟩ := hx
      have hname : (first.mergedWith more).name = g.name := by
        simpa using (Bool.and_eq_true_iff.1 hslot).1
      simp only [TypedStubs.mergeInto]
      refine ⟨first, more ++ [g], (first.mergedWith_concat g more).symm, hfirst, fun m hm => ?_⟩
      rcases List.mem_append.1 hm with hm | hm
      · exact hmore m hm
      · obtain rfl := List.mem_singleton.1 hm
        exact hname ▸ hg
    | ofAttribute _ | ofClass _ _ | verbatim _ => simpa only [TypedStubs.mergeInto] using hx
  | ofClass head items => cases g <;> simp only [TypedStubs.mergeInto] <;> trivial
  | ofAttribute a => cases g <;> simp only [TypedStubs.mergeInto] <;> trivial
  | verbatim text => cases g <;> simp only [TypedStubs.mergeInto] <;> trivial

theorem WritesMethod.mono {cs more : List SourceClass} {name : String} {built : StubFunction}
    (h : scope.WritesMethod cs name built) (hsub : cs ⊆ more) : scope.WritesMethod more name built :=
  h.imp fun _ hc => hc.imp_left (hsub ·)

/-- A member that comes first has nothing merged into it. -/
theorem FromClasses.blendsMethod {cs further : List SourceClass} {g : StubItem}
    (h : scope.FromClasses further g) (hsub : further ⊆ cs) : scope.BlendsMethod cs g := by
  cases g with
  | ofFunction f => exact ⟨f, [], rfl, h.mono hsub, nofun⟩
  | ofClass _ _ | ofAttribute _ | verbatim _ => trivial

/-- Further classes are merged into a class member by member. -/
theorem exists_members_blend {cs : List SourceClass} {items more : List StubItem} (head : StubClass)
    (hitems : ∀ x ∈ items, scope.BlendsMethod cs x)
    (hmore : ∀ g ∈ more, ∃ other members, g = .ofClass other members ∧
      ∀ x ∈ members, scope.FromClasses cs.tail x) :
    ∃ members, more.foldl (fun x g => TypedStubs.mergeInto g x) (.ofClass head items) =
      .ofClass head members ∧ ∀ x ∈ members, scope.BlendsMethod cs x := by
  induction more generalizing items with
  | nil => exact ⟨items, rfl, hitems⟩
  | cons g more ih =>
    obtain ⟨⟨other, members, rfl, hmembers⟩, hrest⟩ := List.forall_mem_cons.1 hmore
    simp only [List.foldl_cons, TypedStubs.mergeInto]
    refine ih (forall_mem_mergeAll (fun g hg => hg.blendsMethod (List.tail_sublist cs).subset) ?_
      hmembers hitems) hrest
    exact fun x g hslot hx hg => hx.mergeInto hslot hg

/-- The classes that are left in under a name. -/
def keptClassesNamed (scope : Scope) (name : String) : List SourceClass :=
  scope.keptClasses.filter (name == ·.name)

/-- A method of a class of a fresh stub is one that is written for a declaration of the class, with those
merged into it that further declarations write. -/
theorem WritesAll.blendsMethod (h : scope.WritesAll attributes classes functions) {head : StubClass}
    {members : List StubItem}
    (hblend : ∃ g more, (attributes ++ classes ++ functions.map StubItem.ofFunction).filter
        (StubItem.ofClass head members).alike = g :: more ∧
      StubItem.ofClass head members = more.foldl (fun x g => TypedStubs.mergeInto g x) g) :
    ∀ x ∈ members, scope.BlendsMethod (scope.keptClassesNamed head.name) x := by
  obtain ⟨g, more, hfilter, heq⟩ := hblend
  rw [h.filter_ofClass] at hfilter
  have hwritten : List.Forall₂ scope.WritesClass (scope.keptClassesNamed head.name) (g :: more) := by
    rw [← hfilter]
    refine List.rel_filter (fun c x hx => ?_) h.classes
    obtain ⟨other, attributes, methods, rfl, hname, -⟩ := hx
    simp [StubItem.alike, hname]
  generalize scope.keptClassesNamed head.name = cs at hwritten ⊢
  cases hwritten with
  | @cons c _ rest _ hfirst hrest =>
    obtain ⟨other, own, methods, rfl, -⟩ := id hfirst
    have hitems : ∀ x ∈ own ++ methods.map .ofFunction, scope.BlendsMethod (c :: rest) x :=
      fun x hx => (fromClasses_of_writesClass List.mem_cons_self hfirst x hx).blendsMethod
        (List.Subset.refl _)
    have hmore : ∀ g ∈ more, ∃ other members, g = .ofClass other members ∧
        ∀ x ∈ members, scope.FromClasses rest x := by
      intro g hg
      obtain ⟨c', hc', hwrites⟩ := exists_of_forall₂ hrest hg
      obtain ⟨head', attributes', methods', rfl, -⟩ := id hwrites
      exact ⟨head', _, rfl, fromClasses_of_writesClass hc' hwrites⟩
    obtain ⟨all, hall, hmembers⟩ := exists_members_blend other hitems hmore
    obtain ⟨-, rfl⟩ := StubItem.ofClass.inj (heq.trans hall)
    exact hmembers

end Scope

/-- **What a fresh stub blends.**  A function of the module is written as the first declaration under its
name and in its role is, with all others of these merged into it.  A method of a class is written as one
declaration is, with further ones merged into it only if the class is declared again. -/
theorem buildStub_blends (settings : Settings) (index : SourceIndex) (module : SourceModule) :
    let scope := Scope.onto settings index module .empty
    ∀ item ∈ (buildStub settings index module .empty).1.items,
      (∀ f, item = .ofFunction f → ∃ (g : StubFunction) (more : List StubFunction),
        f = g.mergedWith more ∧
        List.Forall₂ (scope.WritesFunction none) (scope.emittedFunctions f.name f.role?) (g :: more)) ∧
      ∀ head members, item = .ofClass head members → ∀ f, .ofFunction f ∈ members →
        ∃ (g : StubFunction) (more : List StubFunction), f = g.mergedWith more ∧
          scope.WritesMethod (scope.keptClassesNamed head.name) f.name g ∧
          ∀ m ∈ more, scope.WritesMethod (scope.keptClassesNamed head.name).tail f.name m := by
  intro scope item hitem
  obtain ⟨attributes, classes, functions, hall, hitems⟩ := exists_fresh settings index module
  have hblend := (blends_mergeAll hall.named).blend item (hitems ▸ hitem)
  constructor
  · rintro f rfl
    exact hall.exists_function hblend
  · rintro head members rfl f hf
    exact hall.blendsMethod hblend (.ofFunction f) hf

/-- A function with one parameter that does nothing. -/
def idle (param : String) : SourceFunction where
  name := "f"
  qualified := "m.f"
  module := "m"
  decorators := []
  docstring := none
  params := [⟨param, .positional, none, none⟩]
  returnText := none
  inferredReturn := some (.name "None")
  isAsync := false

/-- A module that defines a function twice, with another parameter each time. -/
def twice : SourceModule :=
  ⟨"m", "m.py", false, none, [], [.ofFunction (idle "x"), .ofFunction (idle "y")]⟩

example : SourceModule.read "m" "m.py" false "def f(x): pass\ndef f(y): pass\n" = twice := by
  decide +kernel

/-- A function that is defined twice gets the parameters of both definitions, which none of them has. -/
theorem redefined_function_blends :
    let scope := Scope.onto .standard ⟨[twice]⟩ twice .empty
    ¬ ∀ item ∈ (buildStub .standard ⟨[twice]⟩ twice .empty).1.items, ∀ f, item = .ofFunction f →
      ∃ d ∈ twice.functions, ∃ g, scope.WritesFunction none d g ∧ f.params = g.params := by
  intro scope hall
  have hitems : (buildStub .standard ⟨[twice]⟩ twice .empty).1.items =
      [.ofFunction ⟨"f", [], false,
        [⟨"x", .positional, "x"⟩, ⟨"y", .positional, "y"⟩], ", ", some "None"⟩] := rfl
  have hwritten (param : String) (g : StubFunction)
      (h : scope.WritesFunction none (idle param) g) : g.params.length = 1 := by
    obtain ⟨added, hrun⟩ := h
    obtain rfl := Except.ok.inj hrun
    rfl
  obtain ⟨d, hd, g, hg, hparams⟩ := hall _ (hitems ▸ List.mem_singleton_self _) _ rfl
  have hone : g.params.length = 1 := by
    rcases List.mem_cons.1 hd with rfl | hd
    · exact hwritten "x" g hg
    · exact hwritten "y" g (List.mem_singleton.1 hd ▸ hg)
  rw [← hparams] at hone
  cases hone

end TypedStubs
