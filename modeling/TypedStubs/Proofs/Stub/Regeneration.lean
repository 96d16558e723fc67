import TypedStubs.Proofs.Stub.Again
import TypedStubs.Proofs.Stub.Finish
import TypedStubs.Proofs.Stub.Shape

/-! # A stub is generated again as it is

When the stub of a module is built on top of itself, its items stay (`Scope.items_emit_again`), and so do its
imports, in the order of their block, as long as those that are added this time are known to it
(`Scope.finish_again`).  Together with what is known of reading a stub (`Stub.WellFormed.render_again`) this makes
generation a fixed point (`regeneration_keeps_stub`).

It is none when a new class has two methods of one name: they stand side by side in the first stub, and the second
is merged into the first one when the stub is built again (`twin_methods_merged`).
-/
namespace TypedStubs

/-! ### Items that are read -/

namespace Stub

open Syntax

theorem carried_unmarked {place : Extent} {items : List StubItem} (h : carried place = .ok items) :
    AllUnmarked items := by
  obtain ⟨text, -, heq⟩ := exists_of_bind h
  obtain rfl := Except.ok.inj heq
  exact ⟨trivial, trivial⟩

mutual
/-- The items of a statement have markers without names. -/
theorem itemsOf_unmarked (s : Stmt) {items : List StubItem} (h : itemsOf s = .ok items) : AllUnmarked items := by
  cases s with
  | classDef head decorators body =>
    rw [itemsOf] at h
    obtain ⟨inner, hbody, heq⟩ := exists_of_bind h
    obtain rfl := Except.ok.inj heq
    exact ⟨itemsOfAll_unmarked body hbody, trivial⟩
  | function head decorators body =>
    rw [itemsOf] at h
    obtain rfl := Except.ok.inj h
    exact ⟨markersUnnamed_functionOf head decorators, trivial⟩
  | assignment place targets typed value =>
    rcases targets with _ | ⟨target, _ | ⟨second, more⟩⟩
    · exact carried_unmarked h
    · rw [itemsOf] at h
      split at h
      · obtain rfl := Except.ok.inj h
        exact ⟨trivial, trivial⟩
      · exact carried_unmarked h
    · exact carried_unmarked h
  | expression place values =>
    rw [itemsOf] at h
    split at h
    · obtain rfl := Except.ok.inj h
      trivial
    · exact carried_unmarked h
  | passes | header =>
    rw [itemsOf] at h
    obtain rfl := Except.ok.inj h
    trivial
  | _ =>
    rw [itemsOf] at h
    exact carried_unmarked h

theorem itemsOfAll_unmarked (body : List Stmt) {items : List StubItem} (h : itemsOfAll body = .ok items) :
    AllUnmarked items := by
  cases body with
  | nil =>
    obtain rfl := Except.ok.inj h
    trivial
  | cons s body =>
    rw [itemsOfAll] at h
    obtain ⟨first, hfirst, h⟩ := exists_of_bind h
    obtain ⟨more, hmore, heq⟩ := exists_of_bind h
    obtain rfl := Except.ok.inj heq
    refine allUnmarked_iff.2 fun item hitem => ?_
    rcases List.mem_append.1 hitem with hitem | hitem
    · exact allUnmarked_iff.1 (itemsOf_unmarked s hfirst) item hitem
    · exact allUnmarked_iff.1 (itemsOfAll_unmarked body hmore) item hitem
end

/-- Functions of a stub that was read have markers without names. -/
theorem unmarked_of_parse {text : String} {stub : Stub} (h : Stub.parse text = .ok stub) :
    AllUnmarked stub.items := by
  unfold Stub.parse at h
  split at h
  · cases h
  · obtain ⟨items, hmade, heq⟩ := exists_of_bind h
    obtain rfl := Except.ok.inj heq
    exact itemsOfAll_unmarked _ hmade

end Stub

/-! ### Imports stay -/

namespace Import

/-- Whether imports, of which a text mentions the names in `used`, have all that another one would bring. -/
structure Known (used : List String) (imports : List Import) (i : Import) : Prop where
  /-- It is no star import. -/
  star : i.isStar = false
  /-- If it has to stay, it is one of them. -/
  required : i.isRequired = true → i ∈ imports
  /-- A mentioned name that it binds is bound. -/
  bound : ∀ name ∈ used, i.bound? = some name → Binds imports name

/-- Whether no two imports bind one name. -/
def BindApart (imports : List Import) : Prop :=
  ∀ i ∈ imports, ∀ j ∈ imports, i.isStar = false → i.bound? = j.bound? → i = j

instance (imports : List Import) : Decidable (BindApart imports) :=
  inferInstanceAs (Decidable (∀ i ∈ imports, ∀ j ∈ imports, i.isStar = false → i.bound? = j.bound? → i = j))

/-- In the order of their block, imports bind names of their own if they do so before. -/
theorem pairwise_arranged {imports : List Import} (h : BindApart imports)
    (hcount : ∀ i : Import, i.isStar = false → imports.count i ≤ 1) :
    (arranged imports).Pairwise fun i j => ∀ name, i.bound? = some name → j.bound? ≠ some name := by
  have hnodup : ((arranged imports).filter fun i => !i.isStar).Nodup := by
    refine List.nodup_iff_count.2 fun i => ?_
    cases hstar : i.isStar with
    | true =>
      rw [List.count_eq_zero_of_not_mem (by simp [hstar])]
      exact Nat.zero_le 1
    | false =>
      rw [List.count_filter (by simp [hstar])]
      rcases isSingle_or_member i with hsingle | ⟨source, name, asName, rfl⟩
      · rw [count_arranged_single hsingle]
        exact hcount i hstar
      · exact count_groups_member source name asName [] _
  rw [List.Nodup, List.pairwise_filter] at hnodup
  refine hnodup.imp_of_mem fun {i j} hi hj hne name hname hname' => ?_
  have hstar : i.isStar = false := by simpa using isStar_of_bound? hname
  have hstar' : j.isStar = false := by simpa using isStar_of_bound? hname'
  refine hne (by simp [hstar]) (by simp [hstar']) ?_
  exact h i (mem_of_mem_arranged hi) j (mem_of_mem_arranged hj) hstar (hname.trans hname'.symm)

end Import

namespace Scope

variable {scope : Scope} {added more : List Import} {body : String} {names : List String}

theorem isCopied_congr {used : List String} {present others : List Import}
    (h : ∀ i, i ∈ present ↔ i ∈ others) (i : Import) : isCopied used present i = isCopied used others i := by
  have hcontains : ∀ i, present.contains i = others.contains i := fun i => by simp [h i]
  have hany : ∀ p : Import → Bool, present.any p = others.any p := fun p => by
    rw [Bool.eq_iff_iff, List.any_eq_true, List.any_eq_true]
    simp only [h]
  simp only [isCopied, hcontains, hany]

/-- **The finished imports of a stub stay when it is finished again with others that they have already.** -/
theorem finish_again (happart : Import.BindApart (scope.finish added body))
    (hsame : ∀ i, i ∈ Import.arranged (scope.finish added body) ↔ i ∈ scope.finish added body)
    (hknown : ∀ i ∈ more, Import.Known (Import.mentioned body) (scope.finish added body) i)
    (hstar : ∀ i ∈ scope.baseline, i.isStar = false) :
    (scope.above (Import.arranged (scope.finish added body)) names).finish more body =
      Import.arranged (scope.finish added body) := by
  set finished := scope.finish added body with hfinished
  have hneeded : Import.needed (Import.mentioned body) (Import.arranged finished) = Import.arranged finished := by
    refine Import.needed_eq_self (fun i hi name hname => ?_) ?_
    · by_cases hrequired : i.isRequired = true
      · exact .inl hrequired
      · right
        have hplain : i.isPlain = true := by simp [Import.isPlain_of_bound? hname, hrequired]
        obtain ⟨name', hused, hname', -⟩ := Import.bound?_of_mem_keepNeeded hplain ((hsame i).1 hi)
        rwa [Option.some.inj (hname.symm.trans hname')]
    · exact Import.pairwise_arranged happart fun i hi => Import.count_needed_le_one hi _
  have hcopied : withCopied (Import.mentioned body) (Import.arranged finished) scope.module.imports =
      Import.arranged finished := by
    refine withCopied_eq_self fun i hi => ?_
    rw [isCopied_congr hsame]
    exact isCopied_finish hi
  have hmore : ∀ i ∈ Import.needed (Import.mentioned body) (more ++ scope.baseline), i.isStar = false := by
    intro i hi
    rcases List.mem_append.1 ((Import.keepNeeded_sublist _ [] [] _).mem hi) with hi | hi
    · exact (hknown i hi).star
    · exact hstar i hi
  have hstars : (Import.needed (Import.mentioned body) (more ++ scope.baseline)).filter Import.isStar = [] :=
    List.filter_eq_nil_iff.2 fun i hi => by simp [hmore i hi]
  rw [finish]
  show Import.needed _ (withCopied _ (Import.needed _ (Import.arranged finished)) scope.module.imports ++
    Import.needed _ (more ++ scope.baseline)) = _
  rw [hneeded, hcopied, Import.needed_append_of_known hneeded, hstars, List.append_nil]
  intro i hi name hname
  -- what is needed behind the finished imports has to stay, or binds a mentioned name
  have hbinds : Import.Binds (Import.arranged finished) name ↔ Import.Binds finished name := by
    simp only [Import.Binds, hsame]
  rw [hsame, hbinds]
  have hfrom := List.mem_append.1 ((Import.keepNeeded_sublist _ [] [] _).mem hi)
  cases hrequired : i.isRequired with
  | true =>
    left
    rcases hfrom with hi | hi
    · exact (hknown i hi).required hrequired
    · have hplain : i.isPlain = false := by simp [Import.isPlain, hrequired]
      rw [hfinished, finish, Import.mem_needed_iff hplain]
      exact List.mem_append_right _ ((Import.mem_needed_iff hplain _).2 (List.mem_append_right _ hi))
  | false =>
    right
    have hplain : i.isPlain = true := by simp [Import.isPlain_of_bound? hname, hrequired]
    obtain ⟨name', hused, hname', -⟩ := Import.bound?_of_mem_keepNeeded hplain hi
    obtain rfl := Option.some.inj (hname.symm.trans hname')
    refine ⟨rfl, ?_⟩
    rcases hfrom with hi | hi
    · exact (hknown i hi).bound name hused hname
    · have hthere : i ∈ scope.candidates added := List.mem_append_right _ (List.mem_append_right _ hi)
      exact (finish_binds_iff hused).2 ⟨i, hthere, hname⟩

end Scope

/-! ### Whole stubs -/

/-- The emission of a module's stub on top of an existing one. -/
def emitted (settings : Settings) (index : SourceIndex) (module : SourceModule) (existing : Stub) : Emission :=
  (Scope.onto settings index module existing).emit (.start existing.items)

theorem buildStub_eq (settings : Settings) (index : SourceIndex) (module : SourceModule) (existing : Stub) :
    (buildStub settings index module existing).1 =
      (emitted settings index module existing).finish (.onto settings index module existing) := rfl

/-- What makes a stub that is built on top of an existing one stay as it is when it is built again. -/
structure BuildsSteadily (settings : Settings) (index : SourceIndex) (module : SourceModule) (existing : Stub) :
    Prop where
  /-- It is put together from well-formed pieces. -/
  formed : (buildStub settings index module existing).1.WellFormed
  /-- No class that is left in has two methods that share their name and their role for a property. -/
  methods : ∀ c ∈ (Scope.onto settings index module existing).keptClasses,
    (Scope.onto settings index module existing).OneForEach c
  /-- No two of its imports bind one name. -/
  apart : Import.BindApart (buildStub settings index module existing).1.imports
  /-- No star import is one that every stub gets. -/
  stars : ∀ i ∈ (Scope.onto settings index module existing).baseline, i.isStar = false
  /-- What is imported for the names that are spelled the second time brings nothing that it mentions and does
  not have. -/
  known : ∀ again, Stub.parse (buildStub settings index module existing).1.render = .ok again →
    ∀ i ∈ (emitted settings index module again).added,
      Import.Known (Import.mentioned (buildStub settings index module existing).1.body)
        (buildStub settings index module existing).1.imports i

theorem buildStub_again {settings : Settings} {index : SourceIndex} {module : SourceModule} {existing : Stub}
    (hexisting : AllUnmarked existing.items) (h : BuildsSteadily settings index module existing) :
    let built := (buildStub settings index module existing).1
    let again : Stub := ⟨Import.arranged built.imports, built.items⟩
    (buildStub settings index module again).1 = again := by
  intro built again
  have hscope : Scope.onto settings index module again =
      (Scope.onto settings index module existing).above again.imports (again.items.filterMap (·.name?)) := rfl
  have hitems : (emitted settings index module again).items = built.items := by
    rw [emitted, hscope]
    exact Scope.items_emit_again h.methods (.start existing.items) (.start again.items) hexisting rfl _ _
  have himports : (Scope.onto settings index module again).finish (emitted settings index module again).added
      (Stub.body ⟨[], (emitted settings index module again).items⟩) = again.imports := by
    rw [hitems, hscope]
    exact Scope.finish_again h.apart h.formed.mem_arranged (h.known again h.formed.parse_render) h.stars
  rw [buildStub_eq, Emission.finish, himports, hitems]

/-- **A stub that was generated is generated again as it is**: its text is read, building the stub on top of what was
read changes nothing, and it is written as the same text. -/
theorem regeneration_keeps_stub {settings : Settings} {index : SourceIndex} {module : SourceModule} {text : String}
    {existing : Stub} (hread : Stub.parse text = .ok existing)
    (h : BuildsSteadily settings index module existing) :
    ∃ again, Stub.parse (buildStub settings index module existing).1.render = .ok again ∧
      (buildStub settings index module again).1 = again ∧
      (buildStub settings index module again).1.render = (buildStub settings index module existing).1.render := by
  obtain ⟨again, hagain, hrender, -⟩ := h.formed.render_again
  have hparse := h.formed.parse_render
  obtain rfl := Except.ok.inj (hparse.symm.trans hagain)
  have hbuilt := buildStub_again (Stub.unmarked_of_parse hread) h
  exact ⟨_, hparse, hbuilt, by rw [hbuilt, hrender]⟩

/-- A module that turns on a feature and has a class. -/
def boxed : SourceModule :=
  .read "m" "m.py" false
    "from __future__ import annotations\n\nclass Box:\n    def size(self, parts: int): return 1\n"

/-- The stub of the module. -/
def boxedStub : Stub :=
  ⟨[.member "__future__" "annotations" none],
    [.ofClass ⟨"Box", [], []⟩
      [.ofFunction ⟨"size", [], false,
        [⟨"self", .positional, "self"⟩, ⟨"parts", .positional, "parts: int"⟩], ", ", some "int"⟩]]⟩

theorem parse_boxedStub : Stub.parse boxedStub.render = .ok boxedStub := by decide +kernel

theorem boxedStub_wellFormed : boxedStub.WellFormed := by
  refine Stub.wellFormed_of_parse parse_boxedStub (by decide +kernel) ?_
  have hcut : Text.cutLast '\n' ", " = none := by decide
  intro item hitem
  obtain rfl := List.mem_singleton.1 hitem
  refine .ofClass (by decide) (by decide) fun item hitem => ?_
  obtain rfl := List.mem_singleton.1 hitem
  refine .ofFunction fun before inner h => ?_
  rw [hcut] at h
  cases h

theorem boxed_buildsSteadily : BuildsSteadily .standard ⟨[boxed]⟩ boxed .empty := by
  have hbuilt : (buildStub .standard ⟨[boxed]⟩ boxed .empty).1 = boxedStub := by decide +kernel
  have hadded : (emitted .standard ⟨[boxed]⟩ boxed boxedStub).added = [] := by decide +kernel
  refine ⟨hbuilt ▸ boxedStub_wellFormed, by decide +kernel, by rw [hbuilt]; decide, by decide +kernel, ?_⟩
  intro again hagain i hi
  rw [hbuilt, parse_boxedStub] at hagain
  obtain rfl := Except.ok.inj hagain
  rw [hadded] at hi
  cases hi

theorem regeneration_keeps_stub_boxed :
    ∃ again, Stub.parse (buildStub .standard ⟨[boxed]⟩ boxed .empty).1.render = .ok again ∧
      (buildStub .standard ⟨[boxed]⟩ boxed again).1 = again ∧
      (buildStub .standard ⟨[boxed]⟩ boxed again).1.render = (buildStub .standard ⟨[boxed]⟩ boxed .empty).1.render :=
  regeneration_keeps_stub Stub.parse_empty boxed_buildsSteadily

/-- A module with a class that has two methods of one name. -/
def twins : SourceModule :=
  .read "m" "m.py" false "class A:\n    def f(self, x): pass\n    def f(self, y): pass\n"

/-- The stub of the module, in which both methods stand. -/
def twinsStub : Stub :=
  ⟨[], [.ofClass ⟨"A", [], []⟩
    [.ofFunction ⟨"f", [], false, [⟨"self", .positional, "self"⟩, ⟨"x", .positional, "x"⟩], ", ", some "None"⟩,
      .ofFunction ⟨"f", [], false, [⟨"self", .positional, "self"⟩, ⟨"y", .positional, "y"⟩], ", ", some "None"⟩]]⟩

/-- When a stub is generated again, the second of two methods of one name is merged into the first. -/
theorem twin_methods_merged :
    ¬ ∀ (settings : Settings) (index : SourceIndex) (module : SourceModule) (text : String) (existing : Stub),
      settings.validate = .ok settings → module ∈ index.modules → Stub.parse text = .ok existing →
      ∃ again, Stub.parse (buildStub settings index module existing).1.render = .ok again ∧
        (buildStub settings index module again).1.render = (buildStub settings index module existing).1.render := by
  intro hall
  have hbuilt : (buildStub .standard ⟨[twins]⟩ twins .empty).1 = twinsStub := by decide +kernel
  have hparse : Stub.parse twinsStub.render = .ok twinsStub := by decide +kernel
  have hvalid : Settings.standard.validate = .ok .standard := by decide +kernel
  obtain ⟨again, hagain, hrender⟩ := hall .standard ⟨[twins]⟩ twins "" .empty hvalid (by simp) Stub.parse_empty
  rw [hbuilt, hparse] at hagain
  obtain rfl := Except.ok.inj hagain
  rw [hbuilt] at hrender
  revert hrender
  decide +kernel

end TypedStubs
