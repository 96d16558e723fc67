import TypedStubs.Proofs.Stub.Absorption
import TypedStubs.Proofs.Stub.Written
import TypedStubs.Stub.Reader

/-! # Markers have no name

That a slash and a lone star have no name is what merging rests on (`StubFunction.merge_absorbs`,
`IsSignature`).  Every function of a stub keeps to it: the one that is read off a text, the one that is
written for a declaration, and the one that a merge makes of both.
-/
namespace TypedStubs

open Syntax (ParamKind)

/-- A function that is read has markers without names. -/
theorem Stub.markersUnnamed_functionOf (head : Syntax.FunctionHead) (decorators : List Syntax.Expr) :
    MarkersUnnamed (Stub.functionOf head decorators).params := by
  intro p hp hmarker
  obtain ⟨q, -, rfl⟩ := List.mem_map.1 hp
  exact if_pos hmarker

/-- So has a function that others were merged into. -/
theorem StubFunction.markersUnnamed_merge {e g : StubFunction} (he : MarkersUnnamed e.params)
    (hg : MarkersUnnamed g.params) : MarkersUnnamed (e.merge g).params := by
  intro q hq hmarker
  rcases mem_mergeParams he.star hq with hq | rfl | ⟨p, hp, -, heq⟩
  · exact he q hq hmarker
  · rfl
  · rcases heq with rfl | rfl
    · exact hg q hp hmarker
    · exact hg p hp hmarker

namespace Signature

variable {s : Settings} {index : SourceIndex} {owner : Option SourceClass}

/-- Whether a parameter has no name if it is a marker. -/
def Unnamed (p : StubParameter) : Prop :=
  (p.kind == .positionalOnlyMarker || p.kind == .keywordOnlyMarker) = true → p.name = ""

theorem unnamed_declaredParams {isFirst : Bool} {declared : List Parameter}
    {params : List StubParameter} (h : declaredParams s index owner isFirst declared = .ok params) :
    ∀ p ∈ params, Unnamed p := by
  induction declared generalizing isFirst params with
  | nil =>
    obtain rfl := Except.ok.inj h
    exact nofun
  | cons d rest ih =>
    unfold declaredParams at h
    split at h
    · cases hrest : declaredParams s index owner false rest with
      | error e =>
        rw [hrest] at h
        cases h
      | ok more =>
        rw [hrest] at h
        obtain rfl := Except.ok.inj h
        exact List.forall_mem_cons.2 ⟨fun _ => rfl, ih hrest⟩
    · next hmarker =>
      -- any other parameter keeps its kind, which is that of no marker
      split at h
      · exact ih h
      · cases hhint : declaredHint s index owner isFirst d with
        | error e =>
          rw [hhint] at h
          cases h
        | ok hint =>
          cases hrest : declaredParams s index owner false rest with
          | error e =>
            rw [hhint, hrest] at h
            cases h
          | ok more =>
            rw [hhint, hrest] at h
            obtain rfl := Except.ok.inj h
            exact List.forall_mem_cons.2 ⟨fun hkind => absurd hkind hmarker, ih hrest⟩

theorem dropIdleStars_sublist (params : List StubParameter) :
    (dropIdleStars params).Sublist params := by
  induction params with
  | nil => exact .slnil
  | cons p rest ih =>
    unfold dropIdleStars
    split
    · exact ih.cons p
    · exact ih.cons_cons p

theorem unnamed_documentedParams (f : SourceFunction) :
    ∀ p ∈ documentedParams s index f, Unnamed p := by
  intro p hp
  simp only [documentedParams] at hp
  split at hp
  · obtain ⟨d, -, hd⟩ := List.mem_filterMap.1 hp
    unfold recoveredParam? at hd
    split at hd
    · cases hd
    · obtain ⟨hint, -, rfl⟩ := Option.map_eq_some_iff.1 hd
      exact nofun
  · cases hp

theorem forall_mem_insertNamed {P : StubParameter → Prop} {params further : List StubParameter}
    (h : ∀ p ∈ params, P p) (hfurther : ∀ p ∈ further, P p) (hstar : P (.marker .keywordOnlyMarker)) :
    ∀ p ∈ insertNamed params further, P p := by
  intro p hp
  unfold insertNamed at hp
  split at hp
  · exact h p hp
  · simp only [List.mem_append] at hp
    rcases hp with ((hp | hp) | hp) | hp
    · exact h p ((List.takeWhile_sublist _).subset hp)
    · split at hp
      · cases hp
      · exact List.mem_singleton.1 hp ▸ hstar
    · exact hfurther p hp
    · exact h p ((List.dropWhile_sublist _).subset hp)

/-- What holds of declared and of documented parameters, and of a star, holds of those of a signature. -/
theorem forall_mem_synthesize {P : StubParameter → Prop} {f : SourceFunction} {params : List StubParameter}
    (hdeclared : ∀ declared, declaredParams s index owner true f.params = .ok declared → ∀ p ∈ declared, P p)
    (hdocumented : ∀ p ∈ documentedParams s index f, P p) (hstar : P (.marker .keywordOnlyMarker))
    (h : synthesize s index f owner = .ok params) : ∀ p ∈ params, P p := by
  unfold synthesize ownParams at h
  cases hparams : declaredParams s index owner true f.params with
  | error e =>
    rw [hparams] at h
    cases h
  | ok declared =>
    rw [hparams] at h
    obtain rfl := Except.ok.inj h
    refine forall_mem_insertNamed (fun p hp => ?_) (fun p hp => hdocumented p (List.mem_filter.1 hp).1) hstar
    have hown := (dropIdleStars_sublist _).subset hp
    exact hdeclared declared hparams p ((List.dropWhile_sublist _).subset hown)

/-- Markers of a signature have no name. -/
theorem unnamed_synthesize {f : SourceFunction} {params : List StubParameter}
    (h : synthesize s index f owner = .ok params) : ∀ p ∈ params, Unnamed p :=
  forall_mem_synthesize (fun _ => unnamed_declaredParams) (unnamed_documentedParams f) (fun _ => rfl) h

end Signature

/-- A function that is written has markers without names. -/
theorem Scope.WritesFunction.markersUnnamed {scope : Scope} {owner : Option SourceClass}
    {f : SourceFunction} {built : StubFunction} (h : scope.WritesFunction owner f built) :
    MarkersUnnamed built.params := by
  obtain ⟨signature, hsignature, hparams⟩ := h.frameOf.params
  intro q hq hmarker
  obtain ⟨p, hp, hname, hkind⟩ := exists_of_forall₂ hparams hq
  rw [hname]
  exact Signature.unnamed_synthesize hsignature p hp (hkind ▸ hmarker)

end TypedStubs
