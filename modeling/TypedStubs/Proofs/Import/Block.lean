import Mathlib.Data.List.Forall2
import TypedStubs.Import.Block

/-! # Import blocks are written once and for all

The lines of an import block stand for groups of imports: a module, a star import, or the members that
are drawn from one module, sorted and each once.  The imports of these groups, one group behind the
other, are the imports in the order of the block (`arranged`): no other ones, none is lost but for
how it is written, and they are written as the same block again (`block_arranged`).
-/
namespace TypedStubs.Import

/-! ## Texts in order -/

/-- Texts in order, each once. -/
def Ordered (texts : List String) : Prop := texts.Pairwise fun a b => a ≤ b ∧ a ≠ b

/-- Leaving out repetitions of texts in order. -/
theorem loop_ordered {a : String} {texts : List String} (h : (a :: texts).Pairwise (· ≤ ·))
    (acc : List String) :
    ∃ rest, List.eraseRepsBy.loop (· == ·) a texts acc = acc.reverse ++ a :: rest ∧
      Ordered (a :: rest) ∧ ∀ x, x ∈ a :: rest ↔ x ∈ a :: texts := by
  induction texts generalizing a acc with
  | nil => exact ⟨[], by simp [List.eraseRepsBy.loop], by simp [Ordered], by simp⟩
  | cons b texts ih =>
    obtain ⟨ha, hrest⟩ := List.pairwise_cons.1 h
    by_cases hab : a = b
    · subst hab
      obtain ⟨rest, hloop, hordered, hmem⟩ := ih hrest acc
      exact ⟨rest, by simpa [List.eraseRepsBy.loop] using hloop, hordered, by simpa using hmem⟩
    · obtain ⟨rest, hloop, hordered, hmem⟩ := ih hrest (a :: acc)
      refine ⟨b :: rest, ?_, ?_, ?_⟩
      · rw [List.eraseRepsBy.loop, beq_false_of_ne hab]
        simpa using hloop
      · refine List.pairwise_cons.2 ⟨fun x hx => ⟨ha x ((hmem x).1 hx), ?_⟩, hordered⟩
        rintro rfl
        -- `a` is not below `b`, so it cannot stand behind it
        have hle : b ≤ a := by
          rcases List.mem_cons.1 ((hmem a).1 hx) with heq | hmem'
          · exact absurd heq hab
          · exact (List.pairwise_cons.1 hrest).1 a hmem'
        exact hab (String.le_antisymm (ha b List.mem_cons_self) hle)
      · intro x
        rw [List.mem_cons, hmem x, List.mem_cons (b := a)]

theorem sorted_mergeSort (texts : List String) :
    (texts.mergeSort fun a b => decide (a ≤ b)).Pairwise (· ≤ ·) := by
  have : (texts.mergeSort fun a b => decide (a ≤ b)).Pairwise fun a b => decide (a ≤ b) = true :=
    List.pairwise_mergeSort
    (fun a b c hab hbc => by
      simp only [decide_eq_true_eq] at hab hbc ⊢
      exact String.le_trans hab hbc)
    (fun a b => by simpa using String.le_total a b) texts
  exact this.imp fun h => by simpa using h

theorem sortedOnce_spec (texts : List String) :
    Ordered (sortedOnce texts) ∧ ∀ x, x ∈ sortedOnce texts ↔ x ∈ texts := by
  have hsorted := sorted_mergeSort texts
  have hmem : ∀ x, x ∈ (texts.mergeSort fun a b => decide (a ≤ b)) ↔ x ∈ texts := fun x =>
    List.mem_mergeSort
  rw [sortedOnce]
  cases hsort : texts.mergeSort fun a b => decide (a ≤ b) with
  | nil =>
    rw [hsort] at hmem
    exact ⟨List.Pairwise.nil, hmem⟩
  | cons a more =>
    rw [hsort] at hsorted hmem
    obtain ⟨rest, hloop, hordered, hrest⟩ := loop_ordered hsorted []
    have heq : (a :: more).eraseReps = a :: rest := hloop
    rw [heq]
    exact ⟨hordered, fun x => (hrest x).trans (hmem x)⟩

/-- Texts in order stay as they are. -/
theorem sortedOnce_of_ordered {texts : List String} (h : Ordered texts) : sortedOnce texts = texts := by
  obtain ⟨hordered, hmem⟩ := sortedOnce_spec texts
  have hnodup : ∀ {ts : List String}, Ordered ts → ts.Nodup := fun h => h.imp fun h => h.2
  refine ((List.perm_ext_iff_of_nodup (hnodup hordered) (hnodup h)).2 hmem).eq_of_pairwise ?_ hordered h
  intro a b _ _ hab hba
  exact String.le_antisymm hab.1 hba.1

/-! ## Members of one source -/

theorem listedFrom_eq_some {source text : String} {i : Import} :
    listedFrom source i = some text ↔
      ∃ name asName, i = .member source name asName ∧ aliased name asName = text := by
  cases i with
  | module path asName => simp [listedFrom]
  | star source' => simp [listedFrom]
  | member source' name asName =>
    simp only [listedFrom, Option.ite_none_right_eq_some, Option.some.injEq, Import.member.injEq]
    constructor
    · rintro ⟨rfl, rfl⟩
      exact ⟨name, asName, ⟨rfl, rfl, rfl⟩, rfl⟩
    · rintro ⟨_, _, ⟨rfl, rfl, rfl⟩, rfl⟩
      exact ⟨rfl, rfl⟩

/-- A member is drawn from one source. -/
theorem listedFrom_of_ne {source source' : String} {i : Import} (h : (listedFrom source i).isSome = true)
    (hne : source' ≠ source) : listedFrom source' i = none := by
  obtain ⟨text, htext⟩ := Option.isSome_iff_exists.1 h
  obtain ⟨name, asName, rfl, -⟩ := listedFrom_eq_some.1 htext
  simp [listedFrom, Ne.symm hne]

/-- The members of a source among `imports`, in the order of their line. -/
def membersOf (source : String) (imports : List Import) : List Import :=
  (sortedOnce (imports.filterMap (listedFrom source))).filterMap fun text =>
    imports.find? fun i => listedFrom source i == some text

theorem mem_membersOf {source : String} {imports : List Import} {i : Import}
    (h : i ∈ membersOf source imports) : i ∈ imports ∧ (listedFrom source i).isSome = true := by
  obtain ⟨text, -, hfind⟩ := List.mem_filterMap.1 h
  have htext : listedFrom source i = some text := by simpa using List.find?_some hfind
  exact ⟨List.mem_of_find?_eq_some hfind, by simp [htext]⟩

/-- Every text that members are found for is found. -/
theorem filterMap_find {source : String} {imports : List Import} {texts : List String}
    (h : ∀ text ∈ texts, text ∈ imports.filterMap (listedFrom source)) :
    (texts.filterMap fun text => imports.find? fun i => listedFrom source i == some text).filterMap
      (listedFrom source) = texts := by
  induction texts with
  | nil => rfl
  | cons text texts ih =>
    obtain ⟨i, hi, htext⟩ := List.mem_filterMap.1 (h text List.mem_cons_self)
    have hrest := ih fun text' hmem => h text' (List.mem_cons_of_mem _ hmem)
    cases hfind : imports.find? fun i => listedFrom source i == some text with
    | none =>
      have := List.find?_eq_none.1 hfind i hi
      simp [htext] at this
    | some found =>
      have hfound : listedFrom source found = some text := by simpa using List.find?_some hfind
      rw [List.filterMap_cons, hfind]
      simp [hfound, hrest]

theorem texts_membersOf (source : String) (imports : List Import) :
    (membersOf source imports).filterMap (listedFrom source) =
      sortedOnce (imports.filterMap (listedFrom source)) :=
  filterMap_find fun text => ((sortedOnce_spec _).2 text).1

theorem mem_texts_membersOf {source text : String} {imports : List Import} {i : Import} (h : i ∈ imports)
    (htext : listedFrom source i = some text) :
    ∃ j ∈ membersOf source imports, listedFrom source j = some text := by
  have hmem := ((sortedOnce_spec _).2 text).2 (List.mem_filterMap.2 ⟨i, h, htext⟩)
  rw [← texts_membersOf] at hmem
  exact List.mem_filterMap.1 hmem

/-! ## Groups of imports -/

/-- An import that has a line of its own. -/
def IsSingle (i : Import) : Prop := ∀ source, listedFrom source i = none

theorem isSingle_or_member (i : Import) :
    IsSingle i ∨ ∃ source name asName, i = .member source name asName := by
  cases i with
  | module path asName => exact .inl fun _ => rfl
  | star source => exact .inl fun _ => rfl
  | member source name asName => exact .inr ⟨source, name, asName, rfl⟩

theorem blockLines_single {done : List String} {i : Import} (h : IsSingle i) (rest : List Import) :
    blockLines done (i :: rest) = i.render :: blockLines done rest := by
  cases i with
  | module path asName => rfl
  | star source => rfl
  | member source name asName =>
    have := h source
    simp [listedFrom] at this

/-- The groups of imports that the lines of a block stand for; the members of the sources in `done` have
their group already. -/
def groups (done : List String) : List Import → List (List Import)
  | [] => []
  | .member source name asName :: rest =>
    if done.contains source then groups done rest
    else membersOf source (.member source name asName :: rest) :: groups (source :: done) rest
  | other :: rest => [other] :: groups done rest

theorem groups_single {done : List String} {i : Import} (h : IsSingle i) (rest : List Import) :
    groups done (i :: rest) = [i] :: groups done rest := by
  cases i with
  | module path asName => rfl
  | star source => rfl
  | member source name asName =>
    have := h source
    simp [listedFrom] at this

/-- A group of imports and the line that it is written on. -/
inductive IsGroup : List Import → String → Prop where
  /-- A module or a star import. -/
  | single {i : Import} (h : IsSingle i) : IsGroup [i] i.render
  /-- Members of one source. -/
  | members {source : String} {items : List Import} (hne : items ≠ [])
      (hall : ∀ i ∈ items, (listedFrom source i).isSome = true)
      (hordered : Ordered (items.filterMap (listedFrom source))) :
      IsGroup items ("from " ++ source ++ " import " ++
        Text.join ", " (items.filterMap (listedFrom source)))

/-- An import by itself is a group. -/
theorem isGroup_render (i : Import) : IsGroup [i] i.render := by
  rcases isSingle_or_member i with hsingle | ⟨source, name, asName, rfl⟩
  · exact .single hsingle
  · have htext : listedFrom source (.member source name asName) = some (aliased name asName) := by
      simp [listedFrom]
    have hgroup := @IsGroup.members source [.member source name asName] (List.cons_ne_nil _ _)
      (by simp [htext]) (by simp [htext, Ordered])
    simpa [htext, Text.join, render] using hgroup

theorem isGroup_membersOf {source : String} {imports : List Import}
    (h : imports.filterMap (listedFrom source) ≠ []) :
    IsGroup (membersOf source imports) ("from " ++ source ++ " import " ++
      Text.join ", " (sortedOnce (imports.filterMap (listedFrom source)))) := by
  obtain ⟨text, more, hcons⟩ := List.exists_cons_of_ne_nil h
  obtain ⟨i, hi, htext⟩ := List.mem_filterMap.1 (hcons ▸ List.mem_cons_self : text ∈ _)
  obtain ⟨j, hj, -⟩ := mem_texts_membersOf hi htext
  have hordered := (sortedOnce_spec (imports.filterMap (listedFrom source))).1
  rw [← texts_membersOf] at hordered ⊢
  exact .members (List.ne_nil_of_mem hj) (fun i hi => (mem_membersOf hi).2) hordered

/-- Each line of a block is that of its group. -/
theorem isGroup_groups (done : List String) (imports : List Import) :
    List.Forall₂ IsGroup (groups done imports) (blockLines done imports) := by
  induction imports generalizing done with
  | nil => exact .nil
  | cons i rest ih =>
    rcases isSingle_or_member i with hi | ⟨source, name, asName, rfl⟩
    · rw [groups_single hi, blockLines_single hi]
      exact .cons (.single hi) (ih done)
    · rw [groups, blockLines]
      by_cases hdone : done.contains source = true
      · rw [if_pos hdone, if_pos hdone]
        exact ih done
      · rw [if_neg hdone, if_neg hdone]
        have hlisted : (Import.member source name asName :: rest).filterMap (listedFrom source) =
            aliased name asName :: rest.filterMap (listedFrom source) := by simp [listedFrom]
        have hgroup := isGroup_membersOf (hlisted ▸ List.cons_ne_nil _ _)
        rw [hlisted] at hgroup
        exact .cons hgroup (ih (source :: done))

/-! ## The imports of groups -/

theorem mem_groups {done : List String} {imports : List Import} {i : Import}
    (h : i ∈ (groups done imports).flatten) :
    i ∈ imports ∧ ∀ source ∈ done, listedFrom source i = none := by
  induction imports generalizing done with
  | nil => cases h
  | cons j rest ih =>
    rcases isSingle_or_member j with hj | ⟨source, name, asName, rfl⟩
    · rw [groups_single hj] at h
      rcases List.mem_cons.1 h with rfl | h
      · exact ⟨List.mem_cons_self, fun source _ => hj source⟩
      · exact ⟨List.mem_cons_of_mem _ (ih h).1, (ih h).2⟩
    · rw [groups] at h
      by_cases hdone : done.contains source = true
      · rw [if_pos hdone] at h
        exact ⟨List.mem_cons_of_mem _ (ih h).1, (ih h).2⟩
      · rw [if_neg hdone, List.flatten_cons] at h
        rcases List.mem_append.1 h with h | h
        · obtain ⟨hmem, hlisted⟩ := mem_membersOf h
          refine ⟨hmem, fun source' hsource' => listedFrom_of_ne hlisted ?_⟩
          rintro rfl
          exact hdone (List.contains_iff_mem.2 hsource')
        · obtain ⟨hmem, hnone⟩ := ih h
          exact ⟨List.mem_cons_of_mem _ hmem, fun source' h' => hnone source' (List.mem_cons_of_mem _ h')⟩

theorem render_of_listedFrom {source text : String} {i : Import} (h : listedFrom source i = some text) :
    i.render = "from " ++ source ++ " import " ++ text := by
  obtain ⟨name, asName, rfl, rfl⟩ := listedFrom_eq_some.1 h
  rfl

/-- What has no line yet is written as something of a group is. -/
theorem exists_mem_groups {done : List String} {imports : List Import} {i : Import} (h : i ∈ imports)
    (hdone : ∀ source ∈ done, listedFrom source i = none) :
    ∃ j ∈ (groups done imports).flatten, j.render = i.render := by
  induction imports generalizing done with
  | nil => cases h
  | cons k rest ih =>
    rcases isSingle_or_member k with hk | ⟨source, name, asName, rfl⟩
    · rw [groups_single hk]
      rcases List.mem_cons.1 h with rfl | h
      · exact ⟨i, List.mem_cons_self, rfl⟩
      · obtain ⟨j, hj, heq⟩ := ih h hdone
        exact ⟨j, List.mem_cons_of_mem _ hj, heq⟩
    · have hfirst : listedFrom source (.member source name asName) = some (aliased name asName) := by
        simp [listedFrom]
      rw [groups]
      by_cases hcontains : done.contains source = true
      · rw [if_pos hcontains]
        rcases List.mem_cons.1 h with rfl | h
        · rw [hdone source (List.contains_iff_mem.1 hcontains)] at hfirst
          cases hfirst
        · exact ih h hdone
      · rw [if_neg hcontains, List.flatten_cons]
        cases hlisted : listedFrom source i with
        | none =>
          have hrest : i ∈ rest := by
            rcases List.mem_cons.1 h with rfl | h
            · rw [hfirst] at hlisted
              cases hlisted
            · exact h
          obtain ⟨j, hj, heq⟩ := @ih (source :: done) hrest (List.forall_mem_cons.2 ⟨hlisted, hdone⟩)
          exact ⟨j, List.mem_append_right _ hj, heq⟩
        | some text =>
          obtain ⟨j, hj, hjtext⟩ := mem_texts_membersOf h hlisted
          refine ⟨j, List.mem_append_left _ hj, ?_⟩
          rw [render_of_listedFrom hjtext, render_of_listedFrom hlisted]

/-- Each source has its members in one group. -/
theorem pairwise_groups (done : List String) (imports : List Import) :
    (groups done imports).Pairwise fun group later =>
      ∀ i ∈ group, ∀ j ∈ later, ∀ source, (listedFrom source i).isSome = true →
        listedFrom source j = none := by
  induction imports generalizing done with
  | nil => exact .nil
  | cons i rest ih =>
    rcases isSingle_or_member i with hi | ⟨source, name, asName, rfl⟩
    · rw [groups_single hi]
      refine List.pairwise_cons.2 ⟨fun later _ j hj k _ source hsource => ?_, ih done⟩
      obtain rfl := List.mem_singleton.1 hj
      rw [hi source] at hsource
      cases hsource
    · rw [groups]
      by_cases hdone : done.contains source = true
      · rw [if_pos hdone]
        exact ih done
      · rw [if_neg hdone]
        refine List.pairwise_cons.2 ⟨fun later hlater j hj k hk source' hsource' => ?_, ih _⟩
        have hnone := (mem_groups (List.mem_flatten.2 ⟨later, hlater, hk⟩)).2 source List.mem_cons_self
        by_cases heq : source' = source
        · exact heq ▸ hnone
        · rw [listedFrom_of_ne (mem_membersOf hj).2 heq] at hsource'
          cases hsource'

theorem nodup_membersOf (source : String) (imports : List Import) :
    (membersOf source imports).Nodup := by
  have hordered := (sortedOnce_spec (imports.filterMap (listedFrom source))).1
  rw [← texts_membersOf, Ordered, List.pairwise_filterMap] at hordered
  refine hordered.imp_of_mem fun {i j} hi _ h heq => ?_
  obtain ⟨text, htext⟩ := Option.isSome_iff_exists.1 (mem_membersOf hi).2
  exact (h text htext text (heq ▸ htext)).2 rfl

/-- A module or a star import is in the groups as often as it is listed. -/
theorem count_groups_single {i : Import} (h : IsSingle i) (done : List String) (imports : List Import) :
    (groups done imports).flatten.count i = imports.count i := by
  have hnot : ∀ source {j}, (listedFrom source j).isSome = true → i ≠ j := fun _ _ hj heq => by
    rw [← heq, h] at hj
    cases hj
  induction imports generalizing done with
  | nil => rfl
  | cons j rest ih =>
    rcases isSingle_or_member j with hj | ⟨source, name, asName, rfl⟩
    · rw [groups_single hj, List.flatten_cons, List.singleton_append, List.count_cons, List.count_cons, ih]
    · have hne : i ≠ .member source name asName := hnot source (by simp [listedFrom])
      rw [groups, List.count_cons_of_ne hne.symm]
      by_cases hdone : done.contains source = true
      · rw [if_pos hdone, ih]
      · rw [if_neg hdone, List.flatten_cons, List.count_append, ih, List.count_eq_zero.2, Nat.zero_add]
        exact fun hmem => hnot source (mem_membersOf hmem).2 rfl

/-- A member is in the groups once at most. -/
theorem count_groups_member (source name : String) (asName : Option String) (done : List String)
    (imports : List Import) :
    (groups done imports).flatten.count (.member source name asName) ≤ 1 := by
  have hlisted : (listedFrom source (.member source name asName)).isSome = true := by simp [listedFrom]
  induction imports generalizing done with
  | nil => simp [groups]
  | cons j rest ih =>
    rcases isSingle_or_member j with hj | ⟨source', name', asName', rfl⟩
    · have hne : j ≠ .member source name asName := fun heq => by
        rw [← heq, hj] at hlisted
        cases hlisted
      rw [groups_single hj, List.flatten_cons, List.singleton_append, List.count_cons_of_ne hne]
      exact ih done
    · rw [groups]
      by_cases hdone : done.contains source' = true
      · rw [if_pos hdone]
        exact ih done
      · rw [if_neg hdone, List.flatten_cons, List.count_append]
        -- the members of this source are in this group only, and those of another one in later groups
        by_cases hsource : source = source'
        · subst hsource
          have hlater : Import.member source name asName ∉ (groups (source :: done) rest).flatten :=
            fun hmem => by
              rw [(mem_groups hmem).2 source List.mem_cons_self] at hlisted
              cases hlisted
          rw [List.count_eq_zero.2 hlater, Nat.add_zero]
          exact List.nodup_iff_count.1 (nodup_membersOf _ _) _
        · have hhere : Import.member source name asName ∉
              membersOf source' (.member source' name' asName' :: rest) := fun hmem => by
            have := listedFrom_of_ne (mem_membersOf hmem).2 hsource
            simp [this] at hlisted
          rw [List.count_eq_zero.2 hhere, Nat.zero_add]
          exact ih _

/-- Members of sources that have their line already are passed over. -/
theorem blockLines_skip {done : List String} {items : List Import} {source : String}
    (hdone : source ∈ done) (h : ∀ i ∈ items, (listedFrom source i).isSome = true) (rest : List Import) :
    blockLines done (items ++ rest) = blockLines done rest := by
  induction items with
  | nil => rfl
  | cons i items ih =>
    obtain ⟨text, htext⟩ := Option.isSome_iff_exists.1 (h i List.mem_cons_self)
    obtain ⟨name, asName, rfl, -⟩ := listedFrom_eq_some.1 htext
    rw [List.cons_append, blockLines, if_pos (List.contains_iff_mem.2 hdone)]
    exact ih fun j hj => h j (List.mem_cons_of_mem _ hj)

/-- Members of one source before imports that draw nothing from it. -/
theorem blockLines_members {done : List String} {items rest : List Import} {source : String}
    (hdone : source ∉ done) (hne : items ≠ []) (h : ∀ i ∈ items, (listedFrom source i).isSome = true)
    (hrest : rest.filterMap (listedFrom source) = []) :
    blockLines done (items ++ rest) = ("from " ++ source ++ " import " ++
      Text.join ", " (sortedOnce (items.filterMap (listedFrom source)))) ::
        blockLines (source :: done) rest := by
  obtain ⟨i, items, rfl⟩ := List.exists_cons_of_ne_nil hne
  obtain ⟨text, htext⟩ := Option.isSome_iff_exists.1 (h i List.mem_cons_self)
  obtain ⟨name, asName, rfl, rfl⟩ := listedFrom_eq_some.1 htext
  have hskip := @blockLines_skip (source :: done) _ _ List.mem_cons_self
    (fun j hj => h j (List.mem_cons_of_mem _ hj)) rest
  rw [List.cons_append, blockLines, if_neg (by simpa using hdone), hskip, List.filterMap_append, hrest,
    List.append_nil, List.filterMap_cons_some htext]

/-- **The groups of imports, one behind the other, have the lines of the imports.** -/
theorem blockLines_groups (done : List String) (imports : List Import) :
    blockLines done (groups done imports).flatten = blockLines done imports := by
  induction imports generalizing done with
  | nil => rfl
  | cons i rest ih =>
    rcases isSingle_or_member i with hi | ⟨source, name, asName, rfl⟩
    · rw [groups_single hi, List.flatten_cons, List.singleton_append, blockLines_single hi,
        blockLines_single hi, ih]
    · rw [groups, blockLines]
      by_cases hdone : done.contains source = true
      · rw [if_pos hdone, if_pos hdone]
        exact ih done
      · rw [if_neg hdone, if_neg hdone, List.flatten_cons]
        have hne : membersOf source (.member source name asName :: rest) ≠ [] := by
          have htext : listedFrom source (.member source name asName) = some (aliased name asName) := by
            simp [listedFrom]
          obtain ⟨j, hj, -⟩ := mem_texts_membersOf (List.mem_cons_self (l := rest)) htext
          exact List.ne_nil_of_mem hj
        have hrest : (groups (source :: done) rest).flatten.filterMap (listedFrom source) = [] :=
          List.filterMap_eq_nil_iff.2 fun j hj => (mem_groups hj).2 source List.mem_cons_self
        have hordered := (sortedOnce_spec
          ((Import.member source name asName :: rest).filterMap (listedFrom source))).1
        rw [blockLines_members (by simpa using hdone) hne (fun j hj => (mem_membersOf hj).2) hrest,
          texts_membersOf, sortedOnce_of_ordered hordered, ih]
        simp [listedFrom]

/-! ## The order of a block -/

/-- Imports that turn on features of the language stand before all others. -/
def FutureFirst (imports : List Import) : Prop :=
  imports.Pairwise fun i j => j.isFuture = true → i.isFuture = true

/-- Imports with those first that turn on features. -/
def futureFirst (imports : List Import) : List Import :=
  imports.filter isFuture ++ imports.filter (!·.isFuture)

theorem futureFirst_spec (imports : List Import) : FutureFirst (futureFirst imports) := by
  refine List.pairwise_append.2 ⟨?_, ?_, fun i hi _ _ _ => (List.mem_filter.1 hi).2⟩
  · exact List.pairwise_of_forall_mem_list fun i hi _ _ _ => (List.mem_filter.1 hi).2
  · refine List.pairwise_of_forall_mem_list fun _ _ j hj hfuture => ?_
    simp [hfuture] at hj

theorem futureFirst_of_futureFirst {imports : List Import} (h : FutureFirst imports) :
    futureFirst imports = imports := by
  unfold futureFirst
  induction imports with
  | nil => rfl
  | cons i rest ih =>
    obtain ⟨hi, hrest⟩ := List.pairwise_cons.1 h
    by_cases hfuture : i.isFuture = true
    · simp [hfuture, ih hrest]
    · have hnone : rest.filter isFuture = [] :=
        List.filter_eq_nil_iff.2 fun j hj hj' => hfuture (hi j hj hj')
      have := ih hrest
      rw [hnone, List.nil_append] at this
      simp [hfuture, hnone, this]

theorem isFuture_of_listedFrom {source : String} {i : Import} (h : (listedFrom source i).isSome = true) :
    i.isFuture = (source == "__future__") := by
  obtain ⟨text, htext⟩ := Option.isSome_iff_exists.1 h
  obtain ⟨name, asName, rfl, -⟩ := listedFrom_eq_some.1 htext
  rfl

theorem futureFirst_groups {imports : List Import} (h : FutureFirst imports) (done : List String) :
    FutureFirst (groups done imports).flatten := by
  induction imports generalizing done with
  | nil => exact .nil
  | cons i rest ih =>
    obtain ⟨hi, hrest⟩ := List.pairwise_cons.1 h
    rcases isSingle_or_member i with hsingle | ⟨source, name, asName, rfl⟩
    · rw [groups_single hsingle]
      exact List.pairwise_cons.2 ⟨fun j hj => hi j (mem_groups hj).1, ih hrest done⟩
    · rw [groups]
      by_cases hdone : done.contains source = true
      · rw [if_pos hdone]
        exact ih hrest done
      · rw [if_neg hdone, List.flatten_cons]
        have hmember : ∀ j ∈ membersOf source (.member source name asName :: rest),
            j.isFuture = (source == "__future__") := fun j hj =>
          isFuture_of_listedFrom (mem_membersOf hj).2
        refine List.pairwise_append.2 ⟨?_, ih hrest _, fun j hj k hk hfuture => ?_⟩
        · refine List.pairwise_of_forall_mem_list fun j hj k hk hfuture => ?_
          rw [hmember j hj, ← hmember k hk, hfuture]
        · rw [hmember j hj]
          exact hi k (mem_groups hk).1 hfuture

/-- The imports in the order of their block: sorted within each line, and each once. -/
def arranged (imports : List Import) : List Import := (groups [] (futureFirst imports)).flatten

theorem isGroup_block (imports : List Import) :
    List.Forall₂ IsGroup (groups [] (futureFirst imports)) (block imports) :=
  isGroup_groups [] (futureFirst imports)

theorem mem_of_mem_arranged {imports : List Import} {i : Import} (h : i ∈ arranged imports) :
    i ∈ imports := by
  rcases List.mem_append.1 (mem_groups h).1 with h | h
  · exact (List.mem_filter.1 h).1
  · exact (List.mem_filter.1 h).1

theorem count_arranged_single {i : Import} (h : IsSingle i) (imports : List Import) :
    (arranged imports).count i = imports.count i := by
  rw [arranged, count_groups_single h]
  exact (List.filter_append_perm isFuture imports).count_eq i

/-- No import is lost but for how it is written. -/
theorem exists_mem_arranged {imports : List Import} {i : Import} (h : i ∈ imports) :
    ∃ j ∈ arranged imports, j.render = i.render := by
  refine exists_mem_groups ?_ fun source hsource => by cases hsource
  by_cases hfuture : i.isFuture = true
  · exact List.mem_append_left _ (List.mem_filter.2 ⟨h, hfuture⟩)
  · exact List.mem_append_right _ (List.mem_filter.2 ⟨h, by simpa using hfuture⟩)

/-- **The imports of a block are written as the same block again.** -/
theorem block_arranged (imports : List Import) : block (arranged imports) = block imports := by
  have hfirst := futureFirst_groups (futureFirst_spec imports) []
  have harranged := futureFirst_of_futureFirst hfirst
  show blockLines [] (futureFirst (arranged imports)) = blockLines [] (futureFirst imports)
  rw [arranged, harranged, blockLines_groups]

end TypedStubs.Import
