import Mathlib.Data.List.Nodup
import TypedStubs.Hint.Union
import TypedStubs.Proofs.Hint.RoundTrip

/-! # Normal unions

The leaves of a hint are what is left when every union is taken apart that stands directly in a union.
A hint is normal if it is no union, or the union of two or more different hints that are none.

Unions are taken apart one level deep.  So hints make the union of their leaves, each listed once, if no
union among them has a union as a member, and in general just when the answer is normal
(`unionOf?_flattens_once`).  A union that is deeper in stays where it is (`nested_union_stays`).
-/
namespace TypedStubs.Hint

mutual
/-- The leaves of a hint: itself, or those of the members of a union. -/
def leaves : Hint → List Hint
  | .union members => leavesAll members
  | .name path => [.name path]
  | .subscript head args => [.subscript head args]
  | .list items => [.list items]
  | .literal text => [.literal text]

/-- The leaves of several hints, in order. -/
def leavesAll : List Hint → List Hint
  | [] => []
  | h :: hs => leaves h ++ leavesAll hs
end

/-- The hint that different hints make: none of them, the only one, or the union of several. -/
def ofDistinct? : List Hint → Option Hint
  | [] => none
  | [only] => some only
  | several => some (.union several)

/-- Whether a hint is no union, or a union of two or more different hints that are none. -/
def IsNormal : Hint → Prop
  | .union members => 1 < members.length ∧ members.Nodup ∧ ∀ h ∈ members, h.isUnion = false
  | _ => True

/-- Whether no union among hints has a union as a member. -/
def AreShallow (hints : List Hint) : Prop := ∀ h ∈ hints, ∀ m ∈ h.members, m.isUnion = false

instance (hints : List Hint) : Decidable (AreShallow hints) :=
  inferInstanceAs (Decidable (∀ h ∈ hints, ∀ m ∈ h.members, m.isUnion = false))

variable {h : Hint} {hints seen : List Hint}

/-! ### Each hint once -/

theorem addNew_of_mem (hmem : h ∈ seen) : addNew seen h = seen := by
  simp [addNew, hmem]

theorem addNew_of_not_mem (hmem : h ∉ seen) : addNew seen h = seen ++ [h] := by
  simp [addNew, hmem]

theorem foldl_addNew (hints seen : List Hint) :
    hints.foldl addNew seen = seen ++ (hints.removeAll seen).eraseDups := by
  induction hints generalizing seen with
  | nil => simp [List.removeAll]
  | cons h hints ih =>
    rw [List.foldl_cons, ih]
    by_cases hmem : h ∈ seen
    · rw [addNew_of_mem hmem]
      simp [List.removeAll, hmem]
    · rw [addNew_of_not_mem hmem]
      simp [List.removeAll, hmem, List.eraseDups_cons, List.filter_filter, beq_eq_decide,
        Bool.and_comm]

theorem nodup_addNew (hnodup : seen.Nodup) (h : Hint) : (addNew seen h).Nodup := by
  by_cases hmem : h ∈ seen
  · rwa [addNew_of_mem hmem]
  · rw [addNew_of_not_mem hmem, ← List.concat_eq_append]
    exact List.Nodup.concat hmem hnodup

theorem nodup_foldl_addNew (hints : List Hint) (hnodup : seen.Nodup) :
    (hints.foldl addNew seen).Nodup := by
  induction hints generalizing seen with
  | nil => exact hnodup
  | cons h hints ih => exact ih (nodup_addNew hnodup h)

theorem nodup_eraseDups (hints : List Hint) : hints.eraseDups.Nodup := by
  have hnodup := nodup_foldl_addNew hints List.nodup_nil
  rwa [foldl_addNew, List.nil_append, List.removeAll_nil] at hnodup

theorem eraseDups_of_nodup (hnodup : hints.Nodup) : hints.eraseDups = hints := by
  induction hints with
  | nil => rfl
  | cons h hints ih =>
    obtain ⟨hnot, hrest⟩ := List.nodup_cons.1 hnodup
    have hfilter : hints.filter (fun k => !k == h) = hints := by
      refine List.filter_eq_self.2 fun k hk => ?_
      have hne : k ≠ h := fun heq => hnot (heq ▸ hk)
      simpa using hne
    rw [List.eraseDups_cons, hfilter, ih hrest]

/-- What is there already adds nothing. -/
theorem eraseDups_append_of_subset {more : List Hint} (hnodup : hints.Nodup)
    (hmore : ∀ h ∈ more, h ∈ hints) : (hints ++ more).eraseDups = hints := by
  have hnone : more.removeAll hints = [] :=
    List.filter_eq_nil_iff.2 fun h hmem => by simp [hmore h hmem]
  rw [List.eraseDups_append, hnone, eraseDups_of_nodup hnodup]
  exact List.append_nil hints

/-- **What a union lists.**  The hints give way to their members, and each member is listed where it
stands first. -/
theorem unionOf?_eq (hints : List Hint) :
    unionOf? hints = ofDistinct? (hints.flatMap members).eraseDups := by
  have hmembers : unionMembers hints = (hints.flatMap members).eraseDups := by
    rw [unionMembers, foldl_addNew, List.nil_append, List.removeAll_nil]
  rw [unionOf?, hmembers]
  cases (hints.flatMap members).eraseDups with
  | nil => rfl
  | cons first more => cases more <;> rfl

/-! ### Leaves -/

theorem leaves_of_not_isUnion (hunion : h.isUnion = false) : h.leaves = [h] := by
  cases h <;> first | rfl | cases hunion

theorem leavesAll_append (hints more : List Hint) :
    leavesAll (hints ++ more) = leavesAll hints ++ leavesAll more := by
  induction hints with
  | nil => rfl
  | cons h hints ih => simp [leavesAll, ih]

theorem leavesAll_members (h : Hint) : leavesAll h.members = h.leaves := by
  cases h <;> simp [members, leavesAll, leaves]

/-- Taking the members of each hint first changes no leaf. -/
theorem leavesAll_flatMap_members (hints : List Hint) :
    leavesAll (hints.flatMap members) = leavesAll hints := by
  induction hints with
  | nil => rfl
  | cons h hints ih => rw [List.flatMap_cons, leavesAll_append, leavesAll_members, ih, leavesAll]

theorem leavesAll_of_not_isUnion (hunion : ∀ h ∈ hints, h.isUnion = false) :
    leavesAll hints = hints := by
  induction hints with
  | nil => rfl
  | cons h hints ih =>
    obtain ⟨hfirst, hrest⟩ := List.forall_mem_cons.1 hunion
    rw [leavesAll, leaves_of_not_isUnion hfirst, ih hrest]
    rfl

mutual
theorem not_isUnion_of_mem_leaves : ∀ {h k : Hint}, k ∈ h.leaves → k.isUnion = false
  | .union _, _, hmem => not_isUnion_of_mem_leavesAll hmem
  | .name _, _, hmem | .subscript _ _, _, hmem | .list _, _, hmem | .literal _, _, hmem => by
    rw [List.mem_singleton.1 hmem]
    rfl

theorem not_isUnion_of_mem_leavesAll : ∀ {hs : List Hint} {k : Hint},
    k ∈ leavesAll hs → k.isUnion = false
  | _ :: _, _, hmem => (List.mem_append.1 hmem).elim not_isUnion_of_mem_leaves
      not_isUnion_of_mem_leavesAll
end

theorem mem_leavesAll_of_forall_eq {k : Hint} (hall : ∀ h ∈ hints, h = k) {leaf : Hint}
    (hmem : leaf ∈ leavesAll hints) : leaf ∈ k.leaves := by
  induction hints with
  | nil => cases hmem
  | cons h hints ih =>
    obtain ⟨rfl, hrest⟩ := List.forall_mem_cons.1 hall
    exact (List.mem_append.1 hmem).elim id (ih hrest)

/-! ### Normal hints -/

theorem IsNormal.leaves_eq (hnormal : h.IsNormal) : h.leaves = h.members := by
  cases h with
  | union members => exact leavesAll_of_not_isUnion hnormal.2.2
  | _ => rfl

theorem IsNormal.nodup_members (hnormal : h.IsNormal) : h.members.Nodup := by
  cases h with
  | union members => exact hnormal.2.1
  | _ => exact List.nodup_singleton _

theorem IsNormal.ofDistinct?_members (hnormal : h.IsNormal) : ofDistinct? h.members = some h := by
  cases h with
  | union members =>
    obtain ⟨hlength, -, -⟩ := hnormal
    match members with
    | first :: second :: more => rfl
  | _ => rfl

theorem ofDistinct?_eq_none_iff : ofDistinct? hints = none ↔ hints = [] := by
  match hints with
  | [] | [_] | _ :: _ :: _ => simp [ofDistinct?]

theorem eraseDups_eq_nil_iff : hints.eraseDups = [] ↔ hints = [] := by
  cases hints <;> simp [List.eraseDups_cons]

/-- Different hints that are no unions make a normal hint. -/
theorem isNormal_of_ofDistinct? (hnodup : hints.Nodup) (hunion : ∀ k ∈ hints, k.isUnion = false)
    (hmake : ofDistinct? hints = some h) : h.IsNormal := by
  match hints with
  | [only] =>
    obtain rfl := Option.some.inj hmake
    have honly := hunion only (by simp)
    cases only with
    | union members => cases honly
    | _ => trivial
  | first :: second :: more =>
    obtain rfl := Option.some.inj hmake
    exact ⟨by simp, hnodup, hunion⟩

/-- What leaves make is normal. -/
theorem isNormal_of_leaves (hmake : ofDistinct? (leavesAll hints).eraseDups = some h) :
    h.IsNormal :=
  isNormal_of_ofDistinct? (nodup_eraseDups _)
    (fun _ hmem => not_isUnion_of_mem_leavesAll (List.mem_eraseDups.1 hmem)) hmake

/-- The leaves of hints that are all the same, each listed once. -/
theorem eraseDups_leavesAll_of_forall_eq (hnormal : h.IsNormal) (hne : hints ≠ [])
    (hall : ∀ k ∈ hints, k = h) : (leavesAll hints).eraseDups = h.members := by
  obtain ⟨first, more, rfl⟩ := List.exists_cons_of_ne_nil hne
  obtain ⟨rfl, hmore⟩ := List.forall_mem_cons.1 hall
  rw [leavesAll, hnormal.leaves_eq]
  refine eraseDups_append_of_subset hnormal.nodup_members fun leaf hmem => ?_
  exact hnormal.leaves_eq ▸ mem_leavesAll_of_forall_eq hmore hmem

/-- If members make a normal hint, their leaves make it as well. -/
theorem ofDistinct?_leaves_of_isNormal
    (hnormal : ∀ h, ofDistinct? hints.eraseDups = some h → h.IsNormal) :
    ofDistinct? (leavesAll hints).eraseDups = ofDistinct? hints.eraseDups := by
  cases hdistinct : hints.eraseDups with
  | nil =>
    rw [eraseDups_eq_nil_iff.1 hdistinct]
    rfl
  | cons first more =>
    rw [hdistinct] at hnormal
    cases more with
    | nil =>
      -- every member is the same hint, which may be a union
      have hall : ∀ h ∈ hints, h = first := fun h hmem =>
        List.mem_singleton.1 (hdistinct ▸ List.mem_eraseDups.2 hmem)
      have hne : hints ≠ [] := fun hnil => by simp [eraseDups_eq_nil_iff.2 hnil] at hdistinct
      have hfirst : first.IsNormal := hnormal first rfl
      rw [eraseDups_leavesAll_of_forall_eq hfirst hne hall, hfirst.ofDistinct?_members]
      rfl
    | cons second more =>
      -- a normal union has no unions as members, so the members are the leaves
      have hunion := (hnormal _ rfl).2.2
      rw [leavesAll_of_not_isUnion fun h hmem =>
        hunion h (hdistinct ▸ List.mem_eraseDups.2 hmem), hdistinct]

theorem unionOf?_toList (hnormal : ∀ h, unionOf? hints = some h → h.IsNormal) :
    unionOf? (unionOf? hints).toList = unionOf? hints := by
  cases hmake : unionOf? hints with
  | none => rfl
  | some h =>
    have hh := hnormal h hmake
    rw [unionOf?_eq, Option.toList_some, List.flatMap_singleton, eraseDups_of_nodup hh.nodup_members,
      hh.ofDistinct?_members]

/-- The union of hints is that of their leaves if no union has a union as a member. -/
theorem unionOf?_of_areShallow (hshallow : AreShallow hints) :
    unionOf? hints = ofDistinct? (leavesAll hints).eraseDups := by
  have hunion : ∀ m ∈ hints.flatMap members, m.isUnion = false := fun m hmem =>
    have ⟨h, hh, hm⟩ := List.mem_flatMap.1 hmem
    hshallow h hh m hm
  rw [unionOf?_eq, ← leavesAll_flatMap_members, leavesAll_of_not_isUnion hunion]

/-- **Unions are flattened one level deep.**  The hints give way to their members, each listed where it
stands first.  This is the union of their leaves just when it is normal, and it is so if no union among
the hints has a union as a member: then there is none only if there is no leaf, and the union of the
answer is the answer. -/
theorem unionOf?_flattens_once (hints : List Hint) :
    unionOf? hints = ofDistinct? (hints.flatMap members).eraseDups ∧
    (unionOf? hints = ofDistinct? (leavesAll hints).eraseDups ↔
      ∀ h, unionOf? hints = some h → h.IsNormal) ∧
    (AreShallow hints →
      (unionOf? hints = none ↔ leavesAll hints = []) ∧
      unionOf? hints = ofDistinct? (leavesAll hints).eraseDups ∧
      (∀ h, unionOf? hints = some h → h.IsNormal) ∧
      unionOf? (unionOf? hints).toList = unionOf? hints) := by
  have hiff : unionOf? hints = ofDistinct? (leavesAll hints).eraseDups ↔
      ∀ h, unionOf? hints = some h → h.IsNormal := by
    constructor
    · intro heq h hmake
      exact isNormal_of_leaves (heq.symm.trans hmake)
    · intro hnormal
      rw [unionOf?_eq] at hnormal ⊢
      rw [← leavesAll_flatMap_members, ofDistinct?_leaves_of_isNormal hnormal]
  refine ⟨unionOf?_eq hints, hiff, fun hshallow => ?_⟩
  have heq := unionOf?_of_areShallow hshallow
  have hnormal := hiff.1 heq
  refine ⟨?_, heq, hnormal, unionOf?_toList hnormal⟩
  rw [heq, ofDistinct?_eq_none_iff, eraseDups_eq_nil_iff]

/-- Hints with a repeated member, one of them a union. -/
theorem unionOf?_flattens_once_pair :
    let hints : List Hint := [.name "int", .union [.name "str", .name "int"]]
    AreShallow hints ∧ unionOf? hints = some (.union [.name "int", .name "str"]) ∧
      unionOf? (unionOf? hints).toList = unionOf? hints := by
  intro hints
  have hshallow : AreShallow hints := by decide
  obtain ⟨heq, -, -, hagain⟩ := (unionOf?_flattens_once hints).2.2 hshallow
  exact ⟨hshallow, by decide, hagain⟩

/-- A union that is deeper in stays where it is, and so does a leaf of it that is listed once more.  The
union of the answer need not be the answer. -/
theorem nested_union_stays :
    let inner : Hint := .union [.name "int", .name "str"]
    let hints : List Hint := [.union [inner, .name "None"], .name "int"]
    let twice : Hint := .union [.name "int", .name "int"]
    parse "'int | str' | None" = .ok (.union [inner, .name "None"]) ∧
      unionOf? hints = some (.union [inner, .name "None", .name "int"]) ∧
      ofDistinct? (leavesAll hints).eraseDups =
        some (.union [.name "int", .name "str", .name "None"]) ∧
      unionOf? [.union [twice, twice]] = some twice ∧ unionOf? [twice] = some (.name "int") := by
  decide +kernel

end TypedStubs.Hint
