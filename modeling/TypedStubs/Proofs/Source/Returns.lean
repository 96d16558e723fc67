import TypedStubs.Proofs.Hint.Union
import TypedStubs.Proofs.Source.Walk
import TypedStubs.Source.Returns

/-! # What a body returns, read off its nodes

A function's own nodes are those of its body, nested functions, classes and lambdas apart, and nothing inside a
returned value.  What the walk finds is a sum over these nodes (`foldl_note`), so the type that it judges by is the
union of the returned types in the order of the source, unless one of them is not known
(`inferReturn_summarises`).
-/
namespace TypedStubs

open Syntax (Stmt)

/-- Whether a node is a `yield`. -/
def BodyNode.isYield : BodyNode → Bool
  | .expr (.node .yield _ _) => true
  | _ => false

/-- Whether a node is a `raise`. -/
def BodyNode.isRaise : BodyNode → Bool
  | .stmt (.raises _ _) => true
  | _ => false

/-- The type of what a `return` returns, if it is known; without a value it is that of the empty value. -/
def BodyNode.returned? : BodyNode → Option (Option Hint)
  | .stmt (.returns _ none) => some (some (.name "None"))
  | .stmt (.returns _ (some e)) => some (literalType e.kind e.text)
  | _ => none

/-- The types that the returns among nodes return, in order, so far as they are known. -/
def returnedTypes (nodes : List BodyNode) : List (Option Hint) := nodes.filterMap BodyNode.returned?

/-- What nodes say of the type of the returned value. -/
structure Summarises (nodes : List BodyNode) (type? : Option Hint) : Prop where
  /-- The type is open just if there is a `yield`, a returned value of unknown type, or only raising. -/
  open_iff : type? = none ↔ (∃ n ∈ nodes, n.isYield = true) ∨ none ∈ returnedTypes nodes ∨
    (∃ n ∈ nodes, n.isRaise = true) ∧ returnedTypes nodes = []
  /-- Where there is neither a `return` nor a `raise` nor a `yield`, nothing is returned. -/
  empty : returnedTypes nodes = [] → (∀ n ∈ nodes, n.isRaise = false ∧ n.isYield = false) →
    type? = some (.name "None")
  /-- Otherwise the type is the union of the returned types, in the order of the source. -/
  union : ∀ types, types ≠ [] → returnedTypes nodes = types.map some →
    (∀ n ∈ nodes, n.isYield = false) → type? = Hint.unionOf? types

/-! ### The sum over the nodes -/

namespace ReturnSummary

/-- What nodes add to what has been found. -/
def addNodes (found : ReturnSummary) (nodes : List BodyNode) : ReturnSummary where
  types := found.types ++ (returnedTypes nodes).filterMap id
  unclear := found.unclear || nodes.any BodyNode.isYield || (returnedTypes nodes).contains none
  raises := found.raises || nodes.any BodyNode.isRaise
  returns := found.returns || !(returnedTypes nodes).isEmpty

theorem addNodes_nil (found : ReturnSummary) : found.addNodes [] = found := by
  simp [addNodes, returnedTypes]

theorem addNodes_cons (found : ReturnSummary) (n : BodyNode) (nodes : List BodyNode) :
    (found.addNodes [n]).addNodes nodes = found.addNodes (n :: nodes) := by
  have htypes : returnedTypes (n :: nodes) = returnedTypes [n] ++ returnedTypes nodes :=
    List.filterMap_append (l := [n])
  simp only [addNodes, htypes]
  cases returnedTypes [n] <;> simp [Bool.or_assoc, Bool.or_left_comm]

/-- A node that is no `return`, no `raise` and no `yield` adds nothing. -/
theorem addNodes_of_silent {n : BodyNode} (found : ReturnSummary) (hreturned : n.returned? = none)
    (hraise : n.isRaise = false) (hyield : n.isYield = false) : found.addNodes [n] = found := by
  simp [addNodes, returnedTypes, hreturned, hraise, hyield]

theorem note_eq (found : ReturnSummary) (n : BodyNode) : found.note n = found.addNodes [n] := by
  cases n with
  | stmt s =>
    cases s with
    | returns _ value =>
      cases value with
      | none => simp [note, addNodes, returnedTypes, BodyNode.returned?,
          BodyNode.isYield, BodyNode.isRaise]
      | some e =>
        cases htype : literalType e.kind e.text <;>
          simp [note, addNodes, returnedTypes, BodyNode.returned?,
            BodyNode.isYield, BodyNode.isRaise, htype]
    | raises _ _ => simp [note, addNodes, returnedTypes, BodyNode.returned?,
          BodyNode.isYield, BodyNode.isRaise]
    | _ => exact (addNodes_of_silent found rfl rfl rfl).symm
  | expr e =>
    obtain ⟨kind, text, parts⟩ := e
    cases kind with
    | yield => simp [note, addNodes, returnedTypes, BodyNode.returned?,
          BodyNode.isYield, BodyNode.isRaise]
    | _ => exact (addNodes_of_silent found rfl rfl rfl).symm

/-- **Noting nodes one after the other sums up what they say.** -/
theorem foldl_note (nodes : List BodyNode) (found : ReturnSummary) :
    nodes.foldl note found = found.addNodes nodes := by
  induction nodes generalizing found with
  | nil => exact found.addNodes_nil.symm
  | cons n nodes ih => rw [List.foldl_cons, ih, note_eq, addNodes_cons]

theorem exists_name_of_returned {nodes : List BodyNode} {h : Hint}
    (hmem : some h ∈ returnedTypes nodes) : ∃ path, h = .name path := by
  obtain ⟨n, -, hn⟩ := List.mem_filterMap.1 hmem
  match n, hn with
  | .stmt (.returns _ none), hn =>
    exact ⟨_, (Option.some.inj (Option.some.inj hn)).symm⟩
  | .stmt (.returns _ (some e)), hn =>
    obtain ⟨path, -, rfl⟩ := Option.map_eq_some_iff.1 (Option.some.inj hn)
    exact ⟨path, rfl⟩

/-- Returned types that are all known have a union. -/
theorem unionOf?_ne_none {nodes : List BodyNode} {types : List Hint} (hne : types ≠ [])
    (htypes : returnedTypes nodes = types.map some) : Hint.unionOf? types ≠ none := by
  intro hnone
  rw [Hint.unionOf?_eq, Hint.ofDistinct?_eq_none_iff, Hint.eraseDups_eq_nil_iff,
    List.flatMap_eq_nil_iff] at hnone
  obtain ⟨h, hmem⟩ := List.exists_mem_of_ne_nil types hne
  obtain ⟨path, rfl⟩ : ∃ path, h = .name path :=
    exists_name_of_returned (htypes ▸ List.mem_map_of_mem hmem)
  exact absurd (hnone _ hmem) (List.cons_ne_nil _ _)

/-- Types none of which is unknown. -/
theorem exists_known {types : List (Option Hint)} (hnone : none ∉ types) :
    ∃ known : List Hint, types = known.map some := by
  refine ⟨types.filterMap id, ?_⟩
  induction types with
  | nil => rfl
  | cons type types ih =>
    obtain ⟨hfirst, hmore⟩ := not_or.1 (mt List.mem_cons.2 hnone)
    obtain ⟨h, rfl⟩ := Option.ne_none_iff_exists'.1 (Ne.symm hfirst)
    exact congrArg (some h :: ·) (ih hmore)

theorem unclear_addNodes (nodes : List BodyNode) : (({} : ReturnSummary).addNodes nodes).unclear = true ↔
    (∃ n ∈ nodes, n.isYield = true) ∨ none ∈ returnedTypes nodes := by
  simp [addNodes]

/-- **What the sum over nodes says is what the nodes say.** -/
theorem summarises_addNodes (nodes : List BodyNode) :
    Summarises nodes (({} : ReturnSummary).addNodes nodes).type? := by
  have hunclear := unclear_addNodes nodes
  by_cases hopen : (∃ n ∈ nodes, n.isYield = true) ∨ none ∈ returnedTypes nodes
  · have htype : (({} : ReturnSummary).addNodes nodes).type? = none := by
      simp [type?, hunclear.2 hopen]
    refine ⟨⟨fun _ => ?_, fun _ => htype⟩, fun hempty hsilent => ?_, fun types _ htypes hyield => ?_⟩
    · exact hopen.imp_right .inl
    · obtain ⟨n, hmem, hyes⟩ | hnone := hopen
      · exact absurd hyes (by simp [(hsilent n hmem).2])
      · exact absurd (hempty ▸ hnone) List.not_mem_nil
    · obtain ⟨n, hmem, hyes⟩ | hnone := hopen
      · exact absurd hyes (by simp [hyield n hmem])
      · exact absurd (htypes ▸ hnone) (by simp)
  obtain ⟨hyield, hnone⟩ := not_or.1 hopen
  obtain ⟨types, htypes⟩ := exists_known hnone
  have hclear : (({} : ReturnSummary).addNodes nodes).unclear = false :=
    Bool.eq_false_iff.2 (mt hunclear.1 hopen)
  have hfound : (({} : ReturnSummary).addNodes nodes).types = types := by
    simp [addNodes, htypes]
  have hreturns : (({} : ReturnSummary).addNodes nodes).returns = !types.isEmpty := by
    simp [addNodes, htypes]
  have hraises : (({} : ReturnSummary).addNodes nodes).raises = true ↔ ∃ n ∈ nodes, n.isRaise = true := by
    simp [addNodes]
  cases types with
  | nil =>
    -- without a `return` the type is open just if something is raised
    have htype : (({} : ReturnSummary).addNodes nodes).type? =
        if (({} : ReturnSummary).addNodes nodes).raises then none else some (.name "None") := by
      simp [type?, hclear, hreturns]
    refine ⟨⟨fun hopen => .inr (.inr ⟨?_, htypes⟩), ?_⟩, fun _ hsilent => ?_, fun types hne hmap _ => ?_⟩
    · by_contra hraise
      rw [htype, if_neg (mt hraises.1 hraise)] at hopen
      cases hopen
    · rintro (hyes | hyes | ⟨hraise, -⟩)
      · exact absurd hyes hyield
      · exact absurd hyes hnone
      · rw [htype, if_pos (hraises.2 hraise)]
    · have hraise : ¬ ∃ n ∈ nodes, n.isRaise = true := by
        rintro ⟨n, hmem, hyes⟩
        exact absurd hyes (by simp [(hsilent n hmem).1])
      rw [htype, if_neg (mt hraises.1 hraise)]
    · exact absurd (List.map_eq_nil_iff.1 (hmap.symm.trans htypes)) hne
  | cons type types =>
    -- a `return` makes raising irrelevant
    have htype : (({} : ReturnSummary).addNodes nodes).type? = Hint.unionOf? (type :: types) := by
      simp [type?, hclear, hreturns, hfound]
    have hsome := unionOf?_ne_none (List.cons_ne_nil type types) htypes
    refine ⟨⟨fun hopen => absurd (htype.symm.trans hopen) hsome, ?_⟩, fun hempty => ?_,
      fun types' _ hmap _ => ?_⟩
    · rintro (hyes | hyes | ⟨-, hempty⟩)
      · exact absurd hyes hyield
      · exact absurd hyes hnone
      · cases htypes.symm.trans hempty
    · cases htypes.symm.trans hempty
    · rw [htype, List.map_injective_iff.2 (fun _ _ => Option.some.inj) (htypes.symm.trans hmap)]

end ReturnSummary

/-- **The returns of a function itself give its inferred type.**  The walk that finds them ends, within one turn
for each of the function's own nodes and one more; it meets these nodes in the order of the source, each once. -/
theorem inferReturn_summarises (body : List Stmt) :
    let own := bodyNodes BodyNode.isReturn body
    let stack := body.map BodyNode.stmt
    Summarises own (inferReturn body) ∧
      (walkWithin BodyNode.isReturn ReturnSummary.note (own.length + 1) stack {}).map
        ReturnSummary.type? = some (inferReturn body) ∧
      walkWithin BodyNode.isReturn (fun met n => met ++ [n]) (own.length + 1) stack [] = some own := by
  intro own stack
  have hown : stack.flatMap (BodyNode.nodes BodyNode.isReturn) = own :=
    (bodyNodes_eq_flatMap BodyNode.isReturn body).symm
  have hturns : (stack.flatMap (BodyNode.nodes BodyNode.isReturn)).length < own.length + 1 := by
    rw [hown]
    exact Nat.lt_succ_self _
  refine ⟨?_, ?_, ?_⟩
  · rw [inferReturn, walk_eq_foldl, hown, ReturnSummary.foldl_note]
    exact ReturnSummary.summarises_addNodes own
  · exact congrArg (Option.map ReturnSummary.type?) (walkWithin_eq {} hturns)
  · rw [walkWithin_eq [] hturns, walk_lists, hown]

end TypedStubs
