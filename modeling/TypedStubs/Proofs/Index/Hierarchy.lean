import Mathlib.Data.List.Nodup
import TypedStubs.Proofs.Loop
import TypedStubs.Signature.Own

/-! # The order in which classes are asked

Two searches go through the classes above a class, both with a list of pending classes.  One asks the class
before it starts, the other starts with the class pending.  Here is the order in which a depth first search
enters these classes by recursion (`SourceIndex.preorder`), and both searches answer what the first of them in
this order answers (`SourceIndex.inheritedType?_depth_first`).

The invariant that joins the two is `preorder_append`: the classes that are pending behind others are entered
after them, with what these entered taken into account.
-/
namespace TypedStubs.SourceIndex

variable {α : Type} {index : SourceIndex} {policy : MatchPolicy} {entered : List String}
  {c : SourceClass}

/-! ### Depth first -/

/-- The names that were entered when the classes in `order` were entered too. -/
def namesAfter (entered : List String) (order : List SourceClass) : List String :=
  (order.map (·.qualified)).reverse ++ entered

theorem namesAfter_cons (entered : List String) (c : SourceClass) (order : List SourceClass) :
    namesAfter entered (c :: order) = namesAfter (c.qualified :: entered) order := by
  simp [namesAfter]

theorem namesAfter_append (entered : List String) (order more : List SourceClass) :
    namesAfter entered (order ++ more) = namesAfter (namesAfter entered order) more := by
  simp [namesAfter]

theorem mem_namesAfter {name : String} {order : List SourceClass} :
    name ∈ namesAfter entered order ↔ name ∈ order.map (·.qualified) ∨ name ∈ entered := by
  simp [namesAfter]

theorem searchMeasure_namesAfter_le (index : SourceIndex) (entered : List String)
    (order pending : List SourceClass) :
    index.searchMeasure (namesAfter entered order) pending ≤ index.searchMeasure entered pending := by
  induction order generalizing entered with
  | nil => exact Nat.le_refl _
  | cons c order ih =>
    -- one more name takes nothing but weight from the index
    have hmet := unmet_antitone SourceClass.qualified searchWeight entered c.qualified index.classes
    rw [namesAfter_cons]
    refine Nat.le_trans (ih _) ?_
    simp only [searchMeasure]
    omega

theorem searchMeasure_append_left (index : SourceIndex) (entered : List String)
    (pending more : List SourceClass) :
    index.searchMeasure entered pending ≤ index.searchMeasure entered (pending ++ more) := by
  simp only [searchMeasure, total_append]
  omega

/-- The classes that a depth first search enters, in order: a class whose name was not entered, then those
above it, base by base from left to right, then the further ones. -/
def preorder (index : SourceIndex) (policy : MatchPolicy) (entered : List String) :
    List SourceClass → List SourceClass
  | [] => []
  | c :: rest =>
    if c.qualified ∈ entered then preorder index policy entered rest
    else
      let above := preorder index policy (c.qualified :: entered) (index.basesOf policy c)
      c :: above ++ preorder index policy (namesAfter (c.qualified :: entered) above) rest
termination_by pending => index.searchMeasure entered pending
decreasing_by
  · exact index.searchMeasure_passed entered c rest
  -- the bases alone are no more than the bases before the rest
  · exact Nat.lt_of_le_of_lt (index.searchMeasure_append_left _ _ rest)
      (index.searchMeasure_entered policy ‹_› rest)
  · rw [← namesAfter_cons]
    exact Nat.lt_of_le_of_lt (index.searchMeasure_namesAfter_le _ _ rest)
      (index.searchMeasure_passed entered c rest)

/-- Classes that are pending behind others are entered after them. -/
theorem preorder_append (index : SourceIndex) (policy : MatchPolicy) (entered : List String)
    (pending more : List SourceClass) :
    index.preorder policy entered (pending ++ more) =
      index.preorder policy entered pending ++
        index.preorder policy (namesAfter entered (index.preorder policy entered pending)) more := by
  fun_induction preorder index policy entered pending with
  | case1 entered => rfl
  | case2 entered c rest hpassed ih =>
    rw [List.cons_append, preorder, if_pos hpassed, ih]
  | case3 entered c rest hnew above _ ih =>
    -- the classes above `c` do not depend on `more`; those of `rest` are the induction hypothesis
    rw [List.cons_append, preorder, if_neg hnew]
    simp only [List.cons_append, List.append_assoc, namesAfter_cons, namesAfter_append]
    exact congrArg (fun classes => c :: (above ++ classes)) ih

/-- A class that is entered has its bases pending before what was pending. -/
theorem preorder_cons (hnew : c.qualified ∉ entered) (rest : List SourceClass) :
    index.preorder policy entered (c :: rest) =
      c :: index.preorder policy (c.qualified :: entered) (index.basesOf policy c ++ rest) := by
  rw [preorder, if_neg hnew, preorder_append]
  rfl

/-- No name is entered twice. -/
theorem nodup_preorder (index : SourceIndex) (policy : MatchPolicy) (entered : List String)
    (pending : List SourceClass) :
    (∀ d ∈ index.preorder policy entered pending, d.qualified ∉ entered) ∧
      ((index.preorder policy entered pending).map (·.qualified)).Nodup := by
  fun_induction preorder index policy entered pending with
  | case1 entered => simp
  | case2 entered c rest hpassed ih => exact ih
  | case3 entered c rest hnew above habove ih =>
    obtain ⟨haboveNew, haboveNodup⟩ := habove
    obtain ⟨hrestNew, hrestNodup⟩ := ih
    constructor
    · -- what is entered behind `c` was not entered before `c` either
      intro d hd
      rcases List.mem_append.1 hd with hd | hd
      · rcases List.mem_cons.1 hd with rfl | hd
        · exact hnew
        · exact fun h => haboveNew d hd (List.mem_cons_of_mem _ h)
      · exact fun h => hrestNew d hd (mem_namesAfter.2 (.inr (List.mem_cons_of_mem _ h)))
    · have hfirst : ((c :: above).map (·.qualified)).Nodup := by
        refine List.nodup_cons.2 ⟨fun h => ?_, haboveNodup⟩
        obtain ⟨d, hd, hname⟩ := List.mem_map.1 h
        exact haboveNew d hd (hname ▸ List.mem_cons_self)
      -- the rest is entered with the names of `c` and of those above it taken into account
      rw [List.map_append]
      refine hfirst.append hrestNodup fun name hname hlater => ?_
      obtain ⟨d, hd, rfl⟩ := List.mem_map.1 hlater
      refine hrestNew d hd ?_
      rw [← namesAfter_cons]
      exact mem_namesAfter.2 (.inl hname)

/-! ### The searches -/

/-- A search answers what the first of the classes answers that it enters. -/
theorem searchFrom_eq_findSome? (index : SourceIndex) (policy : MatchPolicy)
    (find : SourceClass → Option α) (entered : List String) (pending : List SourceClass) :
    index.searchFrom policy find entered pending =
      (index.preorder policy entered pending).findSome? find := by
  fun_induction searchFrom index policy find entered pending with
  | case1 entered => rw [preorder]; rfl
  | case2 entered c rest hpassed ih => rw [preorder, if_pos hpassed, ih]
  | case3 entered c rest hnew answer hfound =>
    rw [preorder_cons hnew, List.findSome?_cons, hfound]
  | case4 entered c rest hnew hnone ih =>
    -- the search has the same classes pending as the order has behind `c`
    rw [preorder_cons hnew, List.findSome?_cons, hnone, ih]

theorem searchUp?_eq_findSome? (index : SourceIndex) (policy : MatchPolicy)
    (find : SourceClass → Option α) (c : SourceClass) :
    index.searchUp? policy find c = (index.preorder policy [] [c]).findSome? find :=
  index.searchFrom_eq_findSome? policy find [] [c]

theorem search?_eq_findSome? (index : SourceIndex) (policy : MatchPolicy)
    (find : SourceClass → Option α) (c : SourceClass) :
    index.search? policy find c = (index.preorder policy [] [c]).findSome? find := by
  rw [search?, preorder_cons List.not_mem_nil, List.append_nil, List.findSome?_cons]
  cases find c with
  | some answer => rfl
  | none => exact index.searchFrom_eq_findSome? policy find _ _

/-! ### The searches end -/

/-- One turn of a search: the first of the pending classes is passed over, answers, or makes way for its
bases. -/
def searchTurn (index : SourceIndex) (policy : MatchPolicy) (find : SourceClass → Option α) :
    List String × List SourceClass → Option α ⊕ (List String × List SourceClass)
  | (_, []) => .inl none
  | (entered, c :: rest) =>
    if c.qualified ∈ entered then .inr (entered, rest)
    else
      match find c with
      | some answer => .inl (some answer)
      | none => .inr (c.qualified :: entered, index.basesOf policy c ++ rest)

theorem searchTurn_ends (index : SourceIndex) (policy : MatchPolicy) (find : SourceClass → Option α) :
    Loop.Ends (index.searchTurn policy find) (fun state => index.searchFrom policy find state.1 state.2)
      (fun state => index.searchMeasure state.1 state.2) where
  stops := by
    rintro ⟨entered, pending⟩ answer hturn
    fun_cases searchFrom index policy find entered pending <;> simp_all [searchTurn]
  goesOn := by
    rintro ⟨entered, pending⟩ state hturn
    fun_cases searchFrom index policy find entered pending with
    | case2 c rest hpassed =>
      obtain rfl : (entered, rest) = state := by simpa [searchTurn, hpassed] using hturn
      exact ⟨rfl, index.searchMeasure_passed entered c rest⟩
    | case4 c rest hnew hnone =>
      obtain rfl : (c.qualified :: entered, index.basesOf policy c ++ rest) = state := by
        simpa [searchTurn, hnew, hnone] using hturn
      exact ⟨rfl, index.searchMeasure_entered policy hnew rest⟩
    | _ => simp_all [searchTurn]

/-- What a search that asks the class first answers if it ends within some turns. -/
def searchWithin (index : SourceIndex) (policy : MatchPolicy) (find : SourceClass → Option α)
    (turns : Nat) (c : SourceClass) : Option (Option α) :=
  match find c with
  | some answer => some (some answer)
  | none => Loop.within (index.searchTurn policy find) turns ([c.qualified], index.basesOf policy c)

/-- What a search that starts with the class pending answers if it ends within some turns. -/
def searchUpWithin (index : SourceIndex) (policy : MatchPolicy) (find : SourceClass → Option α)
    (turns : Nat) (c : SourceClass) : Option (Option α) :=
  Loop.within (index.searchTurn policy find) turns ([], [c])

/-- Every class is entered at most once, and pending once for each base that names it. -/
theorem searchMeasure_le (index : SourceIndex) (c : SourceClass) :
    index.searchMeasure [] [c] ≤ total searchWeight index.classes + searchWeight c := by
  have hunmet := unmet_le_total SourceClass.qualified searchWeight [] index.classes
  have hpending : index.pendingWeight c ≤ searchWeight c := by
    rw [pendingWeight]
    split
    · exact Nat.succ_le_succ (Nat.zero_le _)
    · exact Nat.le_refl _
  simp only [searchMeasure, total]
  omega

theorem searchUpWithin_eq (index : SourceIndex) (policy : MatchPolicy) (find : SourceClass → Option α)
    (c : SourceClass) {turns : Nat} (hturns : index.searchMeasure [] [c] < turns) :
    index.searchUpWithin policy find turns c = some (index.searchUp? policy find c) :=
  (index.searchTurn_ends policy find).within_eq hturns

theorem searchWithin_eq (index : SourceIndex) (policy : MatchPolicy) (find : SourceClass → Option α)
    (c : SourceClass) {turns : Nat} (hturns : index.searchMeasure [] [c] < turns) :
    index.searchWithin policy find turns c = some (index.search? policy find c) := by
  rw [searchWithin, search?]
  cases find c with
  | some answer => rfl
  | none =>
    -- asking the class first is one turn of the search that starts with it pending
    have hless := index.searchMeasure_entered policy (c := c) List.not_mem_nil []
    rw [List.append_nil] at hless
    exact (index.searchTurn_ends policy find).within_eq (Nat.lt_trans hless hturns)

/-- **The classes above a class are asked depth first.**  For the type of a value, the search that asks the
class first and the one that starts with the class pending both end, and both answer what the first class
answers that a recursive depth first search enters.  Neither answers if none of these classes does, and no name
is entered twice. -/
theorem inheritedType?_depth_first (s : Settings) (index : SourceIndex) (name : String)
    (c : SourceClass) :
    let infer := fun d : SourceClass => d.accessorType? s name
    let order := index.preorder s.matchPolicy [] [c]
    let turns := total searchWeight index.classes + searchWeight c + 1
    (index.searchWithin s.matchPolicy infer turns c = some (order.findSome? infer) ∧
      Signature.inheritedType? s index name c = order.findSome? infer) ∧
    (index.searchUpWithin s.matchPolicy infer turns c = some (order.findSome? infer) ∧
      index.searchUp? s.matchPolicy infer c = order.findSome? infer) ∧
    (Signature.inheritedType? s index name c = none ↔ ∀ d ∈ order, infer d = none) ∧
    (order.map (·.qualified)).Nodup := by
  intro infer order turns
  have hturns : index.searchMeasure [] [c] < turns := Nat.lt_succ_of_le (index.searchMeasure_le c)
  have hsearch := index.search?_eq_findSome? s.matchPolicy infer c
  have hsearchUp := index.searchUp?_eq_findSome? s.matchPolicy infer c
  refine ⟨⟨?_, hsearch⟩, ⟨?_, hsearchUp⟩, ?_, ?_⟩
  · rw [index.searchWithin_eq s.matchPolicy infer c hturns, hsearch]
  · rw [index.searchUpWithin_eq s.matchPolicy infer c hturns, hsearchUp]
  · rw [Signature.inheritedType?, hsearch, List.findSome?_eq_none_iff]
  · exact (index.nodup_preorder s.matchPolicy [] [c]).2

/-- A class with two bases, which share a base that leads back to the class. -/
example :
    let make := fun name bases => (⟨name, "pkg." ++ name, "pkg", [], none, bases, [], [], []⟩ : SourceClass)
    let plot := make "Plot" ["Line", "Patch"]
    let line := make "Line" ["Artist"]
    let patch := make "Patch" ["Artist"]
    let artist := make "Artist" ["Plot"]
    let index : SourceIndex :=
      ⟨[⟨"pkg", "pkg.py", false, none, [], [plot, line, patch, artist].map .ofClass⟩]⟩
    index.preorder .first [] [plot] = [plot, line, artist, patch] := by
  decide +kernel

end TypedStubs.SourceIndex
