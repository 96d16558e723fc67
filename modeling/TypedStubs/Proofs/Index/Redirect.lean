import Mathlib.Data.List.Chain
import TypedStubs.Index.Redirect
import TypedStubs.Proofs.Loop

/-! # Chains of borrowed documentation

A function with a decorator that borrows documentation leads to another function, and this one may lead on.
The search for the end of such a chain looks up at most one function more than there are, and what it answers
is the end of a chain in which nothing comes twice (`SourceIndex.resolveRedirect?_follows_chain`).

Whether a function borrows at all is asked of the arguments of its decorator.  So one whose decorator does not
name a single function counts as one that has documentation of its own, at the start of a chain and at its end
(`SourceIndex.effectiveDocstring?_follows_marker`, `SourceIndex.unread_marker_keeps_docstring`).
-/
namespace TypedStubs.SourceIndex

variable {index : SourceIndex} {s : Settings} {f g : SourceFunction} {passed : List String}
  {target : String}

/-! ### The search ends -/

/-- One turn of the search for the end of a chain: the function that the target names is looked up, and
either answers or has a target of its own. -/
def redirectTurn (index : SourceIndex) (s : Settings) :
    List String × String → Option SourceFunction ⊕ (List String × String)
  | (passed, target) =>
    match index.targetFunction? s target with
    | none => .inl none
    | some f =>
      if f.qualified ∈ passed then .inl none
      else
        match redirectTarget? s f with
        | none => .inl (some f)
        | some next => .inr (f.qualified :: passed, next)

/-- What the search for the function that `f` borrows from answers if it ends within some look-ups. -/
def resolveWithin (index : SourceIndex) (s : Settings) (lookUps : Nat) (f : SourceFunction) :
    Option (Option SourceFunction) :=
  match redirectTarget? s f with
  | none => some none
  | some target => Loop.within (index.redirectTurn s) lookUps ([f.qualified], target)

/-- Each function that is looked up was not met before, so there are fewer left to meet. -/
theorem redirectTurn_ends (index : SourceIndex) (s : Settings) :
    Loop.Ends (index.redirectTurn s) (fun state => index.redirectEnd? s state.1 state.2)
      (fun state => unmet SourceFunction.qualified (fun _ => 1) state.1 index.functions) where
  stops := by
    rintro ⟨passed, target⟩ answer hturn
    fun_cases redirectEnd? index s passed target <;> simp_all [redirectTurn]
  goesOn := by
    rintro ⟨passed, target⟩ state hturn
    fun_cases redirectEnd? index s passed target with
    | case4 f hfound hnew next hnext =>
      obtain rfl : (f.qualified :: passed, next) = state := by
        simpa [redirectTurn, hfound, hnew, hnext] using hturn
      have hmet := unmet_met (fun _ => 1) (targetFunction?_mem hfound) hnew
      exact ⟨rfl, Nat.lt_of_succ_le hmet⟩
    | _ => simp_all [redirectTurn]

theorem resolveWithin_eq (index : SourceIndex) (s : Settings) (f : SourceFunction) {lookUps : Nat}
    (hlookUps : index.functions.length < lookUps) :
    index.resolveWithin s lookUps f = some (index.resolveRedirect? s f) := by
  rw [resolveWithin, resolveRedirect?]
  cases redirectTarget? s f with
  | none => rfl
  | some target =>
    have hunmet := unmet_le_total SourceFunction.qualified (fun _ => 1) [f.qualified] index.functions
    rw [total_eq_length fun _ _ => rfl] at hunmet
    exact (index.redirectTurn_ends s).within_eq (Nat.lt_of_le_of_lt hunmet hlookUps)

/-! ### It ends where the chain does -/

/-- Whether `f` has a target, and `g` is picked for it among the functions that are named for its last component
and hold it in their qualified name. -/
def BorrowsFrom (index : SourceIndex) (s : Settings) (f g : SourceFunction) : Prop :=
  ∃ target, redirectTarget? s f = some target ∧ index.targetFunction? s target = some g

/-- Functions of which each borrows from the next, without one that comes twice. -/
structure IsRedirectChain (index : SourceIndex) (s : Settings) (chain : List SourceFunction) :
    Prop where
  /-- Each but the last has a target, which names the next. -/
  borrows : chain.IsChain (index.BorrowsFrom s)
  /-- No qualified name comes twice. -/
  distinct : (chain.map (·.qualified)).Nodup
  /-- The last has none. -/
  ends : ∀ g ∈ chain.getLast?, redirectTarget? s g = none

theorem isRedirectChain_last (hlast : redirectTarget? s f = none) (rest : List SourceFunction) :
    index.IsRedirectChain s (f :: rest) ↔ rest = [] := by
  constructor
  · intro h
    cases rest with
    | nil => rfl
    | cons g rest =>
      obtain ⟨target, htarget, -⟩ := (List.isChain_cons_cons.1 h.borrows).1
      simp [hlast] at htarget
  · rintro rfl
    exact ⟨List.isChain_singleton _, by simp, by simpa using hlast⟩

theorem isRedirectChain_next (htarget : redirectTarget? s f = some target)
    (chain : List SourceFunction) :
    index.IsRedirectChain s (f :: chain) ↔
      chain ≠ [] ∧ chain.head? = index.targetFunction? s target ∧
        index.IsRedirectChain s chain ∧ ∀ h ∈ chain, h.qualified ≠ f.qualified := by
  cases chain with
  | nil =>
    refine iff_of_false (fun h => ?_) (fun h => h.1 rfl)
    simpa [htarget] using h.ends f rfl
  | cons g rest =>
    have hborrows : index.BorrowsFrom s f g ↔ some g = index.targetFunction? s target := by
      simp [BorrowsFrom, htarget, eq_comm]
    constructor
    · intro h
      obtain ⟨hfirst, hrest⟩ := List.isChain_cons_cons.1 h.borrows
      obtain ⟨hnot, hdistinct⟩ := List.nodup_cons.1 h.distinct
      refine ⟨List.cons_ne_nil _ _, hborrows.1 hfirst, ⟨hrest, hdistinct, h.ends⟩, ?_⟩
      exact fun k hk heq => hnot (List.mem_map.2 ⟨k, hk, heq⟩)
    · rintro ⟨-, hhead, h, hnew⟩
      refine ⟨List.isChain_cons_cons.2 ⟨hborrows.2 hhead, h.borrows⟩, ?_, h.ends⟩
      refine List.nodup_cons.2 ⟨fun hmem => ?_, h.distinct⟩
      obtain ⟨k, hk, heq⟩ := List.mem_map.1 hmem
      exact hnew k hk heq

/-- The search goes on from a target along a chain that avoids what was passed. -/
theorem redirectEnd?_eq_some_iff :
    index.redirectEnd? s passed target = some g ↔
      ∃ chain, chain.head? = index.targetFunction? s target ∧ chain.getLast? = some g ∧
        index.IsRedirectChain s chain ∧ ∀ h ∈ chain, h.qualified ∉ passed := by
  fun_induction redirectEnd? index s passed target with
  | case1 passed target hmissing =>
    -- nothing is found, so the chain would be empty
    refine iff_of_false (by simp) ?_
    rintro ⟨chain, hhead, hend, -⟩
    rw [hmissing, List.head?_eq_none_iff] at hhead
    simp [hhead] at hend
  | case2 passed target f hfound hpassed =>
    refine iff_of_false (by simp) ?_
    rintro ⟨chain, hhead, -, -, hfresh⟩
    exact hfresh f (List.mem_of_mem_head? (hhead.trans hfound)) hpassed
  | case3 passed target f hfound hnew hlast =>
    -- a function without a target can only be a chain of its own
    constructor
    · intro hend
      rw [← hend]
      exact ⟨[f], hfound.symm, rfl, (isRedirectChain_last hlast []).2 rfl, by simpa using hnew⟩
    · rintro ⟨chain, hhead, hend, hchain, -⟩
      obtain ⟨rest, rfl⟩ := List.head?_eq_some_iff.1 (hhead.trans hfound)
      obtain rfl := (isRedirectChain_last hlast rest).1 hchain
      exact hend
  | case4 passed target f hfound hnew next hnext ih =>
    -- chains from `next` that avoid `f` too are the rests of the chains that start with `f`
    rw [ih]
    constructor
    · rintro ⟨chain, hhead, hend, hchain, hfresh⟩
      have hne : chain ≠ [] := fun hnil => by simp [hnil] at hend
      refine ⟨f :: chain, hfound.symm, ?_, (isRedirectChain_next hnext chain).2
        ⟨hne, hhead, hchain, fun h hh heq => hfresh h hh (heq ▸ List.mem_cons_self)⟩, ?_⟩
      · rw [List.getLast?_cons_of_ne_nil hne, hend]
      · exact List.forall_mem_cons.2 ⟨hnew, fun h hh hp => hfresh h hh (List.mem_cons_of_mem _ hp)⟩
    · rintro ⟨chain, hhead, hend, hchain, hfresh⟩
      obtain ⟨rest, rfl⟩ := List.head?_eq_some_iff.1 (hhead.trans hfound)
      obtain ⟨hne, hnexthead, hrest, hapart⟩ := (isRedirectChain_next hnext rest).1 hchain
      refine ⟨rest, hnexthead, ?_, hrest, fun h hh hp => ?_⟩
      · rw [← hend, List.getLast?_cons_of_ne_nil hne]
      · rcases List.mem_cons.1 hp with heq | hp
        · exact hapart h hh heq
        · exact hfresh h (List.mem_cons_of_mem _ hh) hp

/-- The function that `f` borrows from is the end of the chain that starts with `f`. -/
theorem resolveRedirect?_eq_some_iff :
    index.resolveRedirect? s f = some g ↔
      ∃ chain, chain.getLast? = some g ∧ index.IsRedirectChain s (f :: chain) := by
  rw [resolveRedirect?]
  cases htarget : redirectTarget? s f with
  | none =>
    refine iff_of_false (by simp) ?_
    rintro ⟨chain, hend, hchain⟩
    simp [(isRedirectChain_last htarget chain).1 hchain] at hend
  | some target =>
    rw [Option.bind_some, redirectEnd?_eq_some_iff]
    refine exists_congr fun chain => ?_
    rw [isRedirectChain_next htarget chain]
    constructor
    · rintro ⟨hhead, hend, hchain, hfresh⟩
      have hne : chain ≠ [] := fun hnil => by simp [hnil] at hend
      exact ⟨hend, hne, hhead, hchain, by simpa using hfresh⟩
    · rintro ⟨hend, -, hhead, hchain, hfresh⟩
      exact ⟨hhead, hend, hchain, by simpa using hfresh⟩

/-- **Borrowed documentation is that of the end of the chain.**  The search ends with at most one look-up more
than there are functions, and answers the last of the functions that start with `f`, of which each borrows
from the next and none comes twice, if the last one borrows from none. -/
theorem resolveRedirect?_follows_chain (index : SourceIndex) (s : Settings) (f : SourceFunction) :
    index.resolveWithin s (index.functions.length + 1) f = some (index.resolveRedirect? s f) ∧
    ∀ g, index.resolveRedirect? s f = some g ↔
      ∃ chain, chain.getLast? = some g ∧ index.IsRedirectChain s (f :: chain) :=
  ⟨index.resolveWithin_eq s f (Nat.lt_succ_self _), fun _ => resolveRedirect?_eq_some_iff⟩

/-! ### The documentation that counts -/

/-- Whether a function has a decorator that borrows documentation. -/
def CarriesMarker (s : Settings) (f : SourceFunction) : Prop :=
  ∃ d ∈ f.decorators, s.isRedirect d.callee = true

/-- Whether the arguments of the decorator by which a function borrows documentation are something else than
one name. -/
def MarkerUnread (s : Settings) (f : SourceFunction) : Prop :=
  ∃ d, redirect? s f = some d ∧ ∀ path, d.args ≠ [DecoratorArg.reference path]

theorem carriesMarker_iff : CarriesMarker s f ↔ ∃ d, redirect? s f = some d := by
  rw [← Option.isSome_iff_exists, redirect?, List.find?_isSome]
  rfl

theorem MarkerUnread.carriesMarker (h : MarkerUnread s f) : CarriesMarker s f :=
  have ⟨d, hd, _⟩ := h
  carriesMarker_iff.2 ⟨d, hd⟩

/-- There are two reasons for a function to have no target. -/
theorem redirectTarget?_eq_none_iff :
    redirectTarget? s f = none ↔ ¬ CarriesMarker s f ∨ MarkerUnread s f := by
  rw [carriesMarker_iff, redirectTarget?]
  cases hd : redirect? s f with
  | none => simp
  | some d =>
    have hread : MarkerUnread s f ↔ ∀ path, d.args ≠ [DecoratorArg.reference path] := by
      simp [MarkerUnread, hd]
    rw [hread]
    -- a target is read off one shape of the arguments: a single reference
    rcases d with ⟨text, callee, _ | ⟨_ | _, _ | _⟩⟩ <;> simp

theorem markerUnread_iff : MarkerUnread s f ↔ CarriesMarker s f ∧ redirectTarget? s f = none :=
  ⟨fun h => ⟨h.carriesMarker, redirectTarget?_eq_none_iff.2 (.inr h)⟩,
    fun h => (redirectTarget?_eq_none_iff.1 h.2).resolve_left (not_not_intro h.1)⟩

instance (s : Settings) (f : SourceFunction) : Decidable (CarriesMarker s f) :=
  inferInstanceAs (Decidable (∃ d ∈ f.decorators, s.isRedirect d.callee = true))

instance (s : Settings) (f : SourceFunction) : Decidable (MarkerUnread s f) :=
  decidable_of_iff' _ markerUnread_iff

theorem mem_functions_of_borrows {chain : List SourceFunction}
    (h : (f :: chain).IsChain (index.BorrowsFrom s)) : ∀ g ∈ chain, g ∈ index.functions := by
  induction chain generalizing f with
  | nil => simp
  | cons g rest ih =>
    obtain ⟨⟨_, -, hfound⟩, hrest⟩ := List.isChain_cons_cons.1 h
    exact List.forall_mem_cons.2 ⟨targetFunction?_mem hfound, ih hrest⟩

/-- What is borrowed from is an indexed function of another name, and has no target. -/
theorem resolveRedirect?_spec (h : index.resolveRedirect? s f = some g) :
    g ∈ index.functions ∧ g.qualified ≠ f.qualified ∧ redirectTarget? s g = none := by
  obtain ⟨chain, hend, hchain⟩ := resolveRedirect?_eq_some_iff.1 h
  have hmem : g ∈ chain := List.mem_of_getLast? hend
  have hnot : f.qualified ∉ chain.map (·.qualified) := (List.nodup_cons.1 hchain.distinct).1
  refine ⟨mem_functions_of_borrows hchain.borrows g hmem, fun heq => ?_, hchain.ends g ?_⟩
  · exact hnot (List.mem_map.2 ⟨g, hmem, heq⟩)
  · rw [List.getLast?_cons_of_ne_nil (List.ne_nil_of_mem hmem)]
    exact hend

theorem effectiveDocstring?_own (h : redirectTarget? s f = none) :
    index.effectiveDocstring? s f = f.docstring := by
  rw [effectiveDocstring?, h]

theorem effectiveDocstring?_borrowed (h : redirectTarget? s f ≠ none) :
    index.effectiveDocstring? s f = none ∨
      ∃ g, index.resolveRedirect? s f = some g ∧ index.effectiveDocstring? s f = g.docstring := by
  obtain ⟨target, htarget⟩ := Option.ne_none_iff_exists'.1 h
  rw [effectiveDocstring?, htarget]
  cases hend : index.resolveRedirect? s f with
  | none => exact .inl rfl
  | some g => exact .inr ⟨g, rfl, rfl⟩

/-- **The documentation that counts.**  A function without a decorator that borrows has its own, and so has one
whose decorator does not name a single function.  Any other has none, or that of the end of its chain: an
indexed function of another name, which carries no such decorator, or one that does not name a single function.
The last case apart, a function that borrows has no documentation but that of one that does not. -/
theorem effectiveDocstring?_follows_marker (index : SourceIndex) (s : Settings) (f : SourceFunction) :
    (¬ CarriesMarker s f → index.effectiveDocstring? s f = f.docstring) ∧
    (MarkerUnread s f → index.effectiveDocstring? s f = f.docstring) ∧
    (CarriesMarker s f → ¬ MarkerUnread s f →
      (index.effectiveDocstring? s f = none ∨
        ∃ g ∈ index.functions, g.qualified ≠ f.qualified ∧
          (¬ CarriesMarker s g ∨ MarkerUnread s g) ∧
          index.effectiveDocstring? s f = g.docstring) ∧
      ((∀ g, index.resolveRedirect? s f = some g → ¬ MarkerUnread s g) →
        index.effectiveDocstring? s f = none ∨
          ∃ g ∈ index.functions, g.qualified ≠ f.qualified ∧ ¬ CarriesMarker s g ∧
            index.effectiveDocstring? s f = g.docstring)) := by
  refine ⟨fun hplain => effectiveDocstring?_own (redirectTarget?_eq_none_iff.2 (.inl hplain)),
    fun hunread => effectiveDocstring?_own (redirectTarget?_eq_none_iff.2 (.inr hunread)),
    fun hmarker hread => ?_⟩
  have htarget : redirectTarget? s f ≠ none := fun hnone =>
    (redirectTarget?_eq_none_iff.1 hnone).elim (· hmarker) hread
  rcases effectiveDocstring?_borrowed htarget with hnone | ⟨g, hend, hdocs⟩
  · exact ⟨.inl hnone, fun _ => .inl hnone⟩
  · obtain ⟨hindexed, hother, hlast⟩ := resolveRedirect?_spec hend
    have hmarked := redirectTarget?_eq_none_iff.1 hlast
    refine ⟨.inr ⟨g, hindexed, hother, hmarked, hdocs⟩, fun hends => .inr ?_⟩
    exact ⟨g, hindexed, hother, hmarked.resolve_right (hends g hend), hdocs⟩

/-! ### A marker that is not read -/

/-- A function of a module, with one decorator that borrows documentation. -/
def borrower (name : String) (args : List DecoratorArg) (docstring : Option String) :
    SourceFunction :=
  ⟨name, "pkg." ++ name, "pkg", [⟨"_docstring.copy", "_docstring.copy", args⟩], docstring, [], none,
    none, false⟩

/-- A module with some functions. -/
def functionsIn (functions : List SourceFunction) : SourceIndex :=
  ⟨[⟨"pkg", "pkg.py", false, none, [], functions.map .ofFunction⟩]⟩

/-- A function that carries no decorator. -/
def plainPlot : SourceFunction :=
  ⟨"plot", "pkg.plot", "pkg", [], some "Plots lines.", [], none, none, false⟩

theorem effectiveDocstring?_follows_marker_plot :
    let draw := borrower "draw" [.reference "pkg.plot"] (some "own")
    let index := functionsIn [draw, plainPlot]
    CarriesMarker .standard draw ∧ ¬ MarkerUnread .standard draw ∧
      (∀ g, index.resolveRedirect? .standard draw = some g → ¬ MarkerUnread .standard g) ∧
      ∃ g ∈ index.functions, g.qualified ≠ draw.qualified ∧ ¬ CarriesMarker .standard g ∧
        index.effectiveDocstring? .standard draw = g.docstring := by
  intro draw index
  have hmarker : CarriesMarker .standard draw := by decide +kernel
  have hread : ¬ MarkerUnread .standard draw := by decide +kernel
  have hends : ∀ g, index.resolveRedirect? .standard draw = some g → ¬ MarkerUnread .standard g := by
    have hplot : index.resolveRedirect? .standard draw = some plainPlot := by decide +kernel
    intro g hg
    obtain rfl := Option.some.inj (hplot.symm.trans hg)
    decide +kernel
  have hfollows := (effectiveDocstring?_follows_marker index .standard draw).2.2 hmarker hread
  have hsome : index.effectiveDocstring? .standard draw ≠ none := by decide +kernel
  exact ⟨hmarker, hread, hends, (hfollows.2 hends).resolve_left hsome⟩

/-- A decorator whose argument is the result of a call is not read.  The function keeps its own
documentation, and lends it to one that borrows from it. -/
theorem unread_marker_keeps_docstring :
    let computed := borrower "computed" [.other "make_doc()"] (some "own")
    let chained := borrower "chained" [.reference "pkg.computed"] none
    let index := functionsIn [computed, chained]
    MarkerUnread .standard computed ∧
      index.effectiveDocstring? .standard computed = some "own" ∧
      CarriesMarker .standard chained ∧ ¬ MarkerUnread .standard chained ∧
      index.resolveRedirect? .standard chained = some computed ∧
      index.effectiveDocstring? .standard chained = some "own" := by
  decide +kernel

end TypedStubs.SourceIndex
