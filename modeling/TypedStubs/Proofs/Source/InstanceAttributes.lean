import Mathlib.Data.List.Nodup
import TypedStubs.Proofs.Source.Walk
import TypedStubs.Source.Reader

/-! # Attributes and constructors

The attributes of a class are those that its last constructor assigns through its first parameter, each once and
in the order of the first assignments (`instanceAttributes_last_constructor`).  The constructor of a class is its
first one.  So an attribute that is copied from a parameter finds that parameter in the constructor of the class if
the class has a single one, and may miss it otherwise (`copied_from_other_constructor`).
-/
namespace TypedStubs

open Syntax (Expr Stmt ClassHead)

variable {a : SourceAttribute} {kept found : List SourceAttribute}

/-! ### One attribute of each name -/

theorem addAttribute_of_mem (hmem : a.name ∈ kept.map (·.name)) : addAttribute kept a = kept := by
  obtain ⟨b, hb, hname⟩ := List.mem_map.1 hmem
  exact if_pos (List.any_eq_true.2 ⟨b, hb, by simpa using hname⟩)

theorem addAttribute_of_not_mem (hmem : a.name ∉ kept.map (·.name)) : addAttribute kept a = kept ++ [a] := by
  refine if_neg fun hany => hmem ?_
  obtain ⟨b, hb, hname⟩ := List.any_eq_true.1 hany
  exact List.mem_map.2 ⟨b, hb, by simpa using hname⟩

theorem nodup_foldl_addAttribute (found : List SourceAttribute) (hkept : (kept.map (·.name)).Nodup) :
    ((found.foldl addAttribute kept).map (·.name)).Nodup := by
  induction found generalizing kept with
  | nil => exact hkept
  | cons a found ih =>
    refine ih ?_
    by_cases hmem : a.name ∈ kept.map (·.name)
    · rwa [addAttribute_of_mem hmem]
    · rw [addAttribute_of_not_mem hmem, List.map_append, List.map_singleton, ← List.concat_eq_append]
      exact List.Nodup.concat hmem hkept

/-- The names are listed in the order in which they are first met. -/
theorem names_foldl_addAttribute (found kept : List SourceAttribute) :
    (found.foldl addAttribute kept).map (·.name) =
      kept.map (·.name) ++ ((found.map (·.name)).removeAll (kept.map (·.name))).eraseDups := by
  induction found generalizing kept with
  | nil => simp [List.removeAll]
  | cons a found ih =>
    rw [List.foldl_cons, ih]
    by_cases hmem : a.name ∈ kept.map (·.name)
    · rw [addAttribute_of_mem hmem, List.map_cons]
      generalize kept.map (·.name) = names at hmem ⊢
      simp [List.removeAll, hmem]
    · rw [addAttribute_of_not_mem hmem, List.map_append, List.map_singleton, List.map_cons]
      generalize kept.map (·.name) = names at hmem ⊢
      simp [List.removeAll, hmem, List.eraseDups_cons, List.filter_filter, beq_eq_decide,
        Bool.and_comm]

/-- An attribute is kept as it is first met. -/
theorem find?_of_mem_foldl (hmem : a ∈ found.foldl addAttribute kept) :
    a ∈ kept ∨ a.name ∉ kept.map (·.name) ∧ found.find? (·.name == a.name) = some a := by
  induction found generalizing kept with
  | nil => exact .inl hmem
  | cons b found ih =>
    rw [List.foldl_cons] at hmem
    by_cases hname : b.name ∈ kept.map (·.name)
    · rw [addAttribute_of_mem hname] at hmem
      refine (ih hmem).imp_right fun ⟨hnew, hfind⟩ => ⟨hnew, ?_⟩
      have hne : b.name ≠ a.name := fun heq => hnew (heq ▸ hname)
      rwa [List.find?_cons_of_neg (by simpa using hne)]
    · rw [addAttribute_of_not_mem hname] at hmem
      obtain hold | ⟨hnew, hfind⟩ := ih hmem
      · obtain hold | hb := List.mem_append.1 hold
        · exact .inl hold
        · obtain rfl := List.mem_singleton.1 hb
          exact .inr ⟨hname, List.find?_cons_of_pos (by simp)⟩
      · rw [List.map_append, List.mem_append, not_or] at hnew
        have hne : b.name ≠ a.name := fun heq => hnew.2 (by simp [heq])
        exact .inr ⟨hnew.1, by rwa [List.find?_cons_of_neg (by simpa using hne)]⟩

/-! ### What a constructor declares -/

/-- The names that nodes assign through a receiver, in order. -/
def receiverNames (receiver : String) (nodes : List BodyNode) : List String :=
  (nodes.flatMap BodyNode.assigned).filterMap fun a => receiverAttribute? receiver a.target

/-- The attributes that nodes of a constructor declare, in order and with repetitions. -/
def declaredAttributes (scope : String) (init : SourceFunction) (receiver : String)
    (nodes : List BodyNode) : List SourceAttribute :=
  (nodes.flatMap BodyNode.assigned).filterMap (declaredAttribute? scope init receiver)

theorem name_declaredAttribute? (scope : String) (init : SourceFunction) (receiver : String)
    (t : TargetAssignment) :
    (declaredAttribute? scope init receiver t).map (·.name) = receiverAttribute? receiver t.target := by
  rw [declaredAttribute?]
  cases receiverAttribute? receiver t.target <;> rfl

theorem names_declaredAttributes (scope : String) (init : SourceFunction) (receiver : String)
    (nodes : List BodyNode) :
    (declaredAttributes scope init receiver nodes).map (·.name) = receiverNames receiver nodes := by
  rw [declaredAttributes, receiverNames, List.map_filterMap]
  exact congrArg (List.filterMap · _) (funext (name_declaredAttribute? scope init receiver))

/-- A value is taken from a parameter of the constructor. -/
theorem param?_of_assignedFrom {scope : String} {init : SourceFunction} {receiver : String}
    {t : TargetAssignment} {name : String} (hdeclared : declaredAttribute? scope init receiver t = some a)
    (hfrom : a.assignedFrom = some name) : (init.param? name).isSome = true := by
  obtain ⟨_, -, hdeclared⟩ := Option.bind_eq_some_iff.1 hdeclared
  obtain rfl := Option.some.inj hdeclared
  exact (Option.filter_eq_some_iff.1 hfrom).2

theorem instanceAttributes_eq (scope : String) (init : SourceFunction) {p : Parameter}
    {rest : List Parameter} (hparams : init.params = p :: rest) (hkind : p.kind = .positional)
    (body : List Stmt) :
    instanceAttributes scope init body =
      (declaredAttributes scope init p.name (bodyNodes (fun _ => false) body)).foldl addAttribute [] := by
  rw [instanceAttributes, hparams]
  simp only [hkind, if_true]
  rw [walk_eq_foldl, ← bodyNodes_eq_flatMap, declaredAttributes, List.filterMap_flatMap, List.foldl_flatMap]
  rfl

/-- The names that a constructor with the body `inside` assigns through its first parameter, if that is an
ordinary one. -/
def assignedNames (init : SourceFunction) (inside : List Stmt) : List String :=
  match init.params with
  | p :: _ =>
    if p.kind = .positional then receiverNames p.name (bodyNodes (fun _ => false) inside) else []
  | [] => []

/-- What attributes have to do with the constructor that gives them. -/
structure GivenBy (scope : String) (init : SourceFunction) (inside : List Stmt)
    (attributes : List SourceAttribute) : Prop where
  /-- There is one for each name assigned, in the order of the first assignments. -/
  names : attributes.map (·.name) = (assignedNames init inside).eraseDups
  /-- Each is what the first assignment to its name declares. -/
  first : ∀ a ∈ attributes, ∃ p rest, init.params = p :: rest ∧
    (declaredAttributes scope init p.name (bodyNodes (fun _ => false) inside)).find? (·.name == a.name) =
      some a
  /-- One that is copied is copied from a parameter. -/
  copied : ∀ a ∈ attributes, ∀ name, a.assignedFrom = some name → (init.param? name).isSome = true

theorem givenBy_nil {scope : String} {init : SourceFunction} {inside : List Stmt}
    (hnone : assignedNames init inside = []) : GivenBy scope init inside [] where
  names := by rw [hnone]; rfl
  first _ hmem := absurd hmem List.not_mem_nil
  copied _ hmem := absurd hmem List.not_mem_nil

/-- **A constructor gives the attributes that its own nodes assign through its first parameter.** -/
theorem givenBy_instanceAttributes (scope : String) (init : SourceFunction) (inside : List Stmt) :
    GivenBy scope init inside (instanceAttributes scope init inside) := by
  cases hparams : init.params with
  | nil =>
    have hempty : instanceAttributes scope init inside = [] := by simp only [instanceAttributes, hparams]
    rw [hempty]
    exact givenBy_nil (by simp only [assignedNames, hparams])
  | cons p rest =>
    by_cases hkind : p.kind = .positional
    · have hnames : assignedNames init inside =
          receiverNames p.name (bodyNodes (fun _ => false) inside) := by
        simp only [assignedNames, hparams, hkind, if_true]
      rw [instanceAttributes_eq scope init hparams hkind]
      refine ⟨?_, fun a hmem => ⟨p, rest, hparams, ?_⟩, fun a hmem name hfrom => ?_⟩
      · rw [names_foldl_addAttribute, names_declaredAttributes, hnames, List.map_nil, List.nil_append,
          List.removeAll_nil]
      · obtain hold | ⟨-, hfind⟩ := find?_of_mem_foldl hmem
        · exact absurd hold List.not_mem_nil
        · exact hfind
      · obtain hold | ⟨-, hfind⟩ := find?_of_mem_foldl hmem
        · exact absurd hold List.not_mem_nil
        · obtain ⟨t, -, hdeclared⟩ := List.mem_filterMap.1 (List.mem_of_find?_eq_some hfind)
          exact param?_of_assignedFrom hdeclared hfrom
    · have hempty : instanceAttributes scope init inside = [] := by
        simp only [instanceAttributes, hparams, hkind, if_false]
      rw [hempty]
      exact givenBy_nil (by simp only [assignedNames, hparams, hkind, if_false])

theorem nodup_instanceAttributes (scope : String) (init : SourceFunction) (inside : List Stmt) :
    ((instanceAttributes scope init inside).map (·.name)).Nodup := by
  cases hparams : init.params with
  | nil => simp [instanceAttributes, hparams]
  | cons p rest =>
    by_cases hkind : p.kind = .positional
    · rw [instanceAttributes_eq scope init hparams hkind]
      exact nodup_foldl_addAttribute _ List.nodup_nil
    · simp [instanceAttributes, hparams, hkind]

/-! ### The constructors of a class -/

/-- The constructors in the body of a class, with the statements of each. -/
def constructorsOf (module : String) (head : ClassHead) (body : List Stmt) :
    List (SourceFunction × List Stmt) :=
  (methodsOf module (module ++ "." ++ head.name) (splitDocstring body).2).filter
    fun m => m.1.name == "__init__"

variable (module : String) (head : ClassHead) (decorators : List Expr) (body : List Stmt)

/-- The constructor of a class is the first one. -/
theorem constructor?_classOf :
    (classOf module head decorators body).constructor? =
      (constructorsOf module head body).head?.map (·.1) := by
  rw [constructorsOf, List.head?_filter]
  exact List.find?_map

/-- The attributes of a class are those of the last one. -/
theorem instanceAttributes_classOf :
    (classOf module head decorators body).instanceAttributes =
      match (constructorsOf module head body).getLast? with
      | some (init, inside) => instanceAttributes (module ++ "." ++ head.name) init inside
      | none => [] := rfl

/-- What the attributes of a class have to do with the constructors in its body. -/
structure FromLastConstructor (c : SourceClass) (constructors : List (SourceFunction × List Stmt)) : Prop where
  /-- No two attributes have one name. -/
  distinct : (c.instanceAttributes.map (·.name)).Nodup
  /-- Without a constructor there are none. -/
  none_of_nil : constructors = [] → c.instanceAttributes = []
  /-- The last constructor gives them. -/
  given : ∀ init inside, constructors.getLast? = some (init, inside) →
    GivenBy c.qualified init inside c.instanceAttributes
  /-- One that is copied is copied from a parameter of the last constructor, which is the constructor of the class
  if there is a single one. -/
  copied : ∀ a ∈ c.instanceAttributes, ∀ name, a.assignedFrom = some name →
    ∃ first last, constructors.head? = some first ∧ constructors.getLast? = some last ∧
      c.constructor? = some first.1 ∧ (last.1.param? name).isSome = true ∧
      (constructors.length = 1 → (first.1.param? name).isSome = true)

/-- **The attributes of a class belong to its last constructor.** -/
theorem instanceAttributes_last_constructor :
    FromLastConstructor (classOf module head decorators body) (constructorsOf module head body) := by
  have hfirst := constructor?_classOf module head decorators body
  have hattributes := instanceAttributes_classOf module head decorators body
  cases hlast : (constructorsOf module head body).getLast? with
  | none =>
    have hnil : constructorsOf module head body = [] := List.getLast?_eq_none_iff.1 hlast
    have hempty : (classOf module head decorators body).instanceAttributes = [] := by rw [hattributes, hlast]
    rw [hnil]
    constructor
    case distinct => rw [hempty]; exact List.nodup_nil
    case none_of_nil => exact fun _ => hempty
    case given => exact fun _ _ h => nomatch h
    case copied => rw [hempty]; exact fun _ hmem => absurd hmem List.not_mem_nil
  | some last =>
    obtain ⟨init, inside⟩ := last
    have hgiven : (classOf module head decorators body).instanceAttributes =
        instanceAttributes (module ++ "." ++ head.name) init inside := by rw [hattributes, hlast]
    have hgivenBy := givenBy_instanceAttributes (module ++ "." ++ head.name) init inside
    rw [← hgiven] at hgivenBy
    constructor
    case distinct => rw [hgiven]; exact nodup_instanceAttributes _ init inside
    case none_of_nil =>
      intro hnil
      rw [hnil] at hlast
      cases hlast
    case given =>
      intro init' inside' hlast'
      obtain ⟨⟩ := hlast.symm.trans hlast'
      exact hgivenBy
    case copied =>
      intro a hmem name hfrom
      have hparam := hgivenBy.copied a hmem name hfrom
      cases hconstructors : constructorsOf module head body with
      | nil =>
        rw [hconstructors] at hlast
        cases hlast
      | cons first more =>
        rw [hconstructors] at hlast hfirst
        refine ⟨first, (init, inside), rfl, hlast, hfirst, hparam, fun hsingle => ?_⟩
        obtain rfl : more = [] := List.length_eq_zero_iff.1 (Nat.succ.inj hsingle)
        obtain rfl : first = (init, inside) := Option.some.inj hlast
        exact hparam

/-- A class that defines its constructor twice has an attribute copied from a parameter that its constructor
does not have. -/
theorem copied_from_other_constructor :
    let source := "class A:\n    def __init__(self): pass\n" ++
      "    def __init__(self, color: int): self.color = color\n"
    ∃ c ∈ (SourceModule.read "m" "m.py" false source).classes, ∃ a ∈ c.instanceAttributes,
      a.assignedFrom = some "color" ∧ c.constructor?.isSome = true ∧
        c.constructor?.bind (·.param? "color") = none := by
  decide +kernel

end TypedStubs
