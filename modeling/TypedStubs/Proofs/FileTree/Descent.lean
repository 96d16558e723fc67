import TypedStubs.Proofs.FileTree.Trail

/-! # Making directories along names

`makeDown` makes the directories that names lead to from a place, as far as they are missing.  It works
on places and not on paths, so what it does can be read off: it makes directories where nothing stood on
the way along the names, and nothing else (`at?_makeDown`).  Making the directories around a path that
leads from a directory along names comes to that (`ensureDirectories_parent`).
-/
namespace TypedStubs.FileTree

open TypedStubs.Path (Component ofComponents components outward)

variable {t made : FileTree} {place : Location} {base path name last : String}
  {front names outer : List String}

/-- A tree with the directory that names lead to, made unless it is there. -/
def makeAt (t : FileTree) (place : Location) (names : List String) : Except FileProblem FileTree :=
  match t.walk place names with
  | .error problem => .error problem
  | .ok q =>
    match t.at? q with
    | none => .ok (t.put q .directory)
    | some .directory => .ok t
    | some (.file _) => .error .alreadyExists

/-- A tree with the directories on the way along names, which are given from the inside out. -/
def makeDown (t : FileTree) (place : Location) : List String → Except FileProblem Unit × FileTree
  | [] => (.ok (), t)
  | name :: outer =>
    match t.makeAt place (name :: outer).reverse with
    | .ok made => (.ok (), made)
    | .error .notFound =>
      let (outcome, made) := t.makeDown place outer
      match outcome, made.makeAt place (name :: outer).reverse with
      | .error problem, _ => (.error problem, made)
      | .ok (), .error problem => (.error problem, made)
      | .ok (), .ok made => (.ok (), made)
    | .error problem => (.error problem, t)

/-- A directory is made where nothing stood, at the end of the names. -/
theorem at?_makeAt (h : t.makeAt place names = .ok made) (hnames : ∀ name ∈ names, Path.IsName name)
    (q : Location) :
    made.at? q = t.at? q ∨ t.at? q = none ∧ place <+: q ∧ q <+: place ++ names := by
  unfold makeAt at h
  split at h
  · cases h
  · next q' hwalk =>
    obtain rfl := walk_names hnames hwalk
    split at h
    · next hnone =>
      obtain rfl := Except.ok.inj h
      rw [at?_put t (ne_nil_of_at? hnone (by simp))]
      by_cases hq : q = place ++ names
      · subst hq
        exact .inr ⟨hnone, List.prefix_append _ _, List.prefix_rfl⟩
      · exact .inl (if_neg hq)
    · exact .inl (Except.ok.inj h ▸ rfl)
    · cases h

/-- Directories are made where nothing stood on the way along the names. -/
theorem at?_makeDown (t : FileTree) (place : Location) (houter : ∀ name ∈ outer, Path.IsName name)
    (q : Location) :
    (t.makeDown place outer).2.at? q = t.at? q ∨
      t.at? q = none ∧ place <+: q ∧ q <+: place ++ outer.reverse := by
  induction outer with
  | nil => exact .inl rfl
  | cons name outer ih =>
    have hnames : ∀ n ∈ (name :: outer).reverse, Path.IsName n :=
      fun n hn => houter n (List.mem_reverse.1 hn)
    have haround : (t.makeDown place outer).2.at? q = t.at? q ∨
        t.at? q = none ∧ place <+: q ∧ q <+: place ++ (name :: outer).reverse := by
      refine (ih fun n hn => houter n (List.mem_cons_of_mem name hn)).imp_right ?_
      rintro ⟨hnone, hbelow, hon⟩
      exact ⟨hnone, hbelow, hon.trans (by simp)⟩
    unfold makeDown
    split
    · next made hmade => exact at?_makeAt hmade hnames q
    · generalize t.makeDown place outer = result at haround
      obtain ⟨outcome, around⟩ := result
      cases outcome with
      | error problem => exact haround
      | ok _ =>
        cases hmade : around.makeAt place (name :: outer).reverse with
        | error problem => simpa only [hmade] using haround
        | ok made =>
          simp only [hmade]
          rcases haround with heq | hthere
          · rw [← heq]
            exact at?_makeAt hmade hnames q
          · exact .inr hthere
    · exact .inl rfl

/-! ## Making directories by paths -/

/-- Whether a path leads where names lead from where another one leads to. -/
structure Leads (base path : String) (names : List String) : Prop where
  /-- It does. -/
  locate : ∀ {t : FileTree} {place : Location}, t.locate base = .ok place →
    t.locate path = t.walk place names
  /-- There are no slashes at its end. -/
  bare : bare path = path

theorem bare_eq (hname : Path.IsName name) (h : ∃ lead, path = lead ++ name) : bare path = path := by
  obtain ⟨lead, rfl⟩ := h
  rw [bare, Path.dropEndWhile_slash hname, String.ofList_toList]
  exact ite_self _

theorem leads_append (hfront : ∀ name ∈ front, Path.IsName name) (hlast : Path.IsName last) :
    Leads base (Path.append base (Text.join "/" (front ++ [last]))) (front ++ [last]) where
  locate h := locate_append h (by simp) fun name hname => by
    rcases List.mem_append.1 hname with hname | hname
    · exact hfront name hname
    · exact List.mem_singleton.1 hname ▸ hlast
  bare := bare_eq hlast (Path.exists_append_eq base front last)

theorem leads_ofComponents (hbase : base ≠ "") (hfront : ∀ name ∈ front, Path.IsName name)
    (hlast : Path.IsName last) :
    Leads base (ofComponents (components base ++ (front ++ [last]).map .entry)) (front ++ [last]) where
  locate h := locate_components h fun name hname => by
    rcases List.mem_append.1 hname with hname | hname
    · exact hfront name hname
    · exact List.mem_singleton.1 hname ▸ hlast
  bare := by
    refine bare_eq hlast ?_
    have hne := Path.components_ne_nil hbase
    rw [ofComponents, if_neg, List.map_append, List.map_append, List.map_append, ← List.append_assoc]
    · exact ⟨_, Text.join_concat "/" (by simp [hne]) last⟩
    · intro heq
      have hlength := congrArg List.length heq
      have hpos := List.length_pos_of_ne_nil hne
      simp at hlength
      omega

theorem Leads.ensureDirectory_eq (h : Leads base path names) (hbase : t.locate base = .ok place) :
    t.ensureDirectory path = t.makeAt place names := by
  rw [ensureDirectory, makeDirectory_eq, h.bare, h.locate hbase, makeAt]
  cases hwalk : t.walk place names with
  | error problem =>
    have hnot : t.isDirectory path = false := by
      rw [Bool.eq_false_iff, ne_eq, isDirectory_iff, h.locate hbase, hwalk]
      simp
    simp [Except.bind, hnot]
  | ok q =>
    have hiff : t.isDirectory path = true ↔ t.at? q = some .directory := by
      rw [isDirectory_iff, h.locate hbase, hwalk]
      simp
    simp only [Except.bind]
    cases hat : t.at? q with
    | none => rfl
    | some entry =>
      cases entry with
      | directory => simp [hiff.2 hat]
      | file contents =>
        have hnot : t.isDirectory path = false := by
          rw [Bool.eq_false_iff, ne_eq, hiff, hat]
          simp
        simp [hnot]

/-- Directories below one that is there are made on the way along names. -/
theorem ensureAround_eq (hbase : t.locate base = .ok place) (hplace : t.at? place = some .directory)
    (hpath : Leads base path (name :: outer).reverse) (houter : ∀ n ∈ outer, Path.IsName n) :
    t.ensureAround path (outward (components base ++ outer.reverse.map .entry)) =
      t.makeDown place (name :: outer) := by
  have hempty := ne_of_locate hbase
  induction outer generalizing path name with
  | nil =>
    -- the path of the base leads to a directory, and with it the way out ends
    obtain ⟨cs, c, hcs⟩ := (List.eq_nil_or_concat' (components base)).resolve_left
      (Path.components_ne_nil hempty)
    have hthere : t.isDirectory (ofComponents (components base)) = true :=
      by
        have hlead := locate_components hbase fun n (hn : n ∈ []) => absurd hn List.not_mem_nil
        exact isDirectory_iff.2 ⟨place, by simpa [walk] using hlead, hplace⟩
    have hout : outward (components base ++ [].reverse.map .entry) =
        ofComponents (components base) :: outward cs := by
      rw [List.reverse_nil, List.map_nil, List.append_nil, hcs, Path.outward_concat]
    rw [hout]
    unfold ensureAround makeDown
    rw [hpath.ensureDirectory_eq hbase, ensureAround_of_isDirectory hthere]
    simp only [hpath.ensureDirectory_eq hbase]
    rfl
  | cons around outer ih =>
    have haround := houter around List.mem_cons_self
    have houter' : ∀ n ∈ outer, Path.IsName n := fun n hn => houter n (List.mem_cons_of_mem around hn)
    have hout : outward (components base ++ (around :: outer).reverse.map .entry) =
        ofComponents (components base ++ (around :: outer).reverse.map .entry) ::
          outward (components base ++ outer.reverse.map .entry) := by
      rw [List.reverse_cons, List.map_append, ← List.append_assoc, List.map_singleton,
        Path.outward_concat]
    have hleads : Leads base (ofComponents (components base ++ (around :: outer).reverse.map .entry))
        (around :: outer).reverse := by
      rw [List.reverse_cons]
      exact leads_ofComponents hempty (by simpa using houter') haround
    have hrest := ih hleads houter'
    rw [hout]
    unfold ensureAround makeDown
    rw [hpath.ensureDirectory_eq hbase, hrest]
    have hmade := (makes_ensureAround t (ofComponents (components base ++
      (around :: outer).reverse.map .entry)) (outward (components base ++
        outer.reverse.map .entry))).alters fun _ => False
    rw [hrest] at hmade
    generalize t.makeDown place (around :: outer) = result at hmade
    obtain ⟨outcome, made⟩ := result
    have hlast := hpath.ensureDirectory_eq (hmade.locate hbase)
    cases t.makeAt place (name :: around :: outer).reverse with
    | ok made' => rfl
    | error problem =>
      cases problem with
      | notFound =>
        cases outcome with
        | error problem => rfl
        | ok _ =>
          cases hmake : made.makeAt place (name :: around :: outer).reverse with
          | error problem => simp only [hlast, hmake]
          | ok last => simp only [hlast, hmake]
      | alreadyExists | notDirectory | isDirectory | nameTooLong | notText => rfl

/-- The directories around what names lead to are made on the way along the names before the last. -/
theorem ensureDirectories_parent (hbase : t.locate base = .ok place)
    (hplace : t.at? place = some .directory) (hfront : ∀ name ∈ front, Path.IsName name)
    (hlast : Path.IsName last) :
    t.ensureDirectories (Path.parent (Path.append base (Text.join "/" (front ++ [last])))) =
      t.makeDown place front.reverse := by
  by_cases hne : front = []
  · subst hne
    exact ensureDirectories_of_isDirectory (isDirectory_iff.2 ⟨place, locate_parent hbase hlast, hplace⟩)
  obtain ⟨init, name, rfl⟩ := (List.eq_nil_or_concat' front).resolve_left hne
  have hinit : ∀ n ∈ init, Path.IsName n := fun n hn => hfront n (by simp [hn])
  have hname : Path.IsName name := hfront name (by simp)
  have hempty := ne_of_locate hbase
  have hpath : (Path.append base (Text.join "/" (init ++ [name]))).isEmpty = false := by
    obtain ⟨lead, hlead⟩ := Path.exists_append_eq base init name
    simp [hlead, hname.1]
  have haround : Path.around (Path.append base (Text.join "/" (init ++ [name]))) =
      outward (components base ++ init.reverse.reverse.map .entry) := by
    rw [Path.around_eq, Path.components_append hempty (by simp) hfront, List.map_append,
      ← List.append_assoc, List.map_singleton, List.dropLast_concat, List.reverse_reverse]
  rw [Path.parent_append hne hfront hlast, ensureDirectories, hpath, haround, List.reverse_append]
  refine ensureAround_eq hbase hplace ?_ (by simpa using hinit)
  rw [List.reverse_cons, List.reverse_reverse]
  exact leads_append hinit hname

end TypedStubs.FileTree
