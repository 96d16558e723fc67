import TypedStubs.Proofs.FileTree.Access
import TypedStubs.Proofs.Path.Components

/-! # Where paths lead and what is made on the way

A path leads where its components lead, one after the other (`locate_components`), and what leads to a
directory leads through directories (`isDirectory_around`).  Where a path leads does not depend on the
tree, as far as it leads anywhere (`locate_unique`).

Making directories on the way to a path makes none but those that any tree has in which the path leads to
a directory (`at?_ensureDirectories`).
-/
namespace TypedStubs.FileTree

open TypedStubs.Path (Component ofComponents components)

variable {t t' made : FileTree} {place q : Location} {base path last : String}
  {steps names : List String}

/-! ## Paths by their components -/

/-- Where the components of a path lead from. -/
def start (t : FileTree) : List Component → Location
  | .root :: _ => []
  | _ => t.home

theorem locate_top {piece : String} {rest : List String}
    (h : Text.splitOn '/' path = "" :: piece :: rest) :
    t.locate path = t.walk [] ("" :: piece :: rest) := by
  rcases Path.pieces_cases path with rfl | ⟨htop, -⟩ | ⟨-, first, more, hfirst, heq⟩
  · cases h
  · have hempty : path.isEmpty = false := by
      rw [Bool.eq_false_iff, ne_eq, String.isEmpty_iff]
      rintro rfl
      cases h
    simp [locate, hempty, htop, h]
  · rw [h] at heq
    exact absurd (List.cons.inj heq).1.symm hfirst

theorem locate_home {piece : String} {rest : List String}
    (h : Text.splitOn '/' path = piece :: rest) (hne : piece ≠ "") :
    t.locate path = t.walk t.home (piece :: rest) := by
  rcases Path.pieces_cases path with rfl | ⟨-, first, more, heq⟩ | ⟨htop, -⟩
  · exact absurd (List.cons.inj h).1.symm hne
  · rw [h] at heq
    exact absurd (List.cons.inj heq).1 hne
  · have hempty : path.isEmpty = false := by
      rw [Bool.eq_false_iff, ne_eq, String.isEmpty_iff]
      rintro rfl
      exact hne (List.cons.inj h).1.symm
    simp [locate, hempty, htop, h]

/-- A path that is put together from components leads where they lead, one after the other. -/
theorem locate_ofComponents (hne : cs ≠ []) (hcs : ∀ c ∈ cs, c.IsStep) :
    t.locate (ofComponents cs) = t.walk (t.start cs) (cs.map Component.text) := by
  obtain ⟨c, rest, rfl⟩ := List.exists_cons_of_ne_nil hne
  by_cases hroot : c :: rest = [.root]
  · rw [hroot]
    have hpieces : Text.splitOn '/' (ofComponents [.root]) = ["", ""] := by decide
    rw [locate_top hpieces]
    rfl
  have hsplit : Text.splitOn '/' (ofComponents (c :: rest)) = (c :: rest).map Component.text := by
    rw [ofComponents, if_neg hroot]
    refine Text.splitOn_join (by simp) fun piece hpiece => ?_
    obtain ⟨c', hc', rfl⟩ := List.mem_map.1 hpiece
    exact (hcs c' hc').2
  by_cases hc : c = .root
  · subst hc
    cases rest with
    | nil => exact absurd rfl hroot
    | cons c' rest => exact locate_top hsplit
  · have hstart : t.start (c :: rest) = t.home := by
      cases c with
      | root => exact absurd rfl hc
      | here | up | entry => rfl
    rw [hstart]
    exact locate_home hsplit fun hempty => hc ((hcs c List.mem_cons_self).1 hempty)

/-- Pieces that lead nowhere may be left out. -/
theorem walk_components (h : t.walk place steps = .ok q) :
    t.walk place ((steps.filterMap Path.step?).map Component.text) = .ok q := by
  induction steps generalizing place with
  | nil => exact h
  | cons step steps ih =>
    rw [walk] at h
    split at h
    · cases h
    · cases h
    · next hplace =>
      rw [List.filterMap_cons]
      by_cases hdot : step = "" ∨ step = "."
      · rw [if_pos hdot] at h
        have hstep : Path.step? step = none := if_pos hdot
        rw [hstep]
        exact ih h
      · rw [if_neg hdot] at h
        have hstep : ∃ c, Path.step? step = some c ∧ c.text = step := by
          unfold Path.step?
          rw [if_neg hdot]
          split
          · next hup => exact ⟨_, rfl, hup.symm⟩
          · exact ⟨_, rfl, rfl⟩
        obtain ⟨c, hc, htext⟩ := hstep
        rw [hc]
        simp only [List.map_cons, htext, walk, hplace, if_neg hdot]
        split at h
        · next hup => rw [if_pos hup]; exact ih h
        · next hup =>
          rw [if_neg hup]
          split at h
          · cases h
          · next hlong => rw [if_neg hlong]; exact ih h


theorem start_eq_home (h : .root ∉ cs) : t.start cs = t.home := by
  cases cs with
  | nil => rfl
  | cons c cs =>
    cases c with
    | root => exact absurd List.mem_cons_self h
    | here | up | entry => rfl

/-- Where a path leads, its components lead too. -/
theorem walk_of_locate (h : t.locate path = .ok q) :
    t.walk (t.start (components path)) ((components path).map Component.text) = .ok q := by
  rcases Path.pieces_cases path with rfl | ⟨-, piece, rest, heq⟩ | ⟨-, piece, rest, hpiece, heq⟩
  · cases h
  · rw [locate_top heq] at h
    rw [Path.components_top heq]
    exact walk_components h
  · rw [locate_home heq hpiece] at h
    by_cases hdot : piece = "."
    · subst hdot
      rw [Path.components_here heq]
      have hhome := walk_components h
      rw [walk] at h
      simp only [start, List.map_cons, walk]
      split at h
      · cases h
      · cases h
      · exact hhome
    · rw [Path.components_plain hpiece hdot heq, start_eq_home]
      · exact walk_components h
      · intro hroot
        obtain ⟨step, -, hstep⟩ := List.mem_filterMap.1 hroot
        exact (Path.step?_eq_some hstep).2.2.2 rfl

/-- The components of a path and names behind them lead on from where the path leads to. -/
theorem locate_components (h : t.locate path = .ok q) (hnames : ∀ name ∈ names, Path.IsName name) :
    t.locate (ofComponents (components path ++ names.map .entry)) = t.walk q names := by
  have hpath : components path ≠ [] := Path.components_ne_nil (ne_of_locate h)
  have hstart : t.start (components path ++ names.map .entry) = t.start (components path) := by
    obtain ⟨c, cs, hcs⟩ := List.exists_cons_of_ne_nil hpath
    rw [hcs]
    cases c <;> rfl
  have htexts : (names.map Component.entry).map Component.text = names := by
    rw [List.map_map]
    exact List.map_id _
  rw [locate_ofComponents (List.append_ne_nil_of_left_ne_nil hpath _), hstart, List.map_append, htexts,
    walk_append, walk_of_locate h]
  · rfl
  · intro c hc
    rcases List.mem_append.1 hc with hc | hc
    · exact Path.isStep_of_mem_components hc
    · obtain ⟨name, hname, rfl⟩ := List.mem_map.1 hc
      exact Path.isStep_entry (hnames name hname)

/-- What leads to a directory leads through directories. -/
theorem isDirectory_around (h : t.isDirectory path = true) {around : String}
    (haround : around ∈ Path.around path) : t.isDirectory around = true := by
  obtain ⟨place, hplace, -⟩ := isDirectory_iff.1 h
  have hwalk := walk_of_locate hplace
  rw [Path.around_eq] at haround
  obtain ⟨front, rest, hfront, hsplit, rfl⟩ := Path.mem_outward haround
  have hne : components path ≠ [] := by
    intro hnil
    rw [hnil] at hsplit
    exact hfront (List.append_eq_nil_iff.1 hsplit.symm).1
  -- the components go on where the path around ends
  obtain ⟨c, inner, hinner⟩ : ∃ c inner, rest ++ [(components path).getLast hne] = c :: inner :=
    List.exists_cons_of_ne_nil (by simp)
  have hall : components path = front ++ c :: inner := by
    rw [← hinner, ← List.append_assoc, ← hsplit, List.dropLast_append_getLast]
  have hstart : t.start (components path) = t.start front := by
    obtain ⟨first, more, rfl⟩ := List.exists_cons_of_ne_nil hfront
    rw [hall]
    cases first <;> rfl
  rw [hstart, hall, List.map_append, walk_append] at hwalk
  rw [isDirectory_iff, locate_ofComponents hfront]
  · cases hfirst : t.walk (t.start front) (front.map Component.text) with
    | error problem =>
      rw [hfirst] at hwalk
      cases hwalk
    | ok q =>
      rw [hfirst] at hwalk
      refine ⟨q, rfl, ?_⟩
      simp only [Except.bind, List.map_cons, walk] at hwalk
      split at hwalk
      · cases hwalk
      · cases hwalk
      · assumption
  · intro c' hc'
    exact Path.isStep_of_mem_components (hall ▸ List.mem_append_left _ hc')

/-! ## Where a path leads in any tree -/

/-- Where steps lead is decided by the steps alone, as far as they lead anywhere. -/
theorem walk_unique {q' : Location} (h : t.walk place steps = .ok q) (h' : t'.walk place steps = .ok q') :
    q = q' := by
  induction steps generalizing place with
  | nil => exact (Except.ok.inj h).symm.trans (Except.ok.inj h')
  | cons step steps ih =>
    simp only [walk] at h h'
    split at h
    · cases h
    · cases h
    split at h'
    · cases h'
    · cases h'
    split at h
    · next hdot => exact ih h (by rwa [if_pos hdot] at h')
    · next hdot =>
      rw [if_neg hdot] at h'
      split at h
      · next hup => exact ih h (by rwa [if_pos hup] at h')
      · next hup =>
        rw [if_neg hup] at h'
        split at h
        · cases h
        · next hlong => exact ih h (by rwa [if_neg hlong] at h')

theorem locate_unique {q' : Location} (hhome : t'.home = t.home) (h : t.locate path = .ok q)
    (h' : t'.locate path = .ok q') : q = q' := by
  have hempty := ne_empty_of_locate h
  simp only [locate, hempty, hhome] at h h'
  exact walk_unique h h'

/-- The path without the slashes at its end, unless there is nothing else. -/
def bare (path : String) : String :=
  let front := String.ofList (Text.dropEndWhile (· == '/') path.toList)
  if front.isEmpty then path else front

theorem locate_of_slash (hne : path ≠ "") (h : t.locate (path ++ "/") = .ok q) :
    t.locate path = .ok q := by
  have hsplit : Text.splitOn '/' (path ++ "/") = Text.splitOn '/' path ++ [""] := by
    simpa [Text.splitOn_empty] using Text.splitOn_append '/' path ""
  have hempty : path.isEmpty = false := by simpa using hne
  have hempty' : (path ++ "/").isEmpty = false := ne_empty_of_locate h
  rw [locate, hempty', hsplit, Path.startsWith_append hempty] at h
  rw [locate, hempty]
  exact walk_of_walk_empty h

theorem locate_dropWhile {cs : List Char} (h : t.locate (String.ofList cs.reverse) = .ok q)
    (hne : cs.dropWhile (· == '/') ≠ []) :
    t.locate (String.ofList (cs.dropWhile (· == '/')).reverse) = .ok q := by
  induction cs with
  | nil => exact h
  | cons c cs ih =>
    by_cases hc : c = '/'
    · subst hc
      simp only [List.dropWhile_cons, beq_self_eq_true, if_true] at hne ⊢
      refine ih (locate_of_slash ?_ ?_) hne
      · rw [← String.ofList_nil, ne_eq, String.ofList_inj, List.reverse_eq_nil_iff]
        rintro rfl
        exact hne rfl
      · rw [List.reverse_cons, String.ofList_append] at h
        exact h
    · have hc' : (c == '/') = false := by simpa using hc
      simpa [List.dropWhile_cons, hc'] using h

/-- Slashes at the end of a path lead nowhere. -/
theorem locate_bare (h : t.locate path = .ok q) : t.locate (bare path) = .ok q := by
  unfold bare
  simp only
  split
  · exact h
  · next hne =>
    have hlist : path = String.ofList path.toList.reverse.reverse := by simp
    rw [hlist] at h
    refine locate_dropWhile h fun hnil => hne ?_
    simp [Text.dropEndWhile, hnil]

theorem locate_slashes {cs : List Char} (h : t.locate (String.ofList cs.reverse) = .ok place)
    (hnil : cs.dropWhile (· == '/') = []) : t.locate "/" = .ok place := by
  induction cs with
  | nil => cases h
  | cons c cs ih =>
    by_cases hc : c = '/'
    · subst hc
      by_cases hcs : cs = []
      · subst hcs
        exact h
      · refine ih (locate_of_slash ?_ ?_) (by simpa using hnil)
        · rw [← String.ofList_nil, ne_eq, String.ofList_inj, List.reverse_eq_nil_iff]
          exact hcs
        · rw [List.reverse_cons, String.ofList_append] at h
          exact h
    · have hc' : (c == '/') = false := by simpa using hc
      simp [hc'] at hnil

/-- The parent of what one name leads to is where the path leads. -/
theorem locate_parent (hbase : t.locate base = .ok place) (hlast : Path.IsName last) :
    t.locate (Path.parent (Path.append base last)) = .ok place := by
  obtain ⟨lead, happend, hlead⟩ : ∃ lead, Path.append base last = lead ++ "/" ++ last ∧
      Text.dropEndWhile (· == '/') lead.toList = Text.dropEndWhile (· == '/') base.toList := by
    by_cases hend : base.endsWith "/" = true
    · obtain ⟨front, rfl⟩ := Path.exists_of_endsWith hend
      refine ⟨front, by rw [Path.append, if_pos (by simp [hend])], ?_⟩
      simp [Text.dropEndWhile]
    · exact ⟨base, by rw [Path.append, if_neg (by simp [hend, ne_empty_of_locate hbase])], rfl⟩
  rw [happend, Path.parent_eq hlast.2.2.2, hlead]
  have hlist : base = String.ofList base.toList.reverse.reverse := by simp
  rw [hlist] at hbase
  by_cases hnil : base.toList.reverse.dropWhile (· == '/') = []
  · rw [if_pos (by simp [Text.dropEndWhile, hnil])]
    exact locate_slashes hbase hnil
  · rw [if_neg (by simpa [Text.dropEndWhile] using hnil)]
    exact locate_dropWhile hbase hnil

/-! ## Making directories -/

theorem makeDirectory_eq (t : FileTree) (path : String) :
    t.makeDirectory path = (t.locate (bare path)).bind fun place =>
      match t.at? place with
      | some _ => .error .alreadyExists
      | none => .ok (t.put place .directory) := rfl

theorem makeDirectory_eq_ok :
    t.makeDirectory path = .ok made ↔
      ∃ place, t.locate (bare path) = .ok place ∧ t.at? place = none ∧ made = t.put place .directory := by
  rw [makeDirectory_eq]
  cases hplace : t.locate (bare path) with
  | error problem => simp [Except.bind]
  | ok place =>
    simp only [Except.bind, Except.ok.injEq, exists_eq_left']
    cases hat : t.at? place with
    | none => simp [eq_comm]
    | some entry => simp

/-- A directory that is there is left alone. -/
theorem ensureDirectory_of_isDirectory (h : t.isDirectory path = true) :
    t.ensureDirectory path = .ok t := by
  obtain ⟨place, hplace, hat⟩ := isDirectory_iff.1 h
  unfold ensureDirectory
  split
  · next made hmade =>
    obtain ⟨place', hplace', hnone, -⟩ := makeDirectory_eq_ok.1 hmade
    rw [locate_bare hplace] at hplace'
    obtain rfl := Except.ok.inj hplace'
    rw [hat] at hnone
    cases hnone
  · rw [if_pos h]

/-- What was made sure of is a directory, if the path leads anywhere then. -/
theorem isDirectory_of_ensureDirectory (h : t.ensureDirectory path = .ok made)
    (hplace : made.locate path = .ok place) : made.isDirectory path = true := by
  refine isDirectory_iff.2 ⟨place, hplace, ?_⟩
  unfold ensureDirectory at h
  split at h
  · next made' hmade =>
    obtain rfl := Except.ok.inj h
    have hkept := (makes_of_makeDirectory hmade).alters fun _ => False
    obtain ⟨place', hplace', hnone, rfl⟩ := makeDirectory_eq_ok.1 hmade
    have heq := (hkept.locate hplace').symm.trans (locate_bare hplace)
    rw [← Except.ok.inj heq, at?_put t (ne_nil_of_at? hnone (by simp)), if_pos rfl]
  · split at h
    · next hdirectory =>
      obtain rfl := Except.ok.inj h
      obtain ⟨place', hplace', hat⟩ := isDirectory_iff.1 hdirectory
      rwa [← Except.ok.inj (hplace'.symm.trans hplace)]
    · cases h

/-- Only what is a directory in another tree is made, if the path leads to a directory there. -/
theorem at?_ensureDirectory (h : t.ensureDirectory path = .ok made)
    (hhome : t'.home = t.home) (hpath : t'.isDirectory path = true) (q : Location) :
    made.at? q = t.at? q ∨ t'.at? q = some .directory := by
  unfold ensureDirectory at h
  split at h
  · next made' hmade =>
    obtain rfl := Except.ok.inj h
    obtain ⟨place, hplace, hnone, rfl⟩ := makeDirectory_eq_ok.1 hmade
    obtain ⟨place', hplace', hat⟩ := isDirectory_iff.1 hpath
    rw [at?_put t (ne_nil_of_at? hnone (by simp))]
    by_cases hq : q = place
    · rw [hq, locate_unique hhome hplace (locate_bare hplace')]
      exact .inr hat
    · rw [if_neg hq]
      exact .inl rfl
  · split at h
    · obtain rfl := Except.ok.inj h
      exact .inl rfl
    · cases h

theorem at?_ensureAround {outer : List String} (hhome : t'.home = t.home)
    (hpath : t'.isDirectory path = true) (houter : ∀ around ∈ outer, t'.isDirectory around = true)
    (q : Location) :
    (t.ensureAround path outer).2.at? q = t.at? q ∨ t'.at? q = some .directory := by
  induction outer generalizing path with
  | nil =>
    unfold ensureAround
    split
    · next made hmade => exact at?_ensureDirectory hmade hhome hpath q
    · exact .inl rfl
  | cons around outer ih =>
    unfold ensureAround
    split
    · next made hmade => exact at?_ensureDirectory hmade hhome hpath q
    · have haround := ih (houter around List.mem_cons_self)
        fun p hp => houter p (List.mem_cons_of_mem around hp)
      have hmakes := (makes_ensureAround t around outer).alters fun _ => False
      generalize t.ensureAround around outer = result at haround hmakes
      obtain ⟨outcome, made⟩ := result
      cases outcome with
      | error problem => exact haround
      | ok _ =>
        cases hlast : made.ensureDirectory path with
        | error problem => simpa only [hlast] using haround
        | ok last =>
          simp only [hlast]
          rcases at?_ensureDirectory hlast (hhome.trans hmakes.home.symm) hpath q with hsame | hthere
          · exact haround.imp_left hsame.trans
          · exact .inr hthere
    · exact .inl rfl

/-- Directories are made only where a tree in which the path leads to a directory has them. -/
theorem at?_ensureDirectories (hhome : t'.home = t.home) (hpath : t'.isDirectory path = true)
    (q : Location) :
    (t.ensureDirectories path).2.at? q = t.at? q ∨ t'.at? q = some .directory := by
  unfold ensureDirectories
  split
  · exact .inl rfl
  · exact at?_ensureAround hhome hpath (fun _ => isDirectory_around hpath) q


/-- Making directories ends without failing when the last one is made sure of. -/
theorem exists_ensureDirectory {outer : List String}
    (h : t.ensureAround path outer = (.ok (), made)) :
    ∃ before, ensureDirectory before path = .ok made := by
  cases outer with
  | nil =>
    unfold ensureAround at h
    split at h
    · next made' hmade =>
      obtain rfl := (Prod.mk.inj h).2
      exact ⟨t, hmade⟩
    · cases h
  | cons around outer =>
    unfold ensureAround at h
    split at h
    · next made' hmade =>
      obtain rfl := (Prod.mk.inj h).2
      exact ⟨t, hmade⟩
    · generalize t.ensureAround around outer = result at h
      obtain ⟨outcome, before⟩ := result
      cases outcome with
      | error problem => cases h
      | ok _ =>
        refine ⟨before, ?_⟩
        cases hlast : ensureDirectory before path with
        | error problem =>
          simp only [hlast] at h
          cases h
        | ok last =>
          simp only [hlast] at h
          rw [(Prod.mk.inj h).2]
    · cases h

/-- Where directories were made without failing, the path leads to a directory, if anywhere. -/
theorem isDirectory_of_ensureDirectories 
    (h : t.ensureDirectories path = (.ok (), made)) (hplace : made.locate path = .ok place) :
    made.isDirectory path = true := by
  rw [ensureDirectories, ne_empty_of_locate hplace] at h
  obtain ⟨before, hbefore⟩ := exists_ensureDirectory h
  exact isDirectory_of_ensureDirectory hbefore hplace

theorem ensureAround_of_isDirectory (h : t.isDirectory path = true) (outer : List String) :
    t.ensureAround path outer = (.ok (), t) := by
  cases outer <;> (unfold ensureAround; rw [ensureDirectory_of_isDirectory h])

theorem ensureDirectories_of_isDirectory (h : t.isDirectory path = true) :
    t.ensureDirectories path = (.ok (), t) := by
  unfold ensureDirectories
  split
  · rfl
  · exact ensureAround_of_isDirectory h _

end TypedStubs.FileTree
