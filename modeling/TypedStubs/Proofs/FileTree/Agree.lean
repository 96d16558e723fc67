import TypedStubs.Proofs.FileTree.Descent
import TypedStubs.Proofs.FileTree.Trail

/-! # Trees that agree

Two trees agree at some places when the same stands there in both.  If the places go with those around
them, what is done in both trees at one of the places ends alike, and the trees agree afterwards: names
are followed (`Agree.walk`), files are read and written, and directories are made (`Agree.makeDown`).

When one path is made to lead to a directory in two trees, they agree afterwards wherever they did before
(`at?_congr_ensureDirectories`).
-/
namespace TypedStubs.FileTree

variable {t t' t'' made made' : FileTree} {place q : Location} {path : String}
  {steps names outer : List String} {places : Location → Prop}

/-- Whether places are told apart in a way that goes with the places around them. -/
def Closed (places : Location → Prop) : Prop := ∀ p q, p <+: q → places q → places p

/-- Whether two trees have the same at some places. -/
structure Agree (places : Location → Prop) (t t' : FileTree) : Prop where
  /-- They have one working directory. -/
  home : t'.home = t.home
  /-- The same stands at the places. -/
  at? : ∀ place, places place → t'.at? place = t.at? place

namespace Agree

theorem trans (h : Agree places t t') (h' : Agree places t' t'') : Agree places t t'' :=
  ⟨h'.home.trans h.home, fun place hplace => (h'.at? place hplace).trans (h.at? place hplace)⟩

theorem symm (h : Agree places t t') : Agree places t' t :=
  ⟨h.home.symm, fun place hplace => (h.at? place hplace).symm⟩

theorem put (h : Agree places t t') (hplace : place ≠ []) (entry : FileEntry) :
    Agree places (t.put place entry) (t'.put place entry) := by
  refine ⟨h.home, fun q hq => ?_⟩
  rw [at?_put t hplace, at?_put t' hplace, h.at? q hq]

/-- Names lead to one place in trees that agree on the way. -/
theorem walk (h : Agree places t t') (hclosed : Closed places) (hplace : places (place ++ names))
    (hnames : ∀ name ∈ names, Path.IsName name) : t'.walk place names = t.walk place names := by
  induction names generalizing place with
  | nil => rfl
  | cons name names ih =>
    obtain ⟨hempty, hdot, hdots, -⟩ := hnames name List.mem_cons_self
    have hnext : places ((place ++ [name]) ++ names) := by simpa using hplace
    have hrest := ih hnext fun n hn => hnames n (List.mem_cons_of_mem name hn)
    simp only [FileTree.walk, hempty, hdot, hdots, or_self, if_false, hrest,
      h.at? place (hclosed _ _ (List.prefix_append _ _) hplace)]

theorem entry (h : Agree places t t') (hlocate : t'.locate path = t.locate path)
    (hplace : ∀ q, t.locate path = .ok q → places q) : t'.entry path = t.entry path := by
  rw [FileTree.entry, FileTree.entry, hlocate]
  cases hq : t.locate path with
  | error problem => rfl
  | ok q =>
    simp only [bind, Except.bind]
    rw [h.at? q (hplace q hq)]

theorem read (h : Agree places t t') (hlocate : t'.locate path = t.locate path)
    (hplace : ∀ q, t.locate path = .ok q → places q) : t'.read path = t.read path := by
  rw [FileTree.read, FileTree.read, h.entry hlocate hplace]

/-- A directory is made in both trees, or in none of them for one reason. -/
theorem makeAt (h : Agree places t t') (hclosed : Closed places) (hplace : places (place ++ names))
    (hnames : ∀ name ∈ names, Path.IsName name) :
    (∃ problem, t.makeAt place names = .error problem ∧ t'.makeAt place names = .error problem) ∨
      ∃ made made', t.makeAt place names = .ok made ∧ t'.makeAt place names = .ok made' ∧
        Agree places made made' := by
  rw [FileTree.makeAt, FileTree.makeAt, h.walk hclosed hplace hnames]
  cases hwalk : t.walk place names with
  | error problem => exact .inl ⟨problem, rfl, rfl⟩
  | ok q =>
    obtain rfl := walk_names hnames hwalk
    simp only
    rw [h.at? _ hplace]
    cases hat : t.at? (place ++ names) with
    | none => exact .inr ⟨_, _, rfl, rfl, h.put (ne_nil_of_at? hat (by simp)) .directory⟩
    | some entry =>
      cases entry with
      | directory => exact .inr ⟨_, _, rfl, rfl, h⟩
      | file contents => exact .inl ⟨_, rfl, rfl⟩

theorem makeDown (h : Agree places t t') (hclosed : Closed places)
    (hplace : places (place ++ outer.reverse)) (houter : ∀ name ∈ outer, Path.IsName name) :
    (t'.makeDown place outer).1 = (t.makeDown place outer).1 ∧
      Agree places (t.makeDown place outer).2 (t'.makeDown place outer).2 := by
  induction outer with
  | nil => exact ⟨rfl, h⟩
  | cons name outer ih =>
    have hnames : ∀ n ∈ (name :: outer).reverse, Path.IsName n :=
      fun n hn => houter n (List.mem_reverse.1 hn)
    obtain ⟨hout, haround⟩ := ih (hclosed _ _ (by simp) hplace)
      fun n hn => houter n (List.mem_cons_of_mem name hn)
    unfold FileTree.makeDown
    rcases h.makeAt hclosed hplace hnames with ⟨problem, hone, htwo⟩ | ⟨made, made', hone, htwo, hmade⟩
    · rw [hone, htwo]
      generalize t.makeDown place outer = result at hout haround
      generalize t'.makeDown place outer = result' at hout haround
      obtain ⟨outcome, around⟩ := result
      obtain ⟨outcome', around'⟩ := result'
      obtain rfl := hout
      cases problem with
      | notFound =>
        cases outcome' with
        | error problem => exact ⟨rfl, haround⟩
        | ok _ =>
          rcases haround.makeAt hclosed hplace hnames with
            ⟨problem, hlast, hlast'⟩ | ⟨made, made', hlast, hlast', hmade⟩
          · simp only [hlast, hlast']
            exact ⟨trivial, haround⟩
          · simp only [hlast, hlast']
            exact ⟨trivial, hmade⟩
      | alreadyExists | notDirectory | isDirectory | nameTooLong | notText => exact ⟨rfl, h⟩
    · rw [hone, htwo]
      exact ⟨rfl, hmade⟩

/-- A file is written in both trees, or in none of them for one reason. -/
theorem writeFile (h : Agree places t t') (hlocate : t'.locate path = t.locate path)
    (hplace : ∀ q, t.locate path = .ok q → places q) (contents : ByteArray) :
    (∃ problem, t.writeFile path contents = .error problem ∧
      t'.writeFile path contents = .error problem) ∨
    ∃ made made', t.writeFile path contents = .ok made ∧ t'.writeFile path contents = .ok made' ∧
      Agree places made made' := by
  simp only [FileTree.writeFile, hlocate]
  cases hq : t.locate path with
  | error problem => exact .inl ⟨problem, rfl, rfl⟩
  | ok q =>
    simp only [bind, Except.bind]
    rw [h.at? q (hplace q hq)]
    cases hat : t.at? q with
    | none => exact .inr ⟨_, _, rfl, rfl, h.put (ne_nil_of_at? hat (by simp)) _⟩
    | some entry =>
      cases entry with
      | directory => exact .inl ⟨_, rfl, rfl⟩
      | file old => exact .inr ⟨_, _, rfl, rfl, h.put (ne_nil_of_at? hat (by simp)) _⟩

end Agree

/-! ## Entries and the directories around them -/

/-- Whether every entry stands in a directory. -/
def InDirectories (t : FileTree) : Prop :=
  ∀ place, t.at? place ≠ none → t.at? place.dropLast = some .directory

theorem inDirectories_of_mem (h : ∀ p ∈ t.entries, t.at? p.1.dropLast = some .directory) :
    t.InDirectories := by
  intro place hplace
  by_cases hnil : place = []
  · subst hnil
    rfl
  · obtain ⟨entry, hentry⟩ := Option.ne_none_iff_exists'.1 hplace
    rw [at?, if_neg hnil] at hentry
    obtain ⟨before, after, hsplit, -⟩ := List.lookup_eq_some_iff.1 hentry
    exact h (place, entry) (hsplit ▸ List.mem_append_right before List.mem_cons_self)

namespace InDirectories

/-- Nothing stands below a place where nothing stands. -/
theorem at?_eq_none (h : t.InDirectories) (hplace : t.at? place = none) (hbelow : place <+: q) :
    t.at? q = none := by
  obtain ⟨names, rfl⟩ := hbelow
  induction names generalizing place with
  | nil => rwa [List.append_nil]
  | cons name names ih =>
    have hnext : t.at? (place ++ [name]) = none := by
      by_contra hsome
      have hdirectory := h _ hsome
      rw [List.dropLast_concat, hplace] at hdirectory
      cases hdirectory
    simpa using ih hnext

theorem walk (h : t.InDirectories) (hplace : t.at? place = none → t.at? place.dropLast = some .directory)
    (hwalk : t.walk place steps = .ok q) (hnone : t.at? q = none) :
    t.at? q.dropLast = some .directory := by
  induction steps generalizing place with
  | nil =>
    obtain rfl := Except.ok.inj hwalk
    exact hplace hnone
  | cons step steps ih =>
    rw [FileTree.walk] at hwalk
    split at hwalk
    · cases hwalk
    · cases hwalk
    · next hdirectory =>
      split at hwalk
      · exact ih hplace hwalk
      split at hwalk
      · -- the directory around a directory is one
        refine ih (fun hdrop => ?_) hwalk
        rw [h place (by simp [hdirectory])] at hdrop
        cases hdrop
      split at hwalk
      · cases hwalk
      · exact ih (fun _ => by rwa [List.dropLast_concat]) hwalk

/-- A path leads to something, or into a directory. -/
theorem locate (h : t.InDirectories) (hlocate : t.locate path = .ok q) (hnone : t.at? q = none) :
    t.at? q.dropLast = some .directory := by
  rw [FileTree.locate, ne_empty_of_locate hlocate] at hlocate
  obtain ⟨step, steps, hsteps⟩ := List.exists_cons_of_ne_nil (Text.splitOn_ne_nil '/' path)
  rw [hsteps] at hlocate
  refine h.walk (fun hstart => ?_) hlocate hnone
  rw [if_neg Bool.false_ne_true, FileTree.walk, hstart] at hlocate
  cases hlocate

/-- An entry may be put into a directory, unless it takes the place of one. -/
theorem put (h : t.InDirectories) (hne : place ≠ []) (hplace : t.at? place.dropLast = some .directory)
    {entry : FileEntry} (hentry : t.at? place = some .directory → entry = .directory) :
    (t.put place entry).InDirectories := by
  intro q hq
  have hdirectory : t.at? q.dropLast = some .directory := by
    by_cases heq : q = place
    · rwa [heq]
    · rw [at?_put t hne, if_neg heq] at hq
      exact h q hq
  rw [at?_put t hne]
  split
  · next heq => rw [hentry (heq ▸ hdirectory)]
  · exact hdirectory

end InDirectories

theorem Makes.inDirectories (h : Makes t t') (ht : t.InDirectories) : t'.InDirectories := by
  induction h with
  | nothing => exact ht
  | directory _ hplace hnone ih =>
    exact ih.put (ne_nil_of_at? hnone (by simp)) (ih.locate hplace hnone) fun _ => rfl

/-! ## One directory in two trees -/

/-- Trees that have the same at a place still do when one path is made to lead to a directory. -/
theorem at?_congr_ensureDirectories (hhome : t'.home = t.home)
    (hmade : t.ensureDirectories path = (.ok (), made))
    (hmade' : t'.ensureDirectories path = (.ok (), made')) (hplace : made.locate path = .ok place)
    (hplace' : made'.locate path = .ok place) (h : t'.at? q = t.at? q) : made'.at? q = made.at? q := by
  have hmakes : Alters (fun _ => False) t made := by
    simpa only [hmade] using (makes_ensureDirectories t path).alters fun _ => False
  have hmakes' : Alters (fun _ => False) t' made' := by
    simpa only [hmade'] using (makes_ensureDirectories t' path).alters fun _ => False
  have hthere := isDirectory_of_ensureDirectories hmade hplace
  have hthere' := isDirectory_of_ensureDirectories hmade' hplace'
  have hone := at?_ensureDirectories (hmakes'.home.trans hhome) hthere' q
  have htwo := at?_ensureDirectories (hmakes.home.trans hhome.symm) hthere q
  rw [hmade] at hone
  rw [hmade'] at htwo
  rcases hone with hsame | hthere'
  · rcases htwo with hsame' | hthere
    · rw [hsame, hsame', h]
    · rw [hsame] at hthere
      rw [hsame, hthere]
      exact hmakes'.directory (h.trans hthere)
  · rcases htwo with hsame' | hthere
    · rw [hsame'] at hthere'
      rw [hsame', hthere']
      exact (hmakes.directory (h.symm.trans hthere')).symm
    · rw [hthere, hthere']

end TypedStubs.FileTree
