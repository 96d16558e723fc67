import TypedStubs.FileTree.Access
import TypedStubs.Proofs.Path

/-! # What using a file tree by paths does to it

Directories are made where nothing stood (`Makes`), and a file is written in the place of a file or of
nothing; all else stays as it was.  `Alters` says so of any number of such steps, with the places where
files may be written.  Paths that lead somewhere still lead there afterwards (`Alters.locate`).
-/
namespace TypedStubs.FileTree

variable {t t' t'' : FileTree} {place q : Location} {path : String} {steps names : List String}

/-- The bytes of the file at a location, if one stands there. -/
def contents? (t : FileTree) (place : Location) : Option ByteArray :=
  match t.at? place with
  | some (.file contents) => some contents
  | _ => none

theorem contents?_eq_some {contents : ByteArray} :
    t.contents? place = some contents ↔ t.at? place = some (.file contents) := by
  unfold contents?
  split
  · next h => simp [h]
  · next h => simpa using h contents

theorem at?_nil (t : FileTree) : t.at? [] = some .directory := rfl

theorem ne_nil_of_at? {entry : Option FileEntry} (h : t.at? place = entry)
    (hentry : entry ≠ some .directory) : place ≠ [] := by
  rintro rfl
  exact hentry (h ▸ at?_nil t)

/-! ## Following paths -/

theorem walk_append (t : FileTree) (place : Location) (steps more : List String) :
    t.walk place (steps ++ more) = (t.walk place steps).bind fun p => t.walk p more := by
  induction steps generalizing place with
  | nil => rfl
  | cons step steps ih =>
    simp only [List.cons_append, walk]
    split
    · rfl
    · rfl
    · split
      · exact ih place
      split
      · exact ih place.dropLast
      split
      · rfl
      · exact ih (place ++ [step])

/-- Names lead further down. -/
theorem walk_names (hnames : ∀ name ∈ names, Path.IsName name)
    (h : t.walk place names = .ok q) : q = place ++ names := by
  induction names generalizing place with
  | nil => simpa [walk] using (Except.ok.inj h).symm
  | cons name names ih =>
    obtain ⟨hempty, hdot, hdots, -⟩ := hnames name List.mem_cons_self
    simp only [walk, hempty, hdot, hdots, or_self, if_false] at h
    split at h
    · cases h
    · cases h
    · split at h
      · cases h
      · simpa using ih (fun n hn => hnames n (List.mem_cons_of_mem name hn)) h

/-- A location that steps lead to has only names on it. -/
theorem walk_isName (hplace : ∀ name ∈ place, Path.IsName name)
    (hsteps : ∀ step ∈ steps, '/' ∉ step.toList) (h : t.walk place steps = .ok q) :
    ∀ name ∈ q, Path.IsName name := by
  induction steps generalizing place with
  | nil => exact Except.ok.inj h ▸ hplace
  | cons step steps ih =>
    have hrest : ∀ s ∈ steps, '/' ∉ s.toList := fun s hs => hsteps s (List.mem_cons_of_mem step hs)
    simp only [walk] at h
    split at h
    · cases h
    · cases h
    split at h
    · exact ih hplace hrest h
    · next hdot =>
      split at h
      · exact ih (fun name hname => hplace name (List.dropLast_subset place hname)) hrest h
      · next hdots =>
        split at h
        · cases h
        · refine ih (fun name hname => ?_) hrest h
          rcases List.mem_append.1 hname with hname | hname
          · exact hplace name hname
          · obtain rfl := List.mem_singleton.1 hname
            obtain ⟨hempty, hone⟩ := not_or.1 hdot
            exact ⟨hempty, hone, hdots, hsteps name List.mem_cons_self⟩

theorem ne_of_locate (h : t.locate path = .ok place) : path ≠ "" := by
  rintro rfl
  cases h

theorem ne_empty_of_locate (h : t.locate path = .ok place) : path.isEmpty = false := by
  rw [locate] at h
  split at h
  · cases h
  · next hne => simpa using hne

/-- A step that leads nowhere. -/
theorem walk_of_walk_empty (h : t.walk place (steps ++ [""]) = .ok q) : t.walk place steps = .ok q := by
  rw [walk_append] at h
  cases hwalk : t.walk place steps with
  | error problem =>
    rw [hwalk] at h
    cases h
  | ok p =>
    rw [hwalk] at h
    simp only [Except.bind, walk] at h
    split at h
    · cases h
    · cases h
    · simpa using h

/-- A path followed by names leads on from where it leads to. -/
theorem locate_append (h : t.locate path = .ok place) (hne : names ≠ [])
    (hnames : ∀ name ∈ names, Path.IsName name) :
    t.locate (Path.append path (Text.join "/" names)) = t.walk place names := by
  have hempty := ne_empty_of_locate h
  obtain ⟨steps, hsteps, happend⟩ := Path.splitOn_append_names path hne hnames
  obtain ⟨more, hmore⟩ : ∃ more, Path.append path (Text.join "/" names) = path ++ more := by
    rw [Path.append]
    split
    · exact ⟨_, rfl⟩
    · exact ⟨"/" ++ Text.join "/" names, String.append_assoc⟩
  rw [locate, hempty] at h
  have hwalk : t.walk (if path.startsWith "/" then [] else t.home) steps = .ok place := by
    rcases hsteps with hsteps | hsteps
    · simpa [hsteps] using h
    · exact walk_of_walk_empty (by simpa [hsteps] using h)
  have hne' : (path ++ more).isEmpty = false := by
    simp only [Bool.eq_false_iff, ne_eq, String.isEmpty_iff] at hempty ⊢
    simp [hempty]
  rw [locate, happend hempty, hmore, hne', Path.startsWith_append hempty, walk_append, hwalk]
  rfl

/-! ## What may change -/

/-- How what stands at a location may change: nothing becomes a directory, and where it is allowed,
nothing or a file becomes a file. -/
inductive Altered (allowed : Prop) : Option FileEntry → Option FileEntry → Prop where
  /-- It stays. -/
  | same (entry : Option FileEntry) : Altered allowed entry entry
  /-- A directory is made. -/
  | made : Altered allowed none (some .directory)
  /-- A file is written. -/
  | written {entry : Option FileEntry} (h : allowed) (hentry : entry ≠ some .directory)
      (contents : ByteArray) : Altered allowed entry (some (.file contents))

theorem Altered.trans {allowed : Prop} {a b c : Option FileEntry} (h : Altered allowed a b)
    (h' : Altered allowed b c) : Altered allowed a c := by
  cases h' with
  | same => exact h
  | made =>
    cases h with
    | same => exact .made
  | written hallowed hentry contents =>
    cases h with
    | same => exact .written hallowed hentry contents
    | made => exact absurd rfl hentry
    | written _ ha _ => exact .written hallowed ha contents

theorem Altered.mono {allowed allowed' : Prop} {a b : Option FileEntry} (h : Altered allowed a b)
    (himp : allowed → allowed') : Altered allowed' a b := by
  cases h with
  | same => exact .same a
  | made => exact .made
  | written hallowed hentry contents => exact .written (himp hallowed) hentry contents

/-- Whether one tree comes from another by making directories, and writing files at some places. -/
structure Alters (places : Location → Prop) (t t' : FileTree) : Prop where
  /-- The working directory stays. -/
  home : t'.home = t.home
  /-- What stands at a location stays, as far as it may not change. -/
  entry : ∀ place, Altered (places place) (t.at? place) (t'.at? place)

namespace Alters

variable {places places' : Location → Prop}

theorem refl (places : Location → Prop) (t : FileTree) : Alters places t t := ⟨rfl, fun _ => .same _⟩

theorem trans (h : Alters places t t') (h' : Alters places t' t'') : Alters places t t'' :=
  ⟨h'.home.trans h.home, fun place => (h.entry place).trans (h'.entry place)⟩

theorem mono (h : Alters places t t') (himp : ∀ place, places place → places' place) :
    Alters places' t t' :=
  ⟨h.home, fun place => (h.entry place).mono (himp place)⟩

theorem directory (h : Alters places t t') (hplace : t.at? place = some .directory) :
    t'.at? place = some .directory := by
  have haltered := h.entry place
  rw [hplace] at haltered
  generalize t'.at? place = b at haltered
  cases haltered with
  | same => rfl
  | written _ hne => exact absurd rfl hne

/-- Where no file may be written, no contents change. -/
theorem contents? (h : Alters places t t') (hplace : ¬ places place) :
    t'.contents? place = t.contents? place := by
  have haltered := h.entry place
  unfold FileTree.contents?
  generalize t.at? place = a at haltered
  generalize t'.at? place = b at haltered
  cases haltered with
  | same => rfl
  | made => rfl
  | written hallowed => exact absurd hallowed hplace

/-- Where something stood, something still does. -/
theorem ne_none (h : Alters places t t') (hplace : t.at? place ≠ none) : t'.at? place ≠ none := by
  have haltered := h.entry place
  generalize t.at? place = a at haltered hplace
  generalize t'.at? place = b at haltered
  cases haltered with
  | same => exact hplace
  | made => exact absurd rfl hplace
  | written => simp

theorem walk (h : Alters places t t') {start : Location} (hwalk : t.walk start steps = .ok q) :
    t'.walk start steps = .ok q := by
  induction steps generalizing start with
  | nil => exact hwalk
  | cons step steps ih =>
    simp only [FileTree.walk] at hwalk ⊢
    split at hwalk
    · cases hwalk
    · cases hwalk
    · next hdirectory =>
      simp only [h.directory hdirectory]
      split at hwalk
      · next hdot => rw [if_pos hdot]; exact ih hwalk
      next hdot =>
      rw [if_neg hdot]
      split at hwalk
      · next hdots => rw [if_pos hdots]; exact ih hwalk
      next hdots =>
      rw [if_neg hdots]
      split at hwalk
      · cases hwalk
      · next hlong => rw [if_neg hlong]; exact ih hwalk

theorem locate (h : Alters places t t') (hlocate : t.locate path = .ok place) :
    t'.locate path = .ok place := by
  have hempty := ne_empty_of_locate hlocate
  simp only [FileTree.locate, hempty, h.home] at hlocate ⊢
  exact h.walk hlocate

end Alters

/-! ## Making directories -/

/-- Whether one tree comes from another by making directories where nothing stood. -/
inductive Makes (t : FileTree) : FileTree → Prop where
  /-- None is made. -/
  | nothing : Makes t t
  /-- One is made after the others. -/
  | directory {t' : FileTree} {path : String} {place : Location} (h : Makes t t')
      (hplace : t'.locate path = .ok place) (hnone : t'.at? place = none) :
      Makes t (t'.put place .directory)

theorem Makes.trans (h : Makes t t') (h' : Makes t' t'') : Makes t t'' := by
  induction h' with
  | nothing => exact h
  | directory _ hplace hnone ih => exact .directory ih hplace hnone

theorem Makes.alters (h : Makes t t') (places : Location → Prop) : Alters places t t' := by
  induction h with
  | nothing => exact .refl places t
  | @directory t' path place _ hplace hnone ih =>
    refine ih.trans ⟨rfl, fun q => ?_⟩
    rw [at?_put t' (ne_nil_of_at? hnone (by simp))]
    by_cases hq : q = place
    · rw [if_pos hq, hq, hnone]
      exact .made
    · rw [if_neg hq]
      exact .same _

theorem makes_of_makeDirectory (h : t.makeDirectory path = .ok t') : Makes t t' := by
  simp only [makeDirectory, bind, Except.bind] at h
  split at h
  · cases h
  · next place hplace =>
    split at h
    · cases h
    · next hnone =>
      obtain rfl := Except.ok.inj h
      exact .directory .nothing hplace hnone

theorem makes_of_ensureDirectory (h : t.ensureDirectory path = .ok t') : Makes t t' := by
  unfold ensureDirectory at h
  split at h
  · next made hmade =>
    obtain rfl := Except.ok.inj h
    exact makes_of_makeDirectory hmade
  · split at h
    · obtain rfl := Except.ok.inj h
      exact .nothing
    · cases h

theorem makes_ensureAround (t : FileTree) (path : String) (outer : List String) :
    Makes t (t.ensureAround path outer).2 := by
  induction outer generalizing path with
  | nil =>
    unfold ensureAround
    split
    · next made hmade => exact makes_of_ensureDirectory hmade
    · exact .nothing
  | cons around outer ih =>
    unfold ensureAround
    split
    · next made hmade => exact makes_of_ensureDirectory hmade
    · have haround := ih around
      generalize t.ensureAround around outer = result at haround
      obtain ⟨outcome, made⟩ := result
      cases outcome with
      | error problem => exact haround
      | ok _ =>
        cases hlast : made.ensureDirectory path with
        | error problem => simpa [hlast] using haround
        | ok last => simpa [hlast] using haround.trans (makes_of_ensureDirectory hlast)
    · exact .nothing

theorem makes_ensureDirectories (t : FileTree) (path : String) :
    Makes t (t.ensureDirectories path).2 := by
  unfold ensureDirectories
  split
  · exact .nothing
  · exact makes_ensureAround t path _

/-! ## Writing files -/

/-- A file is written in the place of a file or of nothing. -/
theorem writeFile_eq_ok {contents : ByteArray} (h : t.writeFile path contents = .ok t') :
    ∃ place, t.locate path = .ok place ∧ t.at? place ≠ some .directory ∧
      t' = t.put place (.file contents) := by
  simp only [writeFile, bind, Except.bind] at h
  split at h
  · cases h
  · next place hplace =>
    split at h
    · cases h
    · next hnot => exact ⟨place, hplace, hnot, (Except.ok.inj h).symm⟩

theorem alters_put_file {contents : ByteArray} (h : t.at? place ≠ some .directory) :
    Alters (· = place) t (t.put place (.file contents)) := by
  refine ⟨rfl, fun q => ?_⟩
  rw [at?_put t (ne_nil_of_at? rfl h)]
  by_cases hq : q = place
  · rw [if_pos hq]
    exact .written hq (hq ▸ h) contents
  · rw [if_neg hq]
    exact .same _

theorem contents?_put_file {contents : ByteArray} (h : t.at? place ≠ some .directory) :
    (t.put place (.file contents)).contents? place = some contents := by
  rw [contents?_eq_some, at?_put t (ne_nil_of_at? rfl h), if_pos rfl]

/-! ## Reading files -/

theorem fromUTF8?_eq_some {contents : ByteArray} {text : String} :
    String.fromUTF8? contents = some text ↔ contents = text.toUTF8 := by
  unfold String.fromUTF8?
  constructor
  · intro h
    split at h
    · obtain rfl := Option.some.inj h
      rfl
    · cases h
  · rintro rfl
    exact dif_pos text.isValidUTF8

theorem entry_eq_ok {e : FileEntry} :
    t.entry path = .ok e ↔ ∃ place, t.locate path = .ok place ∧ t.at? place = some e := by
  rw [entry]
  cases hplace : t.locate path with
  | error problem => simp [bind, Except.bind]
  | ok place =>
    cases hentry : t.at? place with
    | none => simp [bind, Except.bind, hentry]
    | some found => simp [bind, Except.bind, hentry, pure, Except.pure]

theorem isDirectory_iff :
    t.isDirectory path = true ↔ ∃ place, t.locate path = .ok place ∧ t.at? place = some .directory := by
  rw [← entry_eq_ok, isDirectory]
  split
  · next h => simp [h]
  · next h => simpa using h

theorem read_eq_ok {text : String} :
    t.read path = .ok text ↔
      ∃ place, t.locate path = .ok place ∧ t.contents? place = some text.toUTF8 := by
  simp only [contents?_eq_some, ← entry_eq_ok]
  rw [read]
  cases hentry : t.entry path with
  | error problem => simp [bind, Except.bind]
  | ok e =>
    cases e with
    | directory => simp [bind, Except.bind]
    | file contents =>
      simp only [bind, Except.bind, Except.ok.injEq, FileEntry.file.injEq]
      rw [← fromUTF8?_eq_some]
      cases String.fromUTF8? contents <;> simp [pure, Except.pure]

end TypedStubs.FileTree
