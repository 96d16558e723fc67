import Mathlib.Data.List.Forall2
import Mathlib.Data.List.TakeWhile
import TypedStubs.Docstring.Sections
import TypedStubs.Proofs.Text.Spaced

/-! # What the sections of a docstring are read from

A line of dashes is an orphan when no title can stand above it: on the first line, below a blank line and below
another line of dashes.  The first orphan is the one problem of a docstring, and without one each line that can be a
title and has a line of dashes below it starts a section (`sections_decided`).  A docstring that is accepted has one
layout: lines before the first title, and passages that start with a title and its underline (`IsLayout.unique`).
Every line of a passage that is not blank goes into the fields of its section, in order (`sections_keep_lines`).
-/
namespace TypedStubs.Docstring

variable {line below : String} {ls rest preamble : List String}

/-! ### Titles and orphans -/

/-- Whether a line is a title if it is underlined. -/
def canHead (line : String) : Bool := !Text.isAllBlank line && !isUnderline line

/-- Whether the line at an index is a line of dashes without a title above it. -/
def OrphanAt (lines : List String) (i : Nat) : Prop :=
  (∃ line ∈ lines[i]?, isUnderline line = true) ∧ (i = 0 ∨ ∃ above ∈ lines[i - 1]?, canHead above = false)

/-- Whether the line at an index is the first orphan. -/
def FirstOrphan (lines : List String) (i : Nat) : Prop :=
  OrphanAt lines i ∧ ∀ j < i, ¬ OrphanAt lines j

/-- The titles among lines, in order: the lines that can be titles and have a line of dashes below them. -/
def titles (lines : List String) : List String :=
  ((lines.zip lines.tail).filter fun pair => canHead pair.1 && isUnderline pair.2).map (Text.trim ·.1)

theorem canHead_eq (h : isUnderline line = false) : canHead line = !Text.isAllBlank line := by
  simp [canHead, h]

theorem canHead_of_isUnderline (h : isUnderline line = true) : canHead line = false := by
  simp [canHead, h]

theorem orphanAt_zero : OrphanAt (line :: rest) 0 ↔ isUnderline line = true := by
  simp [OrphanAt]

theorem not_orphanAt_nil (i : Nat) : ¬ OrphanAt [] i := by
  simp [OrphanAt]

/-- Below a line that is no title an orphan is one without that line too. -/
theorem orphanAt_succ (h : canHead line = true → ∀ below ∈ rest.head?, isUnderline below = false) (i : Nat) :
    OrphanAt (line :: rest) (i + 1) ↔ OrphanAt rest i := by
  cases i with
  | zero =>
    rw [OrphanAt, OrphanAt]
    rw [List.getElem?_cons_succ]
    refine and_congr_right fun ⟨below, hbelow, hunder⟩ => iff_of_true (.inr ⟨line, rfl, ?_⟩) (.inl rfl)
    rw [← List.head?_eq_getElem?] at hbelow
    exact Bool.eq_false_iff.2 fun hhead => absurd hunder (by simp [h hhead below hbelow])
  | succ i => simp [OrphanAt]

theorem orphanAt_plain (hline : isUnderline line = false)
    (h : canHead line = true → ∀ below ∈ rest.head?, isUnderline below = false) (i : Nat) :
    OrphanAt (line :: rest) i ↔ ∃ j, i = j + 1 ∧ OrphanAt rest j := by
  cases i with
  | zero => simp [orphanAt_zero, hline]
  | succ i => simp [orphanAt_succ h]

/-- A title and its underline are no orphans, and hide none. -/
theorem orphanAt_titled (hline : canHead line = true) (hbelow : isUnderline below = true) (i : Nat) :
    OrphanAt (line :: below :: rest) i ↔ ∃ j, i = j + 2 ∧ OrphanAt rest j := by
  have hplain : isUnderline line = false := by simpa [canHead] using (Bool.and_eq_true_iff.1 hline).2
  match i with
  | 0 => simp [orphanAt_zero, hplain]
  | 1 => simp [OrphanAt, hline]
  | i + 2 =>
    have hskip : OrphanAt (line :: below :: rest) (i + 2) ↔ OrphanAt (below :: rest) (i + 1) := by
      simp [OrphanAt]
    rw [hskip, orphanAt_succ (by simp [canHead_of_isUnderline hbelow])]
    simp

theorem firstOrphan_of_step {more : List String} {k i : Nat}
    (h : ∀ i, OrphanAt ls i ↔ ∃ j, i = j + k ∧ OrphanAt more j) (hfirst : FirstOrphan more i) :
    FirstOrphan ls (i + k) := by
  refine ⟨(h _).2 ⟨i, rfl, hfirst.1⟩, fun j hj horphan => ?_⟩
  obtain ⟨n, rfl, hn⟩ := (h j).1 horphan
  exact hfirst.2 n (by omega) hn

theorem no_orphan_of_step {more : List String} {k : Nat}
    (h : ∀ i, OrphanAt ls i ↔ ∃ j, i = j + k ∧ OrphanAt more j) (hnone : ∀ i, ¬ OrphanAt more i) (i : Nat) :
    ¬ OrphanAt ls i := by
  rw [h]
  rintro ⟨j, -, hj⟩
  exact hnone j hj

theorem titles_cons_cons : titles (line :: below :: rest) =
    (if canHead line && isUnderline below then [Text.trim line] else []) ++ titles (below :: rest) := by
  rw [titles, List.tail_cons, List.zip_cons_cons, List.filter_cons]
  split <;> rfl

theorem titles_cons_underline (h : isUnderline line = true) : titles (line :: rest) = titles rest := by
  cases rest with
  | nil => simp [titles]
  | cons below rest => simp [titles_cons_cons, canHead_of_isUnderline h]

/-- What lines are cut into, or which one is the first orphan.  The lines are taken one or two at a time, so what is
said of them has to be the same before and after each step (`orphanAt_plain`, `orphanAt_titled`). -/
theorem stretches_decided (number : Nat) (ls : List String) :
    match stretches number ls with
    | .error problem => ∃ i, problem.line = number + i ∧ FirstOrphan ls i
    | .ok (_, found) => (∀ i, ¬ OrphanAt ls i) ∧ found.map Stretch.title = titles ls := by
  fun_induction stretches number ls with
  | case1 => exact ⟨not_orphanAt_nil, rfl⟩
  | case2 number line hline => exact ⟨0, rfl, orphanAt_zero.2 hline, by simp⟩
  | case3 number line hline =>
    have hstep : ∀ i, OrphanAt [line] i ↔ ∃ j, i = j + 1 ∧ OrphanAt [] j :=
      orphanAt_plain (Bool.eq_false_iff.2 hline) (by simp)
    exact ⟨no_orphan_of_step hstep not_orphanAt_nil, rfl⟩
  | case4 number line below rest hline => exact ⟨0, rfl, orphanAt_zero.2 hline, by simp⟩
  | case5 number line below rest hline htitled ih =>
    have hline := Bool.eq_false_iff.2 hline
    have htitled : canHead line = true ∧ isUnderline below = true := by simpa [canHead_eq hline] using htitled
    -- the underline is taken with its title, so it can neither be an orphan nor head the line below it
    have hstep : ∀ i, OrphanAt (line :: below :: rest) i ↔ ∃ j, i = j + 2 ∧ OrphanAt rest j :=
      orphanAt_titled htitled.1 htitled.2
    cases hrest : stretches (number + 2) rest with
    | error problem =>
      rw [hrest] at ih
      obtain ⟨i, hi, hfirst⟩ := ih
      exact ⟨i + 2, by omega, firstOrphan_of_step hstep hfirst⟩
    | ok cut =>
      rw [hrest] at ih
      refine ⟨no_orphan_of_step hstep ih.1, ?_⟩
      rw [titles_cons_cons, titles_cons_underline htitled.2, ← ih.2]
      simp [htitled]
  | case6 number line below rest hline htitled ih =>
    have hline := Bool.eq_false_iff.2 hline
    have htitled : canHead line = true → isUnderline below = false := by simpa [canHead_eq hline] using htitled
    have hstep : ∀ i, OrphanAt (line :: below :: rest) i ↔ ∃ j, i = j + 1 ∧ OrphanAt (below :: rest) j :=
      orphanAt_plain hline (by simpa using htitled)
    cases hrest : stretches (number + 1) (below :: rest) with
    | error problem =>
      rw [hrest] at ih
      obtain ⟨i, hi, hfirst⟩ := ih
      exact ⟨i + 1, by omega, firstOrphan_of_step hstep hfirst⟩
    | ok cut =>
      rw [hrest] at ih
      refine ⟨no_orphan_of_step hstep ih.1, ?_⟩
      rw [titles_cons_cons, ← ih.2]
      simpa using htitled

theorem FirstOrphan.unique {i j : Nat} (hi : FirstOrphan ls i) (hj : FirstOrphan ls j) : i = j :=
  Nat.le_antisymm (Nat.not_lt.1 fun h => hi.2 j h hj.1) (Nat.not_lt.1 fun h => hj.2 i h hi.1)

/-- The section that a stretch makes. -/
def Stretch.toSection (s : Stretch) : Section := ⟨s.title, fieldsOf s.lines⟩

theorem sections_eq (text : String) : sections text =
    (stretches 1 (Text.lines text)).map fun cut => cut.2.map Stretch.toSection := by
  rw [sections]
  cases stretches 1 (Text.lines text) <;> rfl

/-- **A docstring is malformed just if it has an orphan, and otherwise has a section for each title.**  The problem
names the first orphan by its number from one. -/
theorem sections_decided (text : String) :
    (∀ number, sections text = .error ⟨number⟩ ↔
        ∃ i, number = i + 1 ∧ FirstOrphan (Text.lines text) i) ∧
      ((∃ found, sections text = .ok found ∧ found.map Section.title = titles (Text.lines text)) ↔
        ∀ i, ¬ OrphanAt (Text.lines text) i) := by
  have hdecided := stretches_decided 1 (Text.lines text)
  rw [sections_eq]
  cases hcut : stretches 1 (Text.lines text) with
  | error problem =>
    rw [hcut] at hdecided
    obtain ⟨i, hline, hfirst⟩ := hdecided
    constructor
    · intro number
      constructor
      · intro h
        obtain rfl := Except.error.inj h
        exact ⟨i, by rw [← Nat.add_comm, ← hline], hfirst⟩
      · rintro ⟨j, rfl, hj⟩
        obtain rfl := hfirst.unique hj
        refine congrArg Except.error ?_
        rw [Nat.add_comm, ← hline]
    · exact iff_of_false (fun ⟨_, h, _⟩ => by cases h) fun hnone => hnone i hfirst.1
  | ok cut =>
    rw [hcut] at hdecided
    obtain ⟨hnone, htitles⟩ := hdecided
    constructor
    · exact fun number => iff_of_false (fun h => by cases h) fun ⟨i, _, hfirst⟩ => hnone i hfirst.1
    · refine iff_of_true ⟨_, rfl, ?_⟩ hnone
      rw [← htitles, List.map_map]
      rfl

/-! ### The layout of a docstring -/

/-- A title with its underline, and the lines below them up to the next title. -/
@[ext] structure Passage where
  /-- The line with the title. -/
  heading : String
  /-- The line of dashes below it. -/
  underline : String
  /-- What follows. -/
  body : List String

namespace Passage

/-- The lines of a passage. -/
def lines (p : Passage) : List String := p.heading :: p.underline :: p.body

/-- The lines below the underline that are not blank. -/
def content (p : Passage) : List String := p.body.filter (!Text.isAllBlank ·)

/-- The stretch that a passage is read as. -/
def stretch (p : Passage) : Stretch := ⟨Text.trim p.heading, p.body⟩

/-- Whether a passage has one title, the underlined one. -/
structure IsTitled (p : Passage) : Prop where
  /-- Its first line can be a title. -/
  heading : canHead p.heading = true
  /-- That line is underlined. -/
  underline : isUnderline p.underline = true
  /-- Nothing else is. -/
  body : ∀ line ∈ p.body, isUnderline line = false

end Passage

/-- Whether lines are those before the first title and those of passages, one after the other. -/
structure IsLayout (lines preamble : List String) (passages : List Passage) : Prop where
  /-- No line is left out. -/
  lines_eq : lines = preamble ++ passages.flatMap Passage.lines
  /-- There is no title before the first passage. -/
  preamble : ∀ line ∈ preamble, isUnderline line = false
  /-- Each passage has one. -/
  titled : ∀ p ∈ passages, p.IsTitled

theorem stretches_layout {number : Nat} {found : List Stretch}
    (h : stretches number ls = .ok (preamble, found)) :
    ∃ passages, IsLayout ls preamble passages ∧ found = passages.map Passage.stretch := by
  fun_induction stretches number ls generalizing preamble found with
  | case1 =>
    obtain ⟨rfl, rfl⟩ := Prod.mk.inj (Except.ok.inj h)
    exact ⟨[], ⟨rfl, by simp, by simp⟩, rfl⟩
  | case2 => cases h
  | case3 number line hline =>
    obtain ⟨rfl, rfl⟩ := Prod.mk.inj (Except.ok.inj h)
    exact ⟨[], ⟨rfl, by simpa using hline, by simp⟩, rfl⟩
  | case4 => cases h
  | case5 number line below rest hline htitled ih =>
    have hline := Bool.eq_false_iff.2 hline
    cases hrest : stretches (number + 2) rest with
    | error problem => simp [hrest, bind, Except.bind] at h
    | ok cut =>
      obtain ⟨passages, hlayout, hmore⟩ := ih hrest
      rw [hrest] at h
      obtain ⟨rfl, rfl⟩ := Prod.mk.inj (Except.ok.inj h)
      have htitled : canHead line = true ∧ isUnderline below = true := by simpa [canHead_eq hline] using htitled
      refine ⟨⟨line, below, cut.1⟩ :: passages, ⟨?_, by simp, ?_⟩, by simp [hmore, Passage.stretch]⟩
      · rw [hlayout.lines_eq]
        rfl
      · exact List.forall_mem_cons.2 ⟨⟨htitled.1, htitled.2, hlayout.preamble⟩, hlayout.titled⟩
  | case6 number line below rest hline htitled ih =>
    cases hrest : stretches (number + 1) (below :: rest) with
    | error problem => simp [hrest, bind, Except.bind] at h
    | ok cut =>
      obtain ⟨passages, hlayout, hmore⟩ := ih hrest
      rw [hrest] at h
      obtain ⟨rfl, rfl⟩ := Prod.mk.inj (Except.ok.inj h)
      refine ⟨passages, ⟨?_, ?_, hlayout.titled⟩, hmore⟩
      · rw [hlayout.lines_eq]
        rfl
      · exact List.forall_mem_cons.2 ⟨Bool.eq_false_iff.2 hline, hlayout.preamble⟩

/-- The first line of dashes is the second line of the first passage. -/
theorem findIdx_underline {p : Passage} (hpreamble : ∀ line ∈ preamble, isUnderline line = false)
    (hp : p.IsTitled) (more : List String) :
    (preamble ++ (p.lines ++ more)).findIdx isUnderline = preamble.length + 1 := by
  have hheading : isUnderline p.heading = false := by
    simpa using (Bool.and_eq_true_iff.1 hp.heading).2
  induction preamble with
  | nil => simp [Passage.lines, List.findIdx_cons, hheading, hp.underline]
  | cons line preamble ih =>
    obtain ⟨hline, hpreamble⟩ := List.forall_mem_cons.1 hpreamble
    simp [List.findIdx_cons, hline, ih hpreamble]

theorem IsLayout.underline_mem {p : Passage} {passages : List Passage}
    (h : IsLayout ls preamble (p :: passages)) : ∃ line ∈ ls, isUnderline line = true :=
  ⟨p.underline, by rw [h.lines_eq]; simp [Passage.lines], (h.titled p List.mem_cons_self).underline⟩

/-- **Lines have one layout.** -/
theorem IsLayout.unique {preamble' : List String} {passages passages' : List Passage}
    (h : IsLayout ls preamble passages) (h' : IsLayout ls preamble' passages') :
    preamble = preamble' ∧ passages = passages' := by
  induction passages generalizing ls preamble preamble' passages' with
  | nil =>
    have hlines : ls = preamble := by simpa using h.lines_eq
    cases passages' with
    | nil => exact ⟨by simpa [hlines] using h'.lines_eq, rfl⟩
    | cons p' passages' =>
      obtain ⟨line, hmem, hline⟩ := h'.underline_mem
      exact absurd hline (by simp [h.preamble line (hlines ▸ hmem)])
  | cons p passages ih =>
    cases passages' with
    | nil =>
      have hlines : ls = preamble' := by simpa using h'.lines_eq
      obtain ⟨line, hmem, hline⟩ := h.underline_mem
      exact absurd hline (by simp [h'.preamble line (hlines ▸ hmem)])
    | cons p' passages' =>
      obtain ⟨hp, hpassages⟩ := List.forall_mem_cons.1 h.titled
      obtain ⟨hp', hpassages'⟩ := List.forall_mem_cons.1 h'.titled
      have hlines := h.lines_eq.symm.trans h'.lines_eq
      rw [List.flatMap_cons, List.flatMap_cons] at hlines
      -- both preambles end one line before the first line of dashes
      have hlength : preamble.length = preamble'.length := by
        have hfirst := congrArg (List.findIdx isUnderline) hlines
        rw [findIdx_underline h.preamble hp, findIdx_underline h'.preamble hp'] at hfirst
        exact Nat.succ.inj hfirst
      obtain ⟨rfl, hrest⟩ := List.append_inj hlines hlength
      obtain ⟨hheading, hrest⟩ := List.cons.inj hrest
      obtain ⟨hunderline, hrest⟩ := List.cons.inj hrest
      obtain ⟨hbody, rfl⟩ := ih ⟨rfl, hp.body, hpassages⟩ ⟨hrest, hp'.body, hpassages'⟩
      exact ⟨rfl, congrArg (· :: passages) (Passage.ext hheading hunderline hbody)⟩

/-! ### The fields of a section -/

/-- A line that starts a field, and the deeper lines below it. -/
structure Entry where
  /-- The line that starts the field. -/
  header : String
  /-- The lines that describe it. -/
  deeper : List String

namespace Entry

/-- The lines of an entry. -/
def lines (e : Entry) : List String := e.header :: e.deeper

/-- The field that an entry makes. -/
def field (e : Entry) : Field :=
  { fieldOf (Text.trim e.header) with description := Text.join "\n" (e.deeper.map Text.trim) }

/-- Whether the lines of an entry are indented as they are where fields start at most `base` deep. -/
structure IsAt (base : Nat) (e : Entry) : Prop where
  /-- The header is no deeper. -/
  header : indentOf e.header ≤ base
  /-- The lines below it are. -/
  deeper : ∀ line ∈ e.deeper, base < indentOf line

end Entry

theorem fieldsFrom_entries (base : Nat) (ls : List String) (hhead : ∀ first ∈ ls.head?, indentOf first ≤ base) :
    ∃ entries : List Entry, ls = entries.flatMap Entry.lines ∧ (∀ e ∈ entries, e.IsAt base) ∧
      fieldsFrom base ls = entries.map Entry.field := by
  fun_induction fieldsFrom base ls with
  | case1 => exact ⟨[], rfl, by simp, rfl⟩
  | case2 line rest _ hdeep =>
    -- no deeper line stands in front of the first entry
    exact absurd (hhead line rfl) (Nat.not_le.2 hdeep)
  | case3 line rest deeper after hheader ih =>
    obtain ⟨entries, hafter, hat, hfields⟩ := ih fun first hfirst => by
      simpa using forall_head?_dropWhile (fun l => decide (base < indentOf l)) rest first hfirst
    refine ⟨⟨line, deeper⟩ :: entries, ?_, ?_, ?_⟩
    · rw [List.flatMap_cons, ← hafter, Entry.lines, List.cons_append, List.takeWhile_append_dropWhile]
    · refine List.forall_mem_cons.2 ⟨⟨Nat.not_lt.1 hheader, fun l hl => ?_⟩, hat⟩
      simpa using List.mem_takeWhile_imp hl
    · rw [hfields]
      rfl

/-- What a section says of the passage that it is read from. -/
structure Passage.GivesSection (p : Passage) (s : Section) : Prop where
  /-- Its title is the heading. -/
  title : s.title = Text.trim p.heading
  /-- Its fields are made by entries, which are all the content in order; an entry starts with a line that is no
  deeper than the first one, and goes on as long as lines are deeper. -/
  fields : ∃ entries : List Entry, p.content = entries.flatMap Entry.lines ∧
    (∀ first ∈ p.content.head?, ∀ e ∈ entries, e.IsAt (indentOf first)) ∧ s.fields = entries.map Entry.field
  /-- Content makes a field. -/
  fields_ne_nil : p.content ≠ [] → s.fields ≠ []

theorem fieldsOf_eq (lines : List String) : fieldsOf lines =
    (let content := lines.filter (!Text.isAllBlank ·)
     fieldsFrom ((content.head?.map indentOf).getD 0) content) := by
  rw [fieldsOf]
  split
  · next h => simp [h, fieldsFrom]
  · next first rest h => simp [h]

theorem Passage.givesSection (p : Passage) : p.GivesSection p.stretch.toSection := by
  have hfields : p.stretch.toSection.fields =
      fieldsFrom ((p.content.head?.map indentOf).getD 0) p.content := fieldsOf_eq p.body
  have hhead : ∀ first ∈ p.content.head?, indentOf first ≤ (p.content.head?.map indentOf).getD 0 := by
    intro first hfirst
    rw [Option.mem_def.1 hfirst]
    exact Nat.le_refl _
  obtain ⟨entries, hcontent, hat, hentries⟩ := fieldsFrom_entries _ _ hhead
  refine ⟨rfl, ⟨entries, hcontent, fun first hfirst => ?_, hfields.trans hentries⟩, fun hne hnil => hne ?_⟩
  · rw [Option.mem_def.1 hfirst] at hat
    exact hat
  · rw [hfields, hentries, List.map_eq_nil_iff] at hnil
    rw [hcontent, hnil]
    rfl

/-- **No line of a section is lost or misplaced.**  The lines of a docstring that is accepted have one layout, and
each section is read from the passage at its place: with the heading as its title, and the lines of the passage that
are not blank as its fields. -/
theorem sections_keep_lines {text : String} {found : List Section} (h : sections text = .ok found) :
    ∃ preamble passages, IsLayout (Text.lines text) preamble passages ∧
      (∀ preamble' passages', IsLayout (Text.lines text) preamble' passages' →
        preamble' = preamble ∧ passages' = passages) ∧
      List.Forall₂ Passage.GivesSection passages found := by
  rw [sections_eq] at h
  cases hcut : stretches 1 (Text.lines text) with
  | error problem =>
    rw [hcut] at h
    cases h
  | ok cut =>
    obtain ⟨passages, hlayout, hpassages⟩ := stretches_layout hcut
    rw [hcut] at h
    obtain rfl := Except.ok.inj h
    refine ⟨cut.1, passages, hlayout, fun _ _ hother => hother.unique hlayout, ?_⟩
    simp only [hpassages, List.map_map]
    rw [List.forall₂_map_right_iff]
    exact List.forall₂_same.2 fun p _ => p.givesSection

/-- A section with a blank line in it, and lines deeper than the first by different amounts. -/
theorem sections_keep_lines_plot :
    let text := "Plot.\n\nReturns\n---\nx, y : array\n    deep\n\n  more\nz:"
    let found : List Section := [⟨"Returns", [⟨["x", "y"], some "array", "deep\nmore"⟩, ⟨["z"], none, ""⟩]⟩]
    sections text = .ok found ∧ ∃ preamble passages, IsLayout (Text.lines text) preamble passages ∧
      List.Forall₂ Passage.GivesSection passages found := by
  intro text found
  have hlines : Text.lines text =
      ["Plot.", "", "Returns", "---", "x, y : array", "    deep", "", "  more", "z:"] := by decide +kernel
  have hcut : stretches 1 ["Plot.", "", "Returns", "---", "x, y : array", "    deep", "", "  more", "z:"] =
      .ok (["Plot.", ""], [⟨"Returns", ["x, y : array", "    deep", "", "  more", "z:"]⟩]) := rfl
  have hfields : fieldsOf ["x, y : array", "    deep", "", "  more", "z:"] =
      [⟨["x", "y"], some "array", "deep\nmore"⟩, ⟨["z"], none, ""⟩] := by decide +kernel
  have hfound : sections text = .ok found := by
    rw [sections_eq, hlines, hcut]
    simp only [Except.map, List.map_cons, List.map_nil, Stretch.toSection, hfields, found]
  obtain ⟨preamble, passages, hlayout, -, hgives⟩ := sections_keep_lines hfound
  exact ⟨hfound, preamble, passages, hlayout, hgives⟩

end TypedStubs.Docstring
