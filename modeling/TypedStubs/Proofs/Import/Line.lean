import TypedStubs.Import.Line
import TypedStubs.Proofs.Import.Block
import TypedStubs.Proofs.Text.Spaced
import TypedStubs.Text.Letter

/-! # Import lines say what they import

An import is legible when its names have no blank, comma, parenthesis or star and its paths do not hold
the keyword that stands behind them.  The line of a group of legible imports is read back as that group
(`readLine_group`), and so is each line of a block: the lines lose and invent nothing
(`block_reads_back`).
-/
namespace TypedStubs.Import

open Text (IsTrimmed Spaced)

/-! ## Names between commas -/

/-- Whether a character may stand in a name on an import line. -/
def isNameChar (c : Char) : Bool := !Text.isBlank c && !([',', '(', ')', '*'].contains c)

/-- Whether a text can be listed as a name. -/
def isListable (name : String) : Bool := !name.isEmpty && name.toList.all isNameChar

theorem isBlank_of_isNameChar {c : Char} (h : isNameChar c = true) : Text.isBlank c = false := by
  simp only [isNameChar, Bool.and_eq_true, Bool.not_eq_true'] at h
  exact h.1

/-- The blank code points, one by one. -/
def blankCodes : List Nat := Text.blankRanges.flatMap fun r => List.range' r.1 (r.2 + 1 - r.1)

theorem toNat_mem_blankCodes {c : Char} (h : Text.isBlank c = true) : c.toNat ∈ blankCodes := by
  obtain ⟨r, hr, hfirst, hlast⟩ := (Text.CharRanges.covers_iff _ c).1 h
  refine List.mem_flatMap.2 ⟨r, hr, ?_⟩
  rw [List.mem_range'_1]
  omega

/-- What continues a name of the language may stand in a name on an import line. -/
theorem isNameChar_of_continuesName {c : Char} (h : Text.continuesName c = true) : isNameChar c = true := by
  have hblanks : ∀ n ∈ blankCodes, Text.continuesName (Char.ofNat n) = false := by decide +kernel
  have hsigns : ∀ c ∈ [',', '(', ')', '*'], Text.continuesName c = false :=
    forall_mem_of_all (by decide +kernel)
  simp only [isNameChar, Bool.and_eq_true, Bool.not_eq_true']
  constructor
  · refine Bool.eq_false_iff.2 fun hblank => ?_
    have := hblanks _ (toNat_mem_blankCodes hblank)
    rw [Char.ofNat_toNat, h] at this
    cases this
  · refine Bool.eq_false_iff.2 fun hsign => ?_
    have := hsigns c (List.contains_iff_mem.1 hsign)
    rw [h] at this
    cases this

theorem isNameChar_of_isWord {w : String} (h : Text.isWord w = true) :
    ∀ c ∈ w.toList, isNameChar c = true := by
  unfold Text.isWord at h
  cases hw : w.toList with
  | nil => simp
  | cons d ds =>
    rw [hw, Text.isWordChars, Bool.and_eq_true, List.all_eq_true] at h
    exact fun c hc => isNameChar_of_continuesName (by simp [Text.continuesName, h.2 c hc])

/-- So may the dots between words. -/
theorem isNameChar_join {words : List String} (h : ∀ w ∈ words, Text.isWord w = true) :
    ∀ c ∈ (Text.join "." words).toList, isNameChar c = true := by
  intro c hc
  rcases Text.mem_join hc with hdot | ⟨w, hw, hc⟩
  · obtain rfl : c = '.' := by simpa using hdot
    decide
  · exact isNameChar_of_isWord (h w hw) c hc

theorem not_mem_of_isListable {name : String} (h : isListable name = true) {c : Char}
    (hc : isNameChar c = false) : c ∉ name.toList := by
  simp only [isListable, Bool.and_eq_true, List.all_eq_true] at h
  intro hmem
  simp [h.2 c hmem] at hc

/-- What may stand at the end of a line or in parentheses: its first and its last character may stand in
a name. -/
structure IsListed (text : List Char) : Prop where
  /-- There is something. -/
  ne_nil : text ≠ []
  /-- Its first character. -/
  front : ∀ c ∈ text.head?, isNameChar c = true
  /-- Its last character. -/
  back : ∀ c ∈ text.getLast?, isNameChar c = true

theorem isListed_of_isListable {name : String} (h : isListable name = true) : IsListed name.toList := by
  simp only [isListable, Bool.and_eq_true, List.all_eq_true] at h
  obtain ⟨hne, hall⟩ := h
  refine ⟨fun hnil => ?_, fun c hc => hall c (List.mem_of_head? hc), fun c hc =>
    hall c (List.mem_of_getLast? hc)⟩
  rw [String.toList_eq_nil_iff] at hnil
  simp [hnil] at hne

theorem IsListed.isTrimmed {text : List Char} (h : IsListed text) : IsTrimmed text :=
  ⟨fun c hc => isBlank_of_isNameChar (h.front c hc), fun c hc => isBlank_of_isNameChar (h.back c hc)⟩

/-- One text behind another. -/
theorem IsListed.append {a b : List Char} (ha : IsListed a) (between : List Char) (hb : IsListed b) :
    IsListed (a ++ (between ++ b)) where
  ne_nil := by simp [ha.ne_nil]
  front := by simpa [List.head?_append_of_ne_nil _ ha.ne_nil] using ha.front
  back := by simpa [List.getLast?_append_of_ne_nil _ hb.ne_nil, hb.ne_nil] using hb.back

theorem isListed_join (sep : String) {texts : List String} (hne : texts ≠ [])
    (h : ∀ text ∈ texts, IsListed text.toList) : IsListed (Text.join sep texts).toList := by
  induction texts with
  | nil => exact absurd rfl hne
  | cons first rest ih =>
    obtain ⟨hfirst, hrest⟩ := List.forall_mem_cons.1 h
    cases rest with
    | nil => simpa [Text.join] using hfirst
    | cons second rest =>
      rw [Text.join_cons_cons, String.append_assoc, String.toList_append, String.toList_append]
      exact hfirst.append _ (ih (List.cons_ne_nil _ _) hrest)

theorem isListed_aliased {name : String} (h : isListable name = true) {asName : Option String}
    (ha : ∀ a ∈ asName, isListable a = true) : IsListed (aliased name asName).toList := by
  cases asName with
  | none => exact isListed_of_isListable h
  | some a =>
    rw [aliased, String.append_assoc, String.toList_append, String.toList_append]
    exact (isListed_of_isListable h).append _ (isListed_of_isListable (ha a rfl))

theorem comma_not_mem_aliased {name : String} (h : ',' ∉ name.toList) {asName : Option String}
    (ha : ∀ a ∈ asName, isListable a = true) : ',' ∉ (aliased name asName).toList := by
  cases asName with
  | none => exact h
  | some a =>
    have hcomma := not_mem_of_isListable (ha a rfl) (c := ',') (by decide)
    simp [aliased, h, hcomma]

/-- A name in which no `as` stands behind a space is told from its alias. -/
theorem readAliased_aliased {front : String} (h : ¬ Spaced "as".toList front.toList)
    {asName : Option String} (ha : ∀ a ∈ asName, isListable a = true) :
    readAliased (aliased front asName) = (Text.trim front, asName) := by
  have has : ' ' ∉ "as".toList := by decide
  have hsep : " " ++ "as" ++ " " = " as " := by decide
  cases asName with
  | none =>
    have hcut := Text.cut_spaced_none has h
    rw [hsep] at hcut
    rw [aliased, readAliased, hcut]
  | some a =>
    have hcut := Text.cut_spaced has h a
    rw [hsep] at hcut
    simp only [aliased, readAliased, hcut, (isListed_of_isListable (ha a rfl)).isTrimmed.trim]

/-! ## Legible imports -/

/-- A path that is read off its line: no blank stands at its ends, and the keyword that follows it does
not stand behind a space. -/
structure IsLegiblePath (keyword path : String) : Prop where
  /-- No blank stands at its ends. -/
  isTrimmed : IsTrimmed path.toList
  /-- The keyword does not stand behind a space. -/
  not_spaced : ¬ Spaced keyword.toList path.toList

instance (keyword path : String) : Decidable (IsLegiblePath keyword path) :=
  decidable_of_iff (IsTrimmed path.toList ∧ ¬ Spaced keyword.toList path.toList)
    ⟨fun h => ⟨h.1, h.2⟩, fun h => ⟨h.isTrimmed, h.not_spaced⟩⟩

theorem isLegiblePath_of_isListable (keyword : String) {path : String} (h : isListable path = true) :
    IsLegiblePath keyword path :=
  ⟨(isListed_of_isListable h).isTrimmed,
    Text.not_spaced_of_not_mem (not_mem_of_isListable h (by decide))⟩

/-- An import that is read off its line.  The keyword `as` is no name. -/
def Legible : Import → Prop
  | .module path asName =>
    path ≠ "" ∧ IsLegiblePath "as" path ∧ ',' ∉ path.toList ∧ ∀ a ∈ asName, isListable a = true
  | .member source name asName =>
    IsLegiblePath "import" source ∧ isListable name = true ∧ name ≠ "as" ∧ ∀ a ∈ asName, isListable a = true
  | .star source => IsLegiblePath "import" source

instance : DecidablePred Legible
  | .module path asName => inferInstanceAs (Decidable
    (path ≠ "" ∧ IsLegiblePath "as" path ∧ ',' ∉ path.toList ∧ ∀ a ∈ asName, isListable a = true))
  | .member source name asName => inferInstanceAs (Decidable (IsLegiblePath "import" source ∧
    isListable name = true ∧ name ≠ "as" ∧ ∀ a ∈ asName, isListable a = true))
  | .star source => inferInstanceAs (Decidable (IsLegiblePath "import" source))

/-! ## Lines that are read -/

theorem readLine_module {path : String} {asName : Option String} (h : Legible (.module path asName)) :
    readLine (Import.module path asName).render = .ok [.module path asName] := by
  obtain ⟨hne, hpath, hcomma, ha⟩ := h
  have hends : (aliased path asName).toList ≠ [] ∧
      ∀ c ∈ (aliased path asName).toList.getLast?, Text.isBlank c = false := by
    cases asName with
    | none => exact ⟨by simpa [aliased] using hne, hpath.isTrimmed.back⟩
    | some a =>
      have hlisted := isListed_of_isListable (ha a rfl)
      refine ⟨by simp [aliased], ?_⟩
      rw [aliased, String.toList_append, List.getLast?_append_of_ne_nil _ hlisted.ne_nil]
      exact hlisted.isTrimmed.back
  have htrim : Text.trim ("import " ++ aliased path asName) = "import " ++ aliased path asName := by
    refine IsTrimmed.trim ?_
    rw [String.toList_append]
    exact IsTrimmed.append (by decide) (forall_mem_of_option_all (by decide)) hends.1 hends.2
  rw [render, readLine, htrim]
  simp only [Text.after?_append, Text.splitOn_of_not_mem (comma_not_mem_aliased hcomma ha), List.map_cons,
    List.map_nil, readAliased_aliased hpath.not_spaced ha, hpath.isTrimmed.trim]

theorem readLine_from {source names : String} (hsource : IsLegiblePath "import" source)
    (hne : names.toList ≠ []) (hback : ∀ c ∈ names.toList.getLast?, Text.isBlank c = false) :
    readLine ("from " ++ source ++ " import " ++ names) = .ok (readMembers source names) := by
  have hf : Text.isBlank 'f' = false := by decide
  have htrim : Text.trim ("from " ++ source ++ " import " ++ names) =
      "from " ++ source ++ " import " ++ names := by
    refine IsTrimmed.trim ?_
    rw [String.toList_append]
    exact IsTrimmed.append (by simp) (by simpa using hf) hne hback
  have himport : Text.after? "import " ("from " ++ source ++ " import " ++ names) = none := by
    simp [Text.after?]
  have hfrom : Text.after? "from " ("from " ++ source ++ " import " ++ names) =
      some (source ++ " import " ++ names) := by
    rw [String.append_assoc, String.append_assoc, Text.after?_append, String.append_assoc]
  have hcut : Text.cut " import " (source ++ " import " ++ names) = some (source, names) := by
    have hsep : " " ++ "import" ++ " " = " import " := by decide
    have hword : ' ' ∉ "import".toList := by decide
    have hcut := Text.cut_spaced hword hsource.not_spaced names
    rwa [hsep] at hcut
  rw [readLine, htrim]
  simp only [himport, hfrom, hcut, hsource.isTrimmed.trim]

theorem readLine_star {source : String} (h : Legible (.star source)) :
    readLine (Import.star source).render = .ok [.star source] := by
  have hline : (Import.star source).render = "from " ++ source ++ " import " ++ "*" := by
    rw [render, ← String.toList_inj]
    simp
  rw [hline, readLine_from h (by decide) (forall_mem_of_option_all (by decide))]
  rfl

/-- However a line is written, no blank stands at the ends of a path that is read off it. -/
theorem isTrimmed_of_readLine {line : String} {imports : List Import} (h : readLine line = .ok imports) :
    ∀ i ∈ imports, IsTrimmed i.source.toList := by
  have haliased : ∀ item : String, IsTrimmed (readAliased item).1.toList := by
    intro item
    rw [readAliased]
    split <;> exact Text.isTrimmed_trim _
  have hmembers : ∀ {source : String} (names : String), IsTrimmed source.toList →
      ∀ i ∈ readMembers source names, IsTrimmed i.source.toList := by
    intro source names hsource i hi
    simp only [readMembers] at hi
    split at hi
    · obtain rfl := List.mem_singleton.1 hi
      exact hsource
    · obtain ⟨item, -, rfl⟩ := List.mem_map.1 hi
      exact hsource
  simp only [readLine] at h
  split at h
  · obtain rfl := Except.ok.inj h
    refine List.forall_mem_map.2 fun item _ => ?_
    exact haliased item
  · split at h
    · split at h
      · obtain rfl := Except.ok.inj h
        exact hmembers _ (Text.isTrimmed_trim _)
      · cases h
    · cases h

/-- A name, or one that stands behind a comma and a space, is told from its alias. -/
theorem readAliased_listed {name : String} (h : isListable name = true) (has : name ≠ "as")
    {asName : Option String} (ha : ∀ a ∈ asName, isListable a = true) :
    readAliased (aliased name asName) = (name, asName) ∧
      readAliased (" " ++ aliased name asName) = (name, asName) := by
  have htrim := (isListed_of_isListable h).isTrimmed.trim
  have hsplit : Text.splitWhere (· == ' ') name.toList = [name.toList] :=
    Text.splitWhere_of_forall fun c hc => by
      simpa using fun heq : c = ' ' => not_mem_of_isListable h (by decide) (heq ▸ hc)
  constructor
  · rw [readAliased_aliased (isLegiblePath_of_isListable "as" h).not_spaced ha, htrim]
  · have hfront : " " ++ aliased name asName = aliased (" " ++ name) asName := by
      cases asName <;> simp [aliased, String.append_assoc]
    have hspaced : ¬ Spaced "as".toList (" " ++ name).toList := by
      have hcons : (" " ++ name).toList = ' ' :: name.toList := by simp
      rw [Spaced, hcons, Text.splitWhere_cons (by decide), List.tail_cons, hsplit, List.mem_singleton,
        String.toList_inj]
      exact has.symm
    rw [hfront, readAliased_aliased hspaced ha, Text.trim_space, htrim]

/-- What is listed stands in no parentheses and is no star. -/
theorem readMembers_listed {source names : String} (h : IsListed names.toList) :
    readMembers source names =
      ((Text.splitOn ',' names).filter (!Text.isAllBlank ·)).map fun item =>
        .member source (readAliased item).1 (readAliased item).2 := by
  have hnot : ∀ {c : Char}, isNameChar c = true → ∀ d, isNameChar d = false → (c == d) = false :=
    fun {c} hc d hd => by
      simpa using fun heq : c = d => by
        rw [heq, hd] at hc
        cases hc
  have hopen : names.toList.dropWhile (· == '(') = names.toList :=
    Text.dropWhile_eq_self fun c hc => hnot (h.front c hc) _ (by decide)
  have hclose : Text.dropEndWhile (· == ')') names.toList = names.toList :=
    Text.dropEndWhile_eq_self fun c hc => hnot (h.back c hc) _ (by decide)
  have hstar : names.toList ≠ ['*'] := fun heq => by
    have := h.front '*' (by simp [heq])
    revert this
    decide
  have htrim := h.isTrimmed.trimChars
  rw [readMembers]
  simp only [htrim, hopen, hclose, hstar, if_false, String.ofList_toList]

/-- What the member of a line says is read as that member, behind a space too. -/
theorem listed_text {source text : String} {i : Import} (htext : listedFrom source i = some text)
    (h : i.Legible) : IsListed text.toList ∧ ',' ∉ text.toList ∧
      .member source (readAliased text).1 (readAliased text).2 = i ∧
      .member source (readAliased (" " ++ text)).1 (readAliased (" " ++ text)).2 = i := by
  obtain ⟨name, asName, rfl, rfl⟩ := listedFrom_eq_some.1 htext
  obtain ⟨-, hname, has, ha⟩ := h
  obtain ⟨hfirst, hlater⟩ := readAliased_listed hname has ha
  refine ⟨isListed_aliased hname ha, comma_not_mem_aliased (not_mem_of_isListable hname (by decide)) ha, ?_, ?_⟩
  · rw [hfirst]
  · rw [hlater]

theorem isAllBlank_of_isListed {text : String} (h : IsListed text.toList) (lead : String) :
    Text.isAllBlank (lead ++ text) = false := by
  obtain ⟨c, hc⟩ := Option.isSome_iff_exists.1 (List.isSome_head?.2 h.ne_nil)
  refine List.all_eq_false.2 ⟨c, ?_, by simp [isBlank_of_isNameChar (h.front c hc)]⟩
  rw [String.toList_append]
  exact List.mem_append_right _ (List.mem_of_head? hc)

/-- All members but the first stand behind a space. -/
theorem map_readAliased {source : String} {items : List Import}
    (hall : ∀ i ∈ items, (listedFrom source i).isSome = true) (h : ∀ i ∈ items, i.Legible) :
    ((items.filterMap (listedFrom source)).map (" " ++ ·)).map
      (fun item => .member source (readAliased item).1 (readAliased item).2) = items := by
  induction items with
  | nil => rfl
  | cons i items ih =>
    obtain ⟨hi, hall⟩ := List.forall_mem_cons.1 hall
    obtain ⟨hlegible, h⟩ := List.forall_mem_cons.1 h
    obtain ⟨text, htext⟩ := Option.isSome_iff_exists.1 hi
    rw [List.filterMap_cons_some htext, List.map_cons, List.map_cons, ih hall h,
      (listed_text htext hlegible).2.2.2]

/-- Texts that were joined with a comma and a space come out with the space before them. -/
theorem pieces_join {first : String} {rest : List String}
    (h : ∀ text ∈ first :: rest, IsListed text.toList ∧ ',' ∉ text.toList) :
    (Text.splitOn ',' (Text.join ", " (first :: rest))).filter (!Text.isAllBlank ·) =
      first :: rest.map (" " ++ ·) := by
  obtain ⟨hfirst, hrest⟩ := List.forall_mem_cons.1 h
  have hsep : ", " = String.singleton ',' ++ " " := by decide
  have hcomma : ∀ piece ∈ first :: rest.map (" " ++ ·), ',' ∉ piece.toList := by
    refine List.forall_mem_cons.2 ⟨hfirst.2, List.forall_mem_map.2 fun text htext => ?_⟩
    simpa using (hrest text htext).2
  have hkept : ∀ piece ∈ first :: rest.map (" " ++ ·), (!Text.isAllBlank piece) = true := by
    refine List.forall_mem_cons.2 ⟨?_, List.forall_mem_map.2 fun text htext => ?_⟩
    · simpa using isAllBlank_of_isListed hfirst.1 ""
    · simp [isAllBlank_of_isListed (hrest text htext).1 " "]
  rw [hsep, Text.join_append_sep, Text.splitOn_join (List.cons_ne_nil _ _) hcomma,
    List.filter_eq_self.2 hkept]

theorem listed_texts {source : String} {items : List Import} (h : ∀ i ∈ items, i.Legible) :
    ∀ text ∈ items.filterMap (listedFrom source), IsListed text.toList ∧ ',' ∉ text.toList := by
  intro text hmem
  obtain ⟨i, hi, htext⟩ := List.mem_filterMap.1 hmem
  have := listed_text htext (h i hi)
  exact ⟨this.1, this.2.1⟩

/-- The members on a line are read from it. -/
theorem readMembers_join {source : String} {items : List Import} (hne : items ≠ [])
    (hall : ∀ i ∈ items, (listedFrom source i).isSome = true) (h : ∀ i ∈ items, i.Legible) :
    IsListed (Text.join ", " (items.filterMap (listedFrom source))).toList ∧
      readMembers source (Text.join ", " (items.filterMap (listedFrom source))) = items := by
  have htexts := @listed_texts source items h
  obtain ⟨i, rest, rfl⟩ := List.exists_cons_of_ne_nil hne
  obtain ⟨hi, hall⟩ := List.forall_mem_cons.1 hall
  obtain ⟨hlegible, h⟩ := List.forall_mem_cons.1 h
  obtain ⟨text, htext⟩ := Option.isSome_iff_exists.1 hi
  rw [List.filterMap_cons_some htext] at htexts ⊢
  have hlisted := isListed_join ", " (List.cons_ne_nil _ _) fun t ht => (htexts t ht).1
  refine ⟨hlisted, ?_⟩
  rw [readMembers_listed hlisted, pieces_join htexts, List.map_cons, (listed_text htext hlegible).2.2.1,
    map_readAliased hall h]

/-- **The line of a group of legible imports is read as that group.** -/
theorem readLine_group {group : List Import} {line : String} (hgroup : IsGroup group line)
    (h : ∀ i ∈ group, i.Legible) : readLine line = .ok group := by
  cases hgroup with
  | @single i hsingle =>
    have hi := h i List.mem_cons_self
    cases i with
    | module path asName => exact readLine_module hi
    | star source => exact readLine_star hi
    | member source name asName =>
      have := hsingle source
      simp [listedFrom] at this
  | @members source _ hne hall hordered =>
    obtain ⟨i, hi⟩ := List.exists_mem_of_ne_nil _ hne
    obtain ⟨text, htext⟩ := Option.isSome_iff_exists.1 (hall i hi)
    obtain ⟨name, asName, rfl, -⟩ := listedFrom_eq_some.1 htext
    obtain ⟨hlisted, hread⟩ := readMembers_join hne hall h
    rw [readLine_from (h _ hi).1 hlisted.ne_nil hlisted.isTrimmed.back, hread]

/-- An import is read from a line of its own. -/
theorem readLine_render {i : Import} (h : i.Legible) : readLine i.render = .ok [i] :=
  readLine_group (isGroup_render i) fun j hj => by
    obtain rfl := List.mem_singleton.1 hj
    exact h

/-- How a legible import is written says which one it is. -/
theorem eq_of_render {i j : Import} (hi : i.Legible) (hj : j.Legible) (h : i.render = j.render) : i = j := by
  have hread := readLine_render hi
  rw [h, readLine_render hj] at hread
  simpa using hread.symm

/-! ## Blocks that are read -/

theorem mapM_readLine {groups : List (List Import)} {lines : List String}
    (hgroups : List.Forall₂ IsGroup groups lines) (h : ∀ group ∈ groups, ∀ i ∈ group, i.Legible) :
    lines.mapM readLine = .ok groups := by
  induction hgroups with
  | nil => rfl
  | cons hgroup _ ih =>
    obtain ⟨hfirst, hrest⟩ := List.forall_mem_cons.1 h
    rw [List.mapM_cons, readLine_group hgroup hfirst, ih hrest]
    rfl

/-- What the lines of the block of `imports` are to say: `readings` lists, line by line, what each of
them imports. -/
structure SaysAll (imports : List Import) (readings : List (List Import)) : Prop where
  /-- They import what is listed. -/
  mem_iff : ∀ i, i ∈ readings.flatten ↔ i ∈ imports
  /-- A module or a star import is there as often as it is listed. -/
  single : ∀ i, IsSingle i → readings.flatten.count i = imports.count i
  /-- A member is there once. -/
  member : ∀ source name asName, .member source name asName ∈ imports →
    readings.flatten.count (.member source name asName) = 1
  /-- The members of a source share a line. -/
  oneLine : readings.Pairwise fun reading later => ∀ i ∈ reading, ∀ j ∈ later, ∀ source,
    (listedFrom source i).isSome = true → listedFrom source j = none
  /-- Imports that turn on features stand first. -/
  futureFirst : FutureFirst readings.flatten
  /-- They are written on the same lines again. -/
  again : block readings.flatten = block imports

theorem mem_arranged_iff {imports : List Import} (h : ∀ i ∈ imports, i.Legible) (i : Import) :
    i ∈ arranged imports ↔ i ∈ imports := by
  refine ⟨mem_of_mem_arranged, fun hi => ?_⟩
  obtain ⟨j, hj, hrender⟩ := exists_mem_arranged hi
  exact eq_of_render (h j (mem_of_mem_arranged hj)) (h i hi) hrender ▸ hj

theorem saysAll_groups {imports : List Import} (h : ∀ i ∈ imports, i.Legible) :
    SaysAll imports (groups [] (futureFirst imports)) where
  mem_iff := mem_arranged_iff h
  single := fun _ hi => count_arranged_single hi imports
  member := fun source name asName hi => Nat.le_antisymm
    (count_groups_member source name asName [] (futureFirst imports))
    (List.count_pos_iff.2 ((mem_arranged_iff h _).2 hi))
  oneLine := pairwise_groups [] (futureFirst imports)
  futureFirst := futureFirst_groups (futureFirst_spec imports) []
  again := block_arranged imports

/-- **The lines of a block of legible imports are read back, and they say what was to be imported.** -/
theorem block_reads_back {imports : List Import} (h : ∀ i ∈ imports, i.Legible) :
    ∃ readings, (block imports).mapM readLine = .ok readings ∧ SaysAll imports readings :=
  ⟨_, mapM_readLine (isGroup_block imports) fun group hgroup i hi =>
    h i (mem_of_mem_arranged (List.mem_flatten.2 ⟨group, hgroup, hi⟩)), saysAll_groups h⟩

theorem block_reads_back_interleaved :
    (∀ i ∈ [Import.member ".b" "y" (some "z"), .module "os.path" none, .star "b", .member ".b" "x" none,
        .member "__future__" "annotations" none, .module "os.path" none, .member ".b" "x" none],
      i.Legible) ∧
    ∃ readings, (block [.member ".b" "y" (some "z"), .module "os.path" none, .star "b",
        .member ".b" "x" none, .member "__future__" "annotations" none, .module "os.path" none,
        .member ".b" "x" none]).mapM readLine = .ok readings ∧
      SaysAll [.member ".b" "y" (some "z"), .module "os.path" none, .star "b", .member ".b" "x" none,
        .member "__future__" "annotations" none, .module "os.path" none, .member ".b" "x" none] readings :=
  ⟨by decide, block_reads_back (by decide)⟩

end TypedStubs.Import
