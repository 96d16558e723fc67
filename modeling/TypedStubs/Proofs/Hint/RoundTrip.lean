import TypedStubs.Proofs.Hint.Grammar
import TypedStubs.Proofs.Hint.Token
import TypedStubs.Proofs.Text.Pieces

/-! # Hints that are written and read again

A string may say a union where a member of a union is asked for, so a hint that was read may have a
union directly in a union.  Its written form does not tell: read again it gives the members in place
(`Hint.flat`), and any other hint gives itself (`parse_render_eq_flat`).

The proof goes along the grammar.  What a phrase says has a written form of tokens that are read again,
and from these the grammar derives the flat hint (`Derives.prints`).
-/
namespace TypedStubs.Hint

/-! ### Flat hints -/

mutual
/-- A hint in which every union that is directly a member of a union gave way to its members. -/
def flat : Hint → Hint
  | .name path => .name path
  | .subscript head args => .subscript head (flatAll args)
  | .list items => .list (flatAll items)
  | .union members => .union (flatMembers members)
  | .literal text => .literal text

/-- Hints made flat, one for one. -/
def flatAll : List Hint → List Hint
  | [] => []
  | h :: hs => flat h :: flatAll hs

/-- Members of a union made flat, each union among them replaced by its members. -/
def flatMembers : List Hint → List Hint
  | [] => []
  | h :: hs => (flat h).members ++ flatMembers hs
end

/-- Whether a hint is a union. -/
def isUnion : Hint → Bool
  | .union _ => true
  | _ => false

mutual
/-- Whether no union in a hint is directly a member of a union. -/
def isFlat : Hint → Bool
  | .name _ | .literal _ => true
  | .subscript _ args => areFlat args
  | .list items => areFlat items
  | .union members => areFlat members && !members.any isUnion

/-- Whether hints are flat. -/
def areFlat : List Hint → Bool
  | [] => true
  | h :: hs => isFlat h && areFlat hs
end

theorem members_of_not_isUnion {h : Hint} (hunion : h.isUnion = false) : h.members = [h] := by
  cases h <;> first | rfl | cases hunion

mutual
theorem flat_of_isFlat : ∀ {h : Hint}, h.isFlat = true → h.flat = h
  | .name _, _ | .literal _, _ => rfl
  | .subscript head args, hflat => congrArg (subscript head) (flatAll_of_areFlat hflat)
  | .list items, hflat => congrArg list (flatAll_of_areFlat hflat)
  | .union members, hflat => by
    obtain ⟨hmembers, hany⟩ := Bool.and_eq_true_iff.1 hflat
    exact congrArg union (flatMembers_of_areFlat hmembers (by simpa using hany))

theorem flatAll_of_areFlat : ∀ {hs : List Hint}, areFlat hs = true → flatAll hs = hs
  | [], _ => rfl
  | h :: hs, hflat => by
    obtain ⟨hh, hhs⟩ := Bool.and_eq_true_iff.1 hflat
    rw [flatAll, flat_of_isFlat hh, flatAll_of_areFlat hhs]

theorem flatMembers_of_areFlat : ∀ {hs : List Hint}, areFlat hs = true →
    (∀ h ∈ hs, h.isUnion = false) → flatMembers hs = hs
  | [], _, _ => rfl
  | h :: hs, hflat, hunion => by
    obtain ⟨hh, hhs⟩ := Bool.and_eq_true_iff.1 hflat
    obtain ⟨hfirst, hrest⟩ := List.forall_mem_cons.1 hunion
    rw [flatMembers, flat_of_isFlat hh, members_of_not_isUnion hfirst, flatMembers_of_areFlat hhs hrest]
    rfl
end

/-- The written form of a hint is that of its members with bars between them. -/
theorem join_members (h : Hint) : Text.join " | " (renderAll h.members) = h.render := by
  cases h <;> simp [members, renderAll, render, Text.join]

/-! ### Written forms -/

/-- Whether a hint is what its members make. -/
def IsWhole (h : Hint) : Prop := ∃ first more, h.members = first :: more ∧ ofMembers first more = h

theorem isWhole_of_not_isUnion {h : Hint} (hunion : h.isUnion = false) : h.IsWhole :=
  ⟨h, [], members_of_not_isUnion hunion, rfl⟩

/-- Whether a text is the written form of members of a union, and its tokens derive them. -/
structure PrintsMembers (values : Bool) (text : String) (hs : List Hint) : Prop where
  /-- Its tokens derive them. -/
  derived : ∃ ts, Scans text.toList ts ∧ Derives .members values ts hs
  /-- It is their written form. -/
  join : Text.join " | " (renderAll hs) = text

/-- Whether the written form of a hint is that of the flat hint, and its tokens derive this one. -/
structure Prints (values : Bool) (h : Hint) : Prop where
  /-- The flat hint is what its members make. -/
  whole : h.flat.IsWhole
  /-- The tokens derive these. -/
  members : PrintsMembers values h.render h.flat.members

/-- Whether what a phrase says is written so that it is read again, but flat. -/
def Phrase.Prints (values : Bool) (hs : List Hint) : Phrase → Prop
  | .primary | .union => ∃ h, hs = [h] ∧ Hint.Prints values h
  | .members => hs ≠ [] ∧ (∀ h ∈ hs, h.flat.IsWhole) ∧
      PrintsMembers values (Text.join " | " (renderAll hs)) (flatMembers hs)
  | .args => renderAll (flatAll hs) = renderAll hs ∧
      ∃ ts, Scans (Text.join ", " (renderAll hs)).toList ts ∧ Derives .args values ts (flatAll hs)

variable {values : Bool} {h : Hint} {hs ks : List Hint} {ts us : List Token}

theorem Prints.render_flat (hprints : Prints values h) : h.flat.render = h.render := by
  rw [← join_members, hprints.members.join]

/-- The tokens of what is written derive the flat hint. -/
theorem Prints.derives (hprints : Prints values h) :
    ∃ ts, Scans h.render.toList ts ∧ Derives .union values ts [h.flat] := by
  obtain ⟨first, more, hmembers, hmake⟩ := hprints.whole
  obtain ⟨ts, hscans, hderives⟩ := hprints.members.derived
  exact ⟨ts, hscans, hmake ▸ .union (hmembers ▸ hderives)⟩

/-- What is no union is written as it is derived. -/
theorem prints_of_primary (hunion : h.flat.isUnion = false) (hrender : h.flat.render = h.render)
    (hscans : Scans h.render.toList ts) (hderives : Derives .primary values ts [h.flat]) :
    Prints values h := by
  refine ⟨isWhole_of_not_isUnion hunion, ?_⟩
  rw [members_of_not_isUnion hunion]
  exact ⟨⟨ts, hscans, .single hderives⟩, by simpa [Text.join, renderAll] using hrender⟩

theorem prints_of_token {token : Token} (hscans : Scans token.spelling [token])
    (htext : token.spelling = h.render.toList) (hderives : Derives .primary values [token] [h])
    (hflat : h.flat = h) (hunion : h.isUnion = false) : Prints values h :=
  prints_of_primary (hflat.symm ▸ hunion) (congrArg render hflat) (htext ▸ hscans)
    (hflat.symm ▸ hderives)

theorem Scans.bracketed {w : List Char} (h : Scans w ts) :
    Scans ('[' :: (w ++ [']'])) (.opening :: (ts ++ [.closing])) :=
  (h.append scans_nil.closing fun r _ => endsToken_cons (by decide) r).opening

theorem prints_subscript {head : String} (hscans : Scans (Token.name head).spelling [.name head])
    (hargs : Phrase.Prints (takesValues head) hs .args) : Prints values (.subscript head hs) := by
  obtain ⟨hrender, ts, hts, hderives⟩ := hargs
  have hall := hscans.append hts.bracketed fun r _ => endsToken_cons (by decide) _
  have htext : Scans (Hint.subscript head hs).render.toList
      (.name head :: .opening :: (ts ++ [.closing])) := by
    simpa [render, Token.spelling] using hall
  exact prints_of_primary rfl (by simp [flat, render, hrender]) htext (.subscript hderives)

theorem prints_list (hitems : Phrase.Prints values hs .args) : Prints values (.list hs) := by
  obtain ⟨hrender, ts, hts, hderives⟩ := hitems
  have htext : Scans (Hint.list hs).render.toList (.opening :: (ts ++ [.closing])) := by
    simpa [render] using hts.bracketed
  exact prints_of_primary rfl (by simp [flat, render, hrender]) htext (.list hderives)

/-! ### Members -/

theorem Derives.ne_nil_of_members (hderives : Derives .members values ts hs) : hs ≠ [] := by
  cases hderives <;> simp

theorem Derives.members_append (hts : Derives .members values ts hs)
    (hus : Derives .members values us ks) : Derives .members values (ts ++ .bar :: us) (hs ++ ks) := by
  generalize hphrase : Phrase.members = phrase at hts
  induction hts with
  | single hmember => exact .bar hmember hus
  | bar hmember _ _ ihmore =>
    rw [List.append_assoc, List.cons_append, List.cons_append]
    exact .bar hmember (ihmore hus hphrase)
  | _ => cases hphrase

theorem renderAll_append (hs ks : List Hint) : renderAll (hs ++ ks) = renderAll hs ++ renderAll ks := by
  simp [renderAll_eq_map]

theorem renderAll_ne_nil (hne : hs ≠ []) : renderAll hs ≠ [] := by
  simpa [renderAll_eq_map] using hne

theorem PrintsMembers.append {text text' : String} (h : PrintsMembers values text hs)
    (h' : PrintsMembers values text' ks) :
    PrintsMembers values (text ++ " | " ++ text') (hs ++ ks) := by
  obtain ⟨ts, hts, hderives⟩ := h.derived
  obtain ⟨us, hus, hmore⟩ := h'.derived
  refine ⟨⟨ts ++ .bar :: us, ?_, hderives.members_append hmore⟩, ?_⟩
  · simpa using hts.append hus.blank.bar.blank fun r _ => endsToken_cons (by decide) _
  · rw [renderAll_append, Text.join_append _ (renderAll_ne_nil hderives.ne_nil_of_members)
      (renderAll_ne_nil hmore.ne_nil_of_members), h.join, h'.join]

theorem printsMembers_single (hprints : Prints values h) : Phrase.Prints values [h] .members := by
  refine ⟨by simp, by simpa using hprints.whole, ?_⟩
  simpa [flatMembers, renderAll, Text.join] using hprints.members

theorem printsMembers_cons (hprints : Prints values h) (hmore : Phrase.Prints values hs .members) :
    Phrase.Prints values (h :: hs) .members := by
  obtain ⟨hne, hwhole, hmembers⟩ := hmore
  refine ⟨by simp, List.forall_mem_cons.2 ⟨hprints.whole, hwhole⟩, ?_⟩
  have happend := hprints.members.append hmembers
  have hjoin : Text.join " | " (renderAll (h :: hs)) =
      h.render ++ " | " ++ Text.join " | " (renderAll hs) :=
    Text.join_append " | " (List.cons_ne_nil h.render []) (renderAll_ne_nil hne)
  rwa [hjoin]

/-- What several members make is a union of the members that they are flat. -/
theorem isWhole_flat_union (hwhole : ∀ k ∈ h :: hs, k.flat.IsWhole) (hne : hs ≠ []) :
    (flat (.union (h :: hs))).IsWhole := by
  obtain ⟨k, ks, rfl⟩ := List.exists_cons_of_ne_nil hne
  obtain ⟨first, more, hfirst, -⟩ := hwhole h (by simp)
  obtain ⟨second, rest, hsecond, -⟩ := hwhole k (by simp)
  have hmembers : flatMembers (h :: k :: ks) = first :: (more ++ second :: (rest ++ flatMembers ks)) := by
    simp [flatMembers, hfirst, hsecond]
  refine ⟨first, more ++ second :: (rest ++ flatMembers ks), hmembers, ?_⟩
  rw [flat, hmembers]
  cases more <;> rfl

theorem prints_union (hmembers : Phrase.Prints values (h :: hs) .members) :
    Prints values (ofMembers h hs) := by
  obtain ⟨-, hwhole, hprints⟩ := hmembers
  cases hs with
  | nil =>
    refine ⟨hwhole h (by simp), ?_⟩
    simpa [flatMembers, renderAll, Text.join, ofMembers] using hprints
  | cons k ks => exact ⟨isWhole_flat_union hwhole (by simp), hprints⟩

theorem printsArgs_nil : Phrase.Prints values [] .args := ⟨rfl, [], scans_nil, .none⟩

theorem printsArgs_cons (harg : Prints values h) (hmore : Phrase.Prints values hs .args) :
    Phrase.Prints values (h :: hs) .args := by
  obtain ⟨hrender, us, hus, hmore⟩ := hmore
  obtain ⟨ts, hts, hderives⟩ := harg.derives
  refine ⟨by rw [flatAll, renderAll, renderAll, harg.render_flat, hrender], ?_⟩
  cases hs with
  | nil => exact ⟨ts, by simpa [renderAll, Text.join] using hts, .last hderives⟩
  | cons k ks =>
    refine ⟨ts ++ .comma :: us, ?_, .comma hderives hmore⟩
    have hall := hts.append hus.blank.comma fun r _ => endsToken_cons (by decide) _
    rw [renderAll, renderAll, Text.join_cons_cons]
    simpa [renderAll] using hall

/-- **What is derived is written so that it is derived again, but for nested unions.** -/
theorem Derives.prints {phrase : Phrase} (hderives : Derives phrase values ts hs)
    (hscans : ∀ token ∈ ts, Scans token.spelling [token]) : phrase.Prints values hs := by
  induction hderives with
  | name path => exact ⟨_, rfl, prints_of_token (hscans _ (by simp)) rfl (.name path) rfl rfl⟩
  | subscript args ih =>
    exact ⟨_, rfl, prints_subscript (hscans _ (by simp)) (ih fun t ht => hscans t (by simp [ht]))⟩
  | number digits =>
    exact ⟨_, rfl, prints_of_token (hscans _ (by simp)) rfl (.number digits) rfl rfl⟩
  | ellipsis => exact ⟨_, rfl, prints_of_token (hscans _ (by simp)) rfl .ellipsis rfl rfl⟩
  | list items ih => exact ⟨_, rfl, prints_list (ih fun t ht => hscans t (by simp [ht]))⟩
  | value mark inner =>
    exact ⟨_, rfl, prints_of_token (hscans _ (by simp)) rfl (.value mark inner) rfl rfl⟩
  | quoted htokens hsaid ih => exact ih (scans_of_mem_tokensOf htokens)
  | single hmember ih =>
    obtain ⟨_, heq, hprints⟩ := ih hscans
    cases heq
    exact printsMembers_single hprints
  | bar hmember hmore ihmember ihmore =>
    obtain ⟨_, heq, hprints⟩ := ihmember fun t ht => hscans t (by simp [ht])
    cases heq
    exact printsMembers_cons hprints (ihmore fun t ht => hscans t (by simp [ht]))
  | union hmembers ih => exact ⟨_, rfl, prints_union (ih hscans)⟩
  | none => exact printsArgs_nil
  | last harg ih =>
    obtain ⟨_, heq, hprints⟩ := ih hscans
    cases heq
    exact printsArgs_cons hprints printsArgs_nil
  | comma harg hmore iharg ihmore =>
    obtain ⟨_, heq, hprints⟩ := iharg fun t ht => hscans t (by simp [ht])
    cases heq
    exact printsArgs_cons hprints (ihmore fun t ht => hscans t (by simp [ht]))

/-- **A hint that was read is read again from its written form.**  It comes back flat, and so as it is if
no union is directly a member of a union; the flat hint has the same written form. -/
theorem parse_render_eq_flat {text : String} (hparse : parse text = .ok h) :
    parse h.render = .ok h.flat ∧ (h.isFlat = true → parse h.render = .ok h) ∧
      h.flat.render = h.render := by
  obtain ⟨ts, htokens, hderives⟩ := parse_eq_ok_iff.1 hparse
  obtain ⟨_, heq, hprints⟩ := hderives.prints (scans_of_mem_tokensOf htokens)
  cases heq
  obtain ⟨us, hscans, hagain⟩ := hprints.derives
  have hread : parse h.render = .ok h.flat := parse_eq_ok_iff.2 ⟨us, hscans.tokenize rfl, hagain⟩
  exact ⟨hread, fun hflat => hread.trans (congrArg Except.ok (flat_of_isFlat hflat)),
    hprints.render_flat⟩

/-- The text `Callable[[...], 'int or str' | None] | Literal['a|b', -1]` has a union in a union, which its
written form does not show. -/
theorem parse_render_nested :
    let inner : List Hint := [.union [.name "int", .name "str"], .name "None"]
    let h : Hint := .union [.subscript "Callable" [.list [.literal "..."], .union inner],
      .subscript "Literal" [.literal "'a|b'", .literal "-1"]]
    parse "Callable[[...], 'int or str' | None] | Literal['a|b', -1]" = .ok h ∧
      parse h.render = .ok h.flat ∧
      h.render = "Callable[[...], int | str | None] | Literal['a|b', -1]" := by
  intro inner h
  have hparse : parse "Callable[[...], 'int or str' | None] | Literal['a|b', -1]" = .ok h := by decide +kernel
  exact ⟨hparse, (parse_render_eq_flat hparse).1, by decide +kernel⟩

end TypedStubs.Hint
