import TypedStubs.Proofs.Hint.Grammar
import TypedStubs.Proofs.Syntax.Path
import TypedStubs.Signature.Basic
import TypedStubs.Signature.Default
import TypedStubs.Stub.Merge

/-! # The equals sign of a default

Whether a written parameter has a default is found out by a look for an equals sign outside brackets and
quotation marks (`ParamText.hasDefault`).  The look knows no escapes: a mark inside a string ends it.

A hint that was read closes the brackets that it opens, so the look comes out of its text as it went in,
as long as no string in it holds its own mark (`Hint.Derives.balanced`).  Then the parameter is taken for
what it is, and it is only then that every parameter with this hint is
(`StubParameter.written_default_found`).  With an escaped mark in a string the default is missed, or one
is found where there is none (`StubParameter.escaped_mark_hides_default`).
-/
namespace TypedStubs

open Syntax (ne_of_startsWord ParamKind)

/-! ### The look for an equals sign -/

namespace ParamText

variable {depth depth' : Nat} {mark mark' : Option Char} {c m : Char} {w w' rest : List Char}

/-- Where the look for an equals sign is when it went through some characters: the brackets that are
open, and the quotation mark that is.  It is nowhere if it has found one. -/
def lookThrough (depth : Nat) (mark : Option Char) : List Char → Option (Nat × Option Char)
  | [] => some (depth, mark)
  | c :: rest =>
    match mark with
    | some m => lookThrough depth (if c = m then none else mark) rest
    | none =>
      if c = '\'' ∨ c = '"' then lookThrough depth (some c) rest
      else if c = '(' ∨ c = '[' ∨ c = '\x7b' then lookThrough (depth + 1) none rest
      else if c = ')' ∨ c = ']' ∨ c = '\x7d' then lookThrough (depth - 1) none rest
      else if c = '=' ∧ depth = 0 then none
      else lookThrough depth none rest

theorem lookThrough_append (depth : Nat) (mark : Option Char) (w w' : List Char) :
    lookThrough depth mark (w ++ w') =
      (lookThrough depth mark w).bind fun (depth, mark) => lookThrough depth mark w' := by
  fun_induction lookThrough depth mark w with
  | case1 => rfl
  | _ => simp_all [lookThrough]

theorem lookThrough_append_of (h : lookThrough depth mark w = some (depth', mark')) (w' : List Char) :
    lookThrough depth mark (w ++ w') = lookThrough depth' mark' w' := by
  rw [lookThrough_append, h]
  rfl

/-- A sign is found where the look ends nowhere. -/
theorem equalsOutside_eq (depth : Nat) (mark : Option Char) (w : List Char) :
    equalsOutside depth mark w = (lookThrough depth mark w).isNone := by
  fun_induction lookThrough depth mark w with
  | case1 => rfl
  | _ => simp_all [equalsOutside]

/-- Only quotation marks are open as marks. -/
theorem isMark_of_lookThrough (h : lookThrough depth mark w = some (depth', some m))
    (hmark : ∀ c ∈ mark, c = '\'' ∨ c = '"') : m = '\'' ∨ m = '"' := by
  fun_induction lookThrough depth mark w with
  | case1 =>
    obtain ⟨-, hm⟩ := Prod.mk.inj (Option.some.inj h)
    exact hmark m hm
  | case2 depth c rest m ih => exact ih h fun d hd => hmark d (by grind)
  | case3 depth c rest hc ih => exact ih h fun d hd => Option.some.inj hd ▸ hc
  | case6 => cases h
  | _ => simp_all

/-- Whether the look comes out of some characters as it went in, however many brackets are open. -/
def Balanced (w : List Char) : Prop := ∀ depth, lookThrough depth none w = some (depth, none)

/-- The characters that mean something to the look. -/
def signs : List Char := ['\'', '"', '(', '[', '\x7b', ')', ']', '\x7d', '=']

theorem balanced_nil : Balanced [] := fun _ => rfl

theorem Balanced.append (h : Balanced w) (h' : Balanced w') : Balanced (w ++ w') := by
  intro depth
  exact (lookThrough_append_of (h depth) w').trans (h' depth)

theorem balanced_of_plain (h : ∀ c ∈ w, c ∉ signs) : Balanced w := by
  intro depth
  induction w with
  | nil => rfl
  | cons c w ih =>
    obtain ⟨hc, hw⟩ := List.forall_mem_cons.1 h
    simp only [signs, List.mem_cons, not_or] at hc
    simp [lookThrough, hc, ih hw]

theorem Balanced.bracketed (h : Balanced w) : Balanced ('[' :: (w ++ [']'])) :=
  fun depth => lookThrough_append_of (h (depth + 1)) [']']

/-- A string is left where its mark stands again. -/
theorem lookThrough_marked (hm : m ∉ w) : lookThrough depth (some m) (w ++ [m]) = some (depth, none) := by
  induction w with
  | nil => simp [lookThrough]
  | cons c w ih =>
    have hne : c ≠ m := fun heq => hm (heq ▸ List.mem_cons_self)
    rw [List.cons_append, lookThrough, if_neg hne]
    exact ih fun hmem => hm (List.mem_cons_of_mem c hmem)

theorem balanced_marked (hmark : m = '\'' ∨ m = '"') (hm : m ∉ w) : Balanced (m :: (w ++ [m])) := by
  intro depth
  rw [lookThrough, if_pos hmark]
  exact lookThrough_marked hm

theorem balanced_join {sep : String} (hsep : Balanced sep.toList) {texts : List String}
    (h : ∀ text ∈ texts, Balanced text.toList) : Balanced (Text.join sep texts).toList := by
  induction texts with
  | nil => exact balanced_nil
  | cons first rest ih =>
    obtain ⟨hfirst, hrest⟩ := List.forall_mem_cons.1 h
    cases rest with
    | nil => simpa [Text.join] using hfirst
    | cons second rest =>
      rw [Text.join_cons_cons, String.toList_append, String.toList_append]
      exact (hfirst.append hsep).append (ih hrest)

end ParamText

/-! ### Hints that were read -/

namespace Hint

open ParamText (Balanced signs)

variable {text : String} {c : Char} {cs : List Char} {ts : List Token}

mutual
/-- The literals of a hint, in reading order. -/
def literals : Hint → List String
  | .name _ => []
  | .subscript _ args => literalsAll args
  | .list items => literalsAll items
  | .union members => literalsAll members
  | .literal text => [text]

/-- The literals of several hints, in reading order. -/
def literalsAll : List Hint → List String
  | [] => []
  | h :: hs => literals h ++ literalsAll hs
end

/-- Whether a literal is a string that holds its own quotation mark. -/
def holdsMark (text : String) : Bool :=
  match text.toList with
  | [] => false
  | c :: rest => (c == '\'' || c == '"') && rest.dropLast.contains c

/-- Whether no string in a hint holds its own quotation mark. -/
def KeepsMarks (h : Hint) : Prop := ∀ text ∈ h.literals, holdsMark text = false

instance (h : Hint) : Decidable h.KeepsMarks :=
  inferInstanceAs (Decidable (∀ text ∈ h.literals, holdsMark text = false))

theorem literals_subset_literalsAll {h : Hint} {hs : List Hint} (hmem : h ∈ hs) :
    h.literals ⊆ literalsAll hs := by
  induction hs with
  | nil => cases hmem
  | cons k hs ih =>
    rw [literalsAll]
    rcases List.mem_cons.1 hmem with rfl | hmem
    · exact List.subset_append_left _ _
    · exact List.Subset.trans (ih hmem) (List.subset_append_right _ _)

/-- Whether a token means to the look for an equals sign what it is: a name and a number nothing, and a
string what its quotation mark means. -/
def Token.IsPlain : Token → Prop
  | .name path => ∀ c ∈ path.toList, c ∉ signs
  | .number digits => ∀ c ∈ digits.toList, c ∉ signs
  | .quoted mark _ => mark = '\'' ∨ mark = '"'
  | .ellipsis | .opening | .closing | .comma | .bar => True

theorem not_mem_signs {p : Char → Bool} (h : signs.all (!p ·) = true) (hc : p c = true) : c ∉ signs := by
  intro hmem
  have hnot := List.all_eq_true.1 h c hmem
  simp [hc] at hnot

theorem not_mem_signs_of_nameRun (cs : List Char) : ∀ d ∈ (nameRun cs).1, d ∉ signs := by
  fun_induction nameRun cs with
  | case1 => exact List.forall_mem_nil _
  | case2 c cs goesOn hgoesOn run ih =>
    refine List.forall_mem_cons.2 ⟨?_, ih⟩
    have hc : (Text.continuesWord c || c == '.') = true := by
      simp only [goesOn, Bool.or_eq_true, Bool.and_eq_true] at hgoesOn ⊢
      exact hgoesOn.imp_right And.left
    exact not_mem_signs (p := fun c => Text.continuesWord c || c == '.') (by decide +kernel) hc
  | case3 c cs _ => exact List.forall_mem_nil _

theorem not_mem_signs_of_startsNumber (h : startsNumber c cs = true) : c ∉ signs := by
  have hc : (c.isDigit || c == '-') = true := by
    simp only [startsNumber, Bool.or_eq_true, Bool.and_eq_true] at h ⊢
    exact h.imp_right And.left
  exact not_mem_signs (p := fun c => c.isDigit || c == '-') (by decide) hc

theorem isPlain_of_next {token : Token} {rest : List Char}
    (h : next text c cs = .ok (some token, rest)) : token.IsPlain := by
  unfold next at h
  repeat' split at h
  all_goals cases h
  · trivial
  · trivial
  · trivial
  · trivial
  · trivial
  · exact ‹c = '\'' ∨ c = '"'›
  · next hnumber =>
    rw [Token.IsPlain, String.toList_ofList]
    refine List.forall_mem_cons.2 ⟨not_mem_signs_of_startsNumber hnumber, fun d hd => ?_⟩
    exact not_mem_signs (by decide) (List.mem_takeWhile_imp hd)
  · next hword =>
    unfold wordToken
    split
    · trivial
    · rw [Token.IsPlain, String.toList_ofList]
      exact List.forall_mem_cons.2 ⟨not_mem_signs (by decide) hword, not_mem_signs_of_nameRun cs⟩

theorem isPlain_of_mem_tokensOf (h : tokensOf text cs = .ok ts) : ∀ token ∈ ts, token.IsPlain := by
  fun_induction tokensOf text cs generalizing ts with
  | case1 =>
    cases h
    exact List.forall_mem_nil _
  | case2 => cases h
  | case3 c cs token rest hnext _ ih =>
    cases hrest : tokensOf text rest with
    | error problem =>
      rw [hrest] at h
      cases h
    | ok us =>
      rw [hrest] at h
      cases h
      intro t ht
      rcases List.mem_append.1 ht with ht | ht
      · rw [Option.mem_toList.1 ht] at hnext
        exact isPlain_of_next hnext
      · exact ih hrest t ht

theorem balanced_comma : Balanced ", ".toList := ParamText.balanced_of_plain (forall_mem_of_all (by decide))

theorem balanced_bar : Balanced " | ".toList := ParamText.balanced_of_plain (forall_mem_of_all (by decide))

theorem balanced_renderAll {sep : String} (hsep : Balanced sep.toList) {hs : List Hint}
    (h : ∀ h ∈ hs, h.KeepsMarks → Balanced h.render.toList)
    (hkeeps : ∀ text ∈ literalsAll hs, holdsMark text = false) :
    Balanced (Text.join sep (renderAll hs)).toList := by
  rw [renderAll_eq_map]
  refine ParamText.balanced_join hsep fun text htext => ?_
  obtain ⟨k, hk, rfl⟩ := List.mem_map.1 htext
  exact h k hk fun text ht => hkeeps text (literals_subset_literalsAll hk ht)

theorem balanced_quotedText {mark : Char} {inner : String} (hmark : mark = '\'' ∨ mark = '"')
    (hkeeps : holdsMark (Token.quotedText mark inner) = false) :
    Balanced (Token.quotedText mark inner).toList := by
  have htext : (Token.quotedText mark inner).toList = mark :: (inner.toList ++ [mark]) := by
    simp [Token.quotedText]
  rw [holdsMark, htext] at hkeeps
  rw [htext]
  refine ParamText.balanced_marked hmark fun hmem => ?_
  rcases hmark with rfl | rfl <;> simp [hmem] at hkeeps

/-- **The look comes out of a hint that is read as it went in**, if no string holds its own mark. -/
theorem Derives.balanced {phrase : Phrase} {values : Bool} {hs : List Hint}
    (hderives : Derives phrase values ts hs) (hts : ∀ token ∈ ts, token.IsPlain) :
    ∀ h ∈ hs, h.KeepsMarks → Balanced h.render.toList := by
  induction hderives with
  | name path =>
    rw [List.forall_mem_singleton]
    exact fun _ => ParamText.balanced_of_plain (hts _ List.mem_cons_self)
  | @subscript _ head ts hs args ih =>
    rw [List.forall_mem_singleton]
    intro hkeeps
    have hinside := balanced_renderAll balanced_comma (ih fun t ht => hts t (by simp [ht])) hkeeps
    have hhead : Balanced head.toList := ParamText.balanced_of_plain (hts _ List.mem_cons_self)
    simpa [render] using hhead.append hinside.bracketed
  | number digits =>
    rw [List.forall_mem_singleton]
    exact fun _ => ParamText.balanced_of_plain (hts _ List.mem_cons_self)
  | ellipsis =>
    rw [List.forall_mem_singleton]
    exact fun _ => ParamText.balanced_of_plain (forall_mem_of_all (by decide))
  | list items ih =>
    rw [List.forall_mem_singleton]
    intro hkeeps
    simpa [render] using
      (balanced_renderAll balanced_comma (ih fun t ht => hts t (by simp [ht])) hkeeps).bracketed
  | value mark inner =>
    rw [List.forall_mem_singleton]
    exact fun hkeeps => balanced_quotedText (hts _ List.mem_cons_self) (hkeeps _ List.mem_cons_self)
  | quoted htokens _ ih => exact ih (isPlain_of_mem_tokensOf htokens)
  | single _ ih => exact ih hts
  | bar _ _ ihmember ihmore =>
    obtain ⟨hmember, -⟩ := List.forall_mem_cons.1 (ihmember fun t ht => hts t (by simp [ht]))
    exact List.forall_mem_cons.2 ⟨hmember, ihmore fun t ht => hts t (by simp [ht])⟩
  | @union _ _ h hs _ ih =>
    rw [List.forall_mem_singleton]
    have hall := ih hts
    cases hs with
    | nil => exact hall h List.mem_cons_self
    | cons k ks => exact fun hkeeps => balanced_renderAll balanced_bar hall hkeeps
  | none => exact nofun
  | last _ ih => exact ih hts
  | comma _ _ iharg ihmore =>
    obtain ⟨harg, -⟩ := List.forall_mem_cons.1 (iharg fun t ht => hts t (by simp [ht]))
    exact List.forall_mem_cons.2 ⟨harg, ihmore fun t ht => hts t (by simp [ht])⟩

theorem balanced_of_parse {h : Hint} (hparse : parse text = .ok h) (hkeeps : h.KeepsMarks) :
    Balanced h.render.toList := by
  obtain ⟨ts, htokens, hderives⟩ := parse_eq_ok_iff.1 hparse
  exact hderives.balanced (isPlain_of_mem_tokensOf htokens) h List.mem_cons_self hkeeps

end Hint

/-! ### Parameters that are written -/

namespace StubParameter

open ParamText (lookThrough equalsOutside Balanced signs)

/-- A parameter as it stands in a stub, with a hint. -/
def textWith (p : StubParameter) (hint : Option Hint) : ParamText := ⟨p.name, p.kind, p.renderWith hint⟩

/-- A parameter that can stand in a signature: a marker, or one with a name. -/
inductive IsWellNamed : StubParameter → Prop where
  | ofMarker (kind : ParamKind) (hkind : kind = .positionalOnlyMarker ∨ kind = .keywordOnlyMarker) :
      IsWellNamed (.marker kind)
  | named (p : StubParameter) (hpositional : p.kind ≠ .positionalOnlyMarker)
      (hkeyword : p.kind ≠ .keywordOnlyMarker)
      (hname : ∀ c ∈ p.name.toList, Text.continuesName c = true) : IsWellNamed p

/-- Whether the look finds the default of every parameter that is written with a hint, and finds none
where there is none. -/
def ShowsDefault (hint : Option Hint) : Prop :=
  ∀ p : StubParameter, p.IsWellNamed →
    (∀ default ∈ p.default, ∃ text, default = Signature.stubDefault text) →
      (p.textWith hint).hasDefault = p.default.isSome

variable {p : StubParameter} {hint : Option Hint} {h : Hint}

/-- What stands before the hint of a parameter with a name is nothing to the look. -/
theorem exists_front (hpositional : p.kind ≠ .positionalOnlyMarker)
    (hkeyword : p.kind ≠ .keywordOnlyMarker) (hname : ∀ c ∈ p.name.toList, Text.continuesName c = true) :
    ∃ front, Balanced front.toList ∧ ∀ hint, p.renderWith hint = annotated front hint p.default := by
  have hplain : Balanced p.name.toList := ParamText.balanced_of_plain fun c hc =>
    Hint.not_mem_signs (p := Text.continuesName) (by decide +kernel) (hname c hc)
  have hstars : Balanced "**".toList := ParamText.balanced_of_plain (forall_mem_of_all (by decide))
  have hstar : Balanced "*".toList := ParamText.balanced_of_plain (forall_mem_of_all (by decide))
  cases hkind : p.kind with
  | positional => exact ⟨p.name, hplain, fun _ => by simp [renderWith, hkind]⟩
  | positionalOnlyMarker => exact absurd hkind hpositional
  | keywordOnlyMarker => exact absurd hkind hkeyword
  | varPositional =>
    exact ⟨"*" ++ p.name, String.toList_append ▸ hstar.append hplain, fun _ => by
      simp [renderWith, hkind]⟩
  | varKeyword =>
    exact ⟨"**" ++ p.name, String.toList_append ▸ hstars.append hplain, fun _ => by
      simp [renderWith, hkind]⟩

/-- Where the look comes out of the hint as it went in, it finds the sign of the default and no other. -/
theorem equalsOutside_annotated {front : String} (hfront : Balanced front.toList)
    (hout : ∀ h ∈ hint, lookThrough 0 none h.render.toList = some (0, none)) (default : Option String) :
    equalsOutside 0 none (annotated front hint default).toList = default.isSome := by
  rw [ParamText.equalsOutside_eq]
  cases hint with
  | none => cases default <;> simp [annotated, ParamText.lookThrough_append, hfront 0, lookThrough]
  | some h =>
    cases default <;>
      simp [annotated, ParamText.lookThrough_append, hfront 0, lookThrough, hout h rfl]

theorem showsDefault_of_lookThrough
    (hout : ∀ h ∈ hint, lookThrough 0 none h.render.toList = some (0, none)) : ShowsDefault hint := by
  intro p hp _
  cases hp with
  | ofMarker kind hkind =>
    rcases hkind with rfl | rfl <;>
      simp [textWith, marker, renderWith, ParamText.hasDefault, equalsOutside]
  | named _ hpositional hkeyword hname =>
    obtain ⟨front, hfront, hrender⟩ := exists_front hpositional hkeyword hname
    rw [ParamText.hasDefault, textWith, hrender hint]
    exact equalsOutside_annotated hfront hout p.default

/-- The sign of a default is found only outside brackets and strings. -/
theorem eq_start_of_lookThrough {depth : Nat} {mark : Option Char} (hmark : ∀ c ∈ mark, c = '\'' ∨ c = '"')
    (hfound : lookThrough depth mark " = ...".toList = none) : depth = 0 ∧ mark = none := by
  cases mark with
  | none => simpa [lookThrough] using hfound
  | some m =>
    have hm := hmark m rfl
    rcases hm with rfl | rfl <;> simp [lookThrough] at hfound

/-- If it does not come out so, a parameter shows it: one without a default where the look finds a sign in
the hint, and one with a default where a bracket or a string stays open. -/
theorem lookThrough_of_showsDefault (hshows : ShowsDefault (some h)) :
    lookThrough 0 none h.render.toList = some (0, none) := by
  have hname : ∀ c ∈ "x".toList, Text.continuesName c = true := forall_mem_of_all (by decide +kernel)
  have hx : ∀ default, IsWellNamed ⟨"x", .positional, none, default, false⟩ := fun _ =>
    .named _ nofun nofun hname
  have hfront : Balanced "x: ".toList := ParamText.balanced_of_plain (forall_mem_of_all (by decide))
  have hbare := hshows _ (hx none) nofun
  have hgiven := hshows _ (hx (some "...")) fun _ hd => ⟨"...", (Option.some.inj hd).symm.trans (by decide)⟩
  rw [ParamText.hasDefault, ParamText.equalsOutside_eq] at hbare hgiven
  have hbare : (lookThrough 0 none ("x: ".toList ++ h.render.toList)).isNone = false := by
    simpa [textWith, renderWith, annotated] using hbare
  have hgiven : lookThrough 0 none ("x: ".toList ++ (h.render.toList ++ " = ...".toList)) = none := by
    simpa [textWith, renderWith, annotated] using hgiven
  rw [ParamText.lookThrough_append_of (hfront 0)] at hbare hgiven
  obtain ⟨⟨depth, mark⟩, hend⟩ := Option.isSome_iff_exists.1 (Option.isNone_eq_false_iff.1 hbare)
  rw [ParamText.lookThrough_append_of hend] at hgiven
  have hmark : ∀ c ∈ mark, c = '\'' ∨ c = '"' := by
    rintro c rfl
    exact ParamText.isMark_of_lookThrough hend nofun
  obtain ⟨rfl, rfl⟩ := eq_start_of_lookThrough hmark hgiven
  exact hend

/-- **The default of a parameter is found by its equals sign**, whatever the parameter is, as long as no
string in its hint holds its own quotation mark.  It is found of every parameter with a hint exactly if
the look comes out of the text of the hint as it went in. -/
theorem written_default_found (hread : ∀ h ∈ hint, ∃ text, Hint.parse text = .ok h) :
    ((∀ h ∈ hint, h.KeepsMarks) → ShowsDefault hint) ∧
    (ShowsDefault hint ↔ ∀ h ∈ hint, lookThrough 0 none h.render.toList = some (0, none)) := by
  refine ⟨fun hkeeps => showsDefault_of_lookThrough fun h hh => ?_, fun hshows => ?_,
    showsDefault_of_lookThrough⟩
  · obtain ⟨text, hparse⟩ := hread h hh
    exact Hint.balanced_of_parse hparse (hkeeps h hh) 0
  · rintro h rfl
    exact lookThrough_of_showsDefault hshows

/-- Brackets and equals signs in strings do no harm. -/
theorem written_default_found_choices :
    let h : Hint := .subscript "Dict" [.name "str",
      .subscript "Literal" [.literal "'a=b'", .literal "']'"]]
    (∀ k ∈ some h, ∃ text, Hint.parse text = .ok k) ∧ h.KeepsMarks ∧ ShowsDefault (some h) := by
  intro h
  have hread : ∀ k ∈ some h, ∃ text, Hint.parse text = .ok k := by
    rintro k ⟨⟩
    exact ⟨"Dict[str, Literal['a=b', ']']]", by decide +kernel⟩
  have hkeeps : h.KeepsMarks := by decide +kernel
  refine ⟨hread, hkeeps, (written_default_found hread).1 ?_⟩
  rintro k ⟨⟩
  exact hkeeps

/-- **An escaped mark hides the default behind it**, and makes up one where there is none. -/
theorem escaped_mark_hides_default :
    let h : Hint := .subscript "Literal" [.literal "'it\\'s'"]
    let k : Hint := .subscript "Literal" [.literal "'\\']=\\''"]
    Hint.parse "Literal['it\\'s']" = .ok h ∧ Hint.parse "Literal['\\']=\\'']" = .ok k ∧
      (textWith ⟨"x", .positional, some h, some "1", false⟩ (some h)).hasDefault = false ∧
      (textWith ⟨"x", .positional, some k, none, false⟩ (some k)).hasDefault = true := by
  decide +kernel

end StubParameter
end TypedStubs
