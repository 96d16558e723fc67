import TypedStubs.Proofs.Syntax.Extent
import TypedStubs.Proofs.Syntax.Spelling

/-! # What statements keep can be written again

The head of a definition keeps the texts of its pieces, and so does an assignment to one name: parameters, hints,
values, decorators and arguments.  Each was read off a scanned line up to something that its rule does not go on
with, so each of these texts is read as the same thing wherever it is written (`kept_of_parse`).  Like the
stretches of statements, this goes down into the bodies of classes.
-/
namespace TypedStubs.Syntax

open Rule

variable {α : Type} {depth column : Nat} {ts rest : List Token}

/-! ## Heads and assignments -/

/-- The pieces of the head of a function can be written again. -/
structure FunctionHead.Kept (head : FunctionHead) : Prop where
  /-- Its name is a word. -/
  name : IsLexeme .word head.name.toList
  /-- Its parameters are read again. -/
  params : ∀ p ∈ head.params, Reads EndsArgument 1 param p.text.toList p
  /-- A comma stands between the first two of them. -/
  between : ∀ text ∈ head.between, ∃ a b, text.toList = a ++ ',' :: b ∧ IsGap 1 a ∧ IsGap 1 b
  /-- Nothing stands between fewer. -/
  few : head.params.length < 2 → head.between = none
  /-- What it returns is read again. -/
  returns : ∀ text ∈ head.returns, ∃ e, Reads (EndsAt isStop) 0 hintExpr text.toList e ∧ e.text = text

/-- An argument of a class, or a comment among them, as it was found. -/
def ClassArgument.Kept : ClassArgument → Prop
  | .base e => Reads EndsArgument 1 argument e.text.toList e
  | .comment text => text.toList.head? = some '#'

/-- The pieces of the head of a class can be written again, unless they are comments. -/
structure ClassHead.Kept (head : ClassHead) : Prop where
  /-- Its name is a word. -/
  name : IsLexeme .word head.name.toList
  /-- Its arguments are read again. -/
  arguments : ∀ a ∈ head.arguments, a.Kept

/-- The decorators of a definition can be written again. -/
def KeptDecorators (decorators : List Expr) : Prop :=
  ∀ d ∈ decorators, Reads (EndsAt isStop) 0 (.inner .full) d.text.toList d

/-! ## Rules on a scanned line -/

/-- What is left of a scanned line behind what a rule took. -/
theorem Scanned.behind {d a b : Nat} {r : Rule α} {x : α} (h : Scanned (d + a) ts) (hr : Nets a b r)
    (hread : r.read ts = some (x, rest)) : Scanned (d + b) rest := by
  obtain ⟨taken, rfl, hnet⟩ := hr.read hread
  rw [← hnet.level d]
  exact h.drop

theorem Scanned.behind_zero {r : Rule α} {x : α} (h : Scanned 0 ts) (hr : Nets 0 0 r)
    (hread : r.read ts = some (x, rest)) : Scanned 0 rest := Scanned.behind (d := 0) h hr hread

/-- What is left behind a symbol that is no bracket. -/
theorem Scanned.behind_symbol {t : Token} {s : String} (h : Scanned depth (t :: ts))
    (ht : t.isSymbol s = true) (hs : Nets.IsPlain s) : Scanned depth ts := by
  have := h.tail
  rwa [Nets.depthAfter_symbol ht hs.opening hs.closing] at this

/-- Something that was read between the parentheses of a definition. -/
structure Placed.Kept (r : Rule α) (p : Placed α) : Prop where
  /-- A gap stands before it. -/
  before : IsGap 1 p.before
  /-- A gap stands behind it. -/
  after : IsGap 1 p.after
  /-- It was read up to a comma or the closing parenthesis. -/
  read : ∃ ts rest, Scanned 1 ts ∧ EndsArgument rest ∧ r.read ts = some (p.value, rest)

theorem endsArgument_of_isSymbol {t : Token} {s : String} (h : t.isSymbol s = true) (hs : s ∈ [",", ")"])
    (ts : List Token) : EndsArgument (t :: ts) := by
  simp only [Lexeme.isSymbol, Bool.and_eq_true, beq_iff_eq] at h
  exact ⟨t, ts, rfl, by simp only [isOneOf, h.1, h.2, List.contains_iff_mem.2 hs]; rfl⟩

/-- **Whatever is read between parentheses is read up to a comma or the end, and no bracket is open behind
the closing one.** -/
theorem kept_of_placedUpTo {r : Rule α} (hr : Nets 0 0 r) {items : List (Placed α)} {last : List Char}
    (hscan : Scanned 1 ts) (h : placedUpTo ")" r ts = some ((items, last), rest)) :
    Scanned 0 rest ∧ ∀ p ∈ items, p.Kept r := by
  have hclosing : ∀ {t : Token} {us : List Token}, Scanned 1 (t :: us) → t.isSymbol ")" = true →
      Scanned 0 us := fun hus ht => by
    have := hus.tail
    rwa [Nets.depthAfter_closing ht (by decide)] at this
  have hbehind : ∀ {us : List Token} {a : α} {mid : List Token}, Scanned 1 us → r.read us = some (a, mid) →
      Scanned 1 mid := fun hus hread => Scanned.behind (d := 1) (a := 0) (b := 0) hus hr hread
  fun_induction placedUpTo ")" r ts generalizing items last rest with
  | case2 t us ht =>
    obtain ⟨⟨rfl, rfl⟩, rfl⟩ := by simpa using h
    exact ⟨hclosing hscan ht, by simp⟩
  | case3 t us ht a u mid hread first =>
    rename_i hu
    obtain ⟨⟨rfl, rfl⟩, rfl⟩ := by simpa using h
    have hmid := hbehind hscan hread
    refine ⟨hclosing hmid hu, List.forall_mem_singleton.2 ⟨hscan.isGap, hmid.isGap, _, _, hscan, ?_, hread⟩⟩
    exact endsArgument_of_isSymbol hu (by decide) mid
  | case4 t us ht a u mid hread first =>
    rename_i hu hcomma hle more last' rest' hmore ih
    obtain ⟨⟨rfl, rfl⟩, rfl⟩ := by simpa using h
    have hmid := hbehind hscan hread
    obtain ⟨hrest, hitems⟩ := ih (hmid.behind_symbol hcomma (by decide)) hmore
    refine ⟨hrest, List.forall_mem_cons.2 ⟨⟨hscan.isGap, hmid.isGap, _, _, hscan, ?_, hread⟩, hitems⟩⟩
    exact endsArgument_of_isSymbol hcomma (by decide) mid
  | _ => simp at h

/-! ## Definitions -/

theorem isLexeme_of_anyWord {name : String} (hscan : Scanned depth ts)
    (h : anyWord.read ts = some (name, rest)) : IsLexeme .word name.toList := by
  obtain ⟨t, rfl, hkind, rfl⟩ := read_anyWord_eq_some.1 h
  have := hscan.isLexeme (by simp [Lexeme.isComment, hkind])
  rwa [hkind, ← String.toList_ofList (l := t.chars)] at this

theorem endsAt_of_isSymbol {t : Token} {s : String} (h : t.isSymbol s = true) (hs : s ∈ stopSymbols)
    (ts : List Token) : EndsAt isStop (t :: ts) := by
  intro u hu
  obtain rfl : t = u := by simpa using hu
  simp only [Lexeme.isSymbol, Bool.and_eq_true, beq_iff_eq] at h
  simp [isStop, isOneOf, h.1, h.2, hs]

theorem functionFront_kept {isAsync : Bool} {name : String} (hscan : Scanned 0 ts)
    (h : functionFront.read ts = some ((isAsync, name), rest)) :
    Scanned 1 rest ∧ IsLexeme .word name.toList := by
  obtain ⟨found, mid, hasync, h⟩ := read_bind_eq_some.1 h
  have hscan := hscan.behind_zero (.takeWord "async") hasync
  obtain ⟨_, mid, hdef, h⟩ := read_bind_eq_some.1 h
  have hscan := hscan.behind_zero (.word "def") hdef
  obtain ⟨word, mid, hname, h⟩ := read_bind_eq_some.1 h
  have hafter := hscan.behind_zero .anyWord hname
  obtain ⟨_, mid, hparams, h⟩ := read_bind_eq_some.1 h
  have hafter := hafter.behind_zero typeParams_nets hparams
  obtain ⟨_, mid, hopen, h⟩ := read_bind_eq_some.1 h
  obtain ⟨heq, rfl⟩ := Prod.mk.inj (Option.some.inj h)
  obtain ⟨rfl, rfl⟩ := Prod.mk.inj heq
  have hopened := Scanned.behind (d := 0) (a := 0) (b := 1) hafter (.opening (by decide)) hopen
  exact ⟨hopened, isLexeme_of_anyWord hscan hname⟩

theorem functionEnd_kept {returns : Option String} (hscan : Scanned 0 ts)
    (h : functionEnd.read ts = some (returns, rest)) : Scanned 0 rest ∧
      ∀ text ∈ returns, ∃ e, Reads (EndsAt isStop) 0 hintExpr text.toList e ∧ e.text = text := by
  obtain ⟨found, mid, hreturns, h⟩ := read_bind_eq_some.1 h
  obtain ⟨_, mid', hcolon, h⟩ := read_bind_eq_some.1 h
  obtain ⟨rfl, rfl⟩ := Prod.mk.inj (Option.some.inj h)
  obtain ⟨colon, rfl, ht⟩ := read_symbol_eq_some.1 hcolon
  have hmid := hscan.behind_zero (.maybe (.takeSymbol (by decide)) (.withText hintExpr_nets)) hreturns
  refine ⟨hmid.behind_symbol ht (by decide), ?_⟩
  obtain ⟨arrow, us, harrow, hreturns⟩ := read_bind_eq_some.1 hreturns
  have hus := hscan.behind_zero (.takeSymbol (by decide)) harrow
  cases arrow with
  | false =>
    obtain ⟨rfl, -⟩ := Prod.mk.inj (Option.some.inj hreturns)
    exact fun text htext => by cases htext
  | true =>
    obtain ⟨⟨text, e⟩, mid, hhint, heq⟩ := read_bind_eq_some.1 hreturns
    obtain ⟨rfl, rfl⟩ := Prod.mk.inj (Option.some.inj heq)
    obtain ⟨hread, rfl⟩ := read_withText_eq_some.1 hhint
    rintro text htext
    obtain rfl := Option.some.inj htext
    have hspelled := hintExpr_spelled hread
    refine ⟨e, ?_, hspelled⟩
    rw [← hspelled]
    exact reads_hint hus (endsAt_of_isSymbol ht (by decide) _) hread

/-- **The head of a function is kept.** -/
theorem functionHead_kept {head : FunctionHead} (hscan : Scanned 0 ts)
    (h : functionHead ts = some (head, rest)) : Scanned 0 rest ∧ head.Kept := by
  obtain ⟨⟨⟨isAsync, name⟩, ts₁⟩, hfront, h⟩ := Option.bind_eq_some_iff.1 h
  obtain ⟨⟨⟨params, last⟩, ts₂⟩, hparams, h⟩ := Option.bind_eq_some_iff.1 h
  obtain ⟨⟨returns, ts₃⟩, hend, h⟩ := Option.bind_eq_some_iff.1 h
  obtain ⟨rfl, rfl⟩ := Prod.mk.inj (Option.some.inj h)
  obtain ⟨hscan₁, hname⟩ := functionFront_kept hscan hfront
  obtain ⟨hscan₂, hitems⟩ := kept_of_placedUpTo param_nets hscan₁ hparams
  obtain ⟨hscan₃, hreturns⟩ := functionEnd_kept hscan₂ hend
  refine ⟨hscan₃, hname, ?_, ?_, ?_, hreturns⟩
  · intro q hq
    obtain ⟨p, hp, rfl⟩ := List.mem_map.1 hq
    obtain ⟨us, more, hus, hmore, hread⟩ := (hitems p hp).read
    exact reads_param hus hmore hread
  · intro text htext
    match params, hitems, htext with
    | p :: q :: _, hitems, htext =>
      obtain rfl := Option.some.inj htext
      exact ⟨p.after, q.before, String.toList_ofList, (hitems p (by simp)).after, (hitems q (by simp)).before⟩
  · intro hlength
    match params, hlength with
    | [], _ | [_], _ => rfl

/-- Comments in a gap start with their sign. -/
theorem head_of_mem_commentsIn {gap : List Char} {text : String} (h : text ∈ commentsIn gap) :
    text.toList.head? = some '#' := by
  fun_induction commentsIn gap with
  | case1 => cases h
  | case2 cs ih =>
    rcases List.mem_cons.1 h with rfl | h
    · simp
    · exact ih h
  | case3 c cs hc ih => exact ih h

theorem commentArguments_kept {gap : List Char} {a : ClassArgument} (h : a ∈ commentArguments gap) :
    a.Kept := by
  obtain ⟨text, htext, rfl⟩ := List.mem_map.1 h
  exact head_of_mem_commentsIn htext

theorem classFront_kept {opened : Bool} {name : String} (hscan : Scanned 0 ts)
    (h : classFront.read ts = some ((name, opened), rest)) :
    Scanned opened.toNat rest ∧ IsLexeme .word name.toList := by
  obtain ⟨_, mid, hclass, h⟩ := read_bind_eq_some.1 h
  have hscan := hscan.behind_zero (.word "class") hclass
  obtain ⟨word, mid, hname, h⟩ := read_bind_eq_some.1 h
  have hafter := hscan.behind_zero .anyWord hname
  obtain ⟨_, mid, hparams, h⟩ := read_bind_eq_some.1 h
  have hafter := hafter.behind_zero typeParams_nets hparams
  obtain ⟨found, mid', hopen, h⟩ := read_bind_eq_some.1 h
  obtain ⟨heq, rfl⟩ := Prod.mk.inj (Option.some.inj h)
  obtain ⟨rfl, rfl⟩ := Prod.mk.inj heq
  refine ⟨?_, isLexeme_of_anyWord hscan hname⟩
  cases mid with
  | nil =>
    obtain ⟨rfl, rfl⟩ := Prod.mk.inj (Option.some.inj hopen)
    exact hafter
  | cons t us =>
    rw [read_takeSymbol_cons] at hopen
    obtain ⟨rfl, rfl⟩ := Prod.mk.inj (Option.some.inj hopen)
    cases ht : t.isSymbol "(" with
    | false => simpa using hafter
    | true =>
      have htail := hafter.tail
      rw [Nets.depthAfter_opening ht (by decide)] at htail
      simpa using htail

/-- **The head of a class is kept.** -/
theorem classHead_kept {head : ClassHead} (hscan : Scanned 0 ts)
    (h : classHead ts = some (head, rest)) : Scanned 0 rest ∧ head.Kept := by
  obtain ⟨⟨⟨name, opened⟩, ts₁⟩, hfront, h⟩ := Option.bind_eq_some_iff.1 h
  obtain ⟨⟨⟨arguments, last⟩, ts₂⟩, harguments, h⟩ := Option.bind_eq_some_iff.1 h
  obtain ⟨⟨_, ts₃⟩, hend, h⟩ := Option.bind_eq_some_iff.1 h
  obtain ⟨rfl, rfl⟩ := Prod.mk.inj (Option.some.inj h)
  obtain ⟨hscan₁, hname⟩ := classFront_kept hscan hfront
  obtain ⟨hscan₂, hitems⟩ : Scanned 0 ts₂ ∧ ∀ p ∈ arguments, p.Kept argument := by
    cases opened with
    | true => exact kept_of_placedUpTo argument_nets hscan₁ harguments
    | false =>
      obtain ⟨heq, rfl⟩ := Prod.mk.inj (Option.some.inj harguments)
      obtain ⟨rfl, rfl⟩ := Prod.mk.inj heq
      exact ⟨hscan₁, by simp⟩
  refine ⟨hscan₂.behind_zero (.symbol (by decide)) hend, hname, fun a ha => ?_⟩
  rcases List.mem_append.1 ha with ha | ha
  · obtain ⟨p, hp, ha⟩ := List.mem_flatMap.1 ha
    obtain ⟨us, more, hus, hmore, hread⟩ := (hitems p hp).read
    rcases List.mem_append.1 ha with ha | ha
    · exact commentArguments_kept ha
    rcases List.mem_cons.1 ha with rfl | ha
    · exact reads_argument hus hmore hread
    · exact commentArguments_kept ha
  · exact commentArguments_kept ha

/-- Decorators are kept. -/
theorem takeDecorators_kept {ls rest : List Line} {decorators : List Expr}
    (hscan : ∀ line ∈ ls, Scanned 0 line.tokens) (h : takeDecorators ls = some (decorators, rest)) :
    KeptDecorators decorators := by
  induction ls generalizing decorators with
  | nil => simp [takeDecorators] at h
  | cons line ls ih =>
    obtain ⟨hline, hls⟩ := List.forall_mem_cons.1 hscan
    rw [takeDecorators] at h
    split at h
    · exact ih hls h
    split at h
    · obtain ⟨⟨decorator, tokens⟩, hread, h⟩ := Option.bind_eq_some_iff.1 h
      simp only at h
      split at h
      · next hcomments =>
        obtain ⟨⟨more, last⟩, hmore, heq⟩ := Option.bind_eq_some_iff.1 h
        obtain ⟨rfl, rfl⟩ := Prod.mk.inj (Option.some.inj heq)
        obtain ⟨t, us, hus, ht, hinner⟩ := read_decoratorRule hread
        have hafter : Scanned 0 us := (hus ▸ hline).behind_symbol ht (by decide)
        refine List.forall_mem_cons.2 ⟨reads_expression hafter (fun u hu => ?_) hinner, ih hls hmore⟩
        have hcomment := List.all_eq_true.1 hcomments u (List.mem_of_mem_head? hu)
        simp [isStop, hcomment]
      · cases h
    · obtain ⟨rfl, -⟩ := Prod.mk.inj (Option.some.inj h)
      simp [KeptDecorators]

/-! ## How statements with bodies start -/

/-- The characters of a word at the start of a text. -/
def firstWord (cs : List Char) : String := String.ofList (cs.takeWhile Text.continuesName)

/-- The words that statements with bodies and their clauses start with. -/
def headWords : List String := blockWords ++ clauseWords ++ ["match", "async"]

/-- A word goes as far as it can. -/
theorem rest_of_word {c : Char} {cs rest : List Char} (h : lexemeOrComment c cs = some (.word, rest)) :
    Text.startsWord c = true ∧ rest = cs.dropWhile Text.continuesName := by
  have hc : c ≠ '#' := fun hc => by
    have := (lexemeOrComment_comment h).2 hc
    cases this
  rw [lexemeOrComment, if_neg hc] at h
  have hscan := scannedAs_of_lexeme h
  generalize hkind : TokenKind.word = kind at hscan
  cases hscan with
  | word hstart => exact ⟨hstart, rfl⟩
  | number => split at hkind <;> cases hkind
  | string | symbol => cases hkind

/-- The first token of a line that starts with a word is its first word. -/
theorem firstWord_of_scanned {t u : Token} {x more : List Char} (hscan : Scanned depth (t :: u :: ts))
    (hword : t.kind = .word) (hfront : t.chars <+: x) (hx : x <+: spanChars (t :: u :: ts) ++ more) :
    firstWord x = t.text := by
  obtain ⟨source, line, hline, left, hts⟩ := hscan
  obtain ⟨c, v, rest, after, hchars, -, -, -, hread, hafter, rfl⟩ := lineTokens_cons hline hts.symm
  have hnext : after.tokens = u :: (ts ++ left) := by simpa [LineRest.behind] using hts.symm
  obtain ⟨d, w, rest', -, hchars', -, hrest, -⟩ := lineTokens_cons hafter hnext
  rw [hword] at hread
  obtain ⟨hstart, hdrop⟩ := rest_of_word hread
  have hsplit := List.takeWhile_append_dropWhile (l := v ++ rest) (p := Text.continuesName)
  rw [← hdrop] at hsplit
  have hv : ∀ e ∈ v, Text.continuesName e = true := by
    rw [← List.append_cancel_right hsplit]
    exact List.all_eq_true.1 List.all_takeWhile
  obtain ⟨y, rfl⟩ := hfront
  rw [spanChars_cons, List.append_assoc] at hx
  have hy : y <+: written (u :: ts) ++ more := (List.prefix_append_right_inj _).1 hx
  -- what follows the word is the start of what stood behind it
  have hend : ∀ e, y.head? = some e → Text.continuesName e = false := by
    intro e he
    obtain ⟨z, hz⟩ := hy
    have hhead : rest.head? = some e := by
      have hwritten : (written (u :: ts) ++ more).head? = some e := by
        rw [← hz, List.head?_append, he]
        rfl
      rw [written_cons, hchars', List.append_assoc, List.append_assoc, List.cons_append] at hwritten
      rw [hrest, ← hwritten]
      cases u.before <;> rfl
    rw [hdrop] at hhead
    have := List.head?_dropWhile_not Text.continuesName (v ++ rest)
    simpa [hhead] using this
  obtain ⟨htake, -⟩ := takeWhile_dropWhile_append hv hend
  rw [firstWord, hchars, List.cons_append,
    List.takeWhile_cons_of_pos (continuesName_of_startsWord hstart), htake, Lexeme.text, hchars]

/-- Where a statement with bodies stands, if anything is there, starts with its first word. -/
theorem firstWord_of_firstTokens {n : Nat} {line : Line} {after : List Line} {t u : Token}
    (hscan : Scanned 0 line.tokens) (hline : line.tokens = t :: u :: ts) (hword : t.kind = .word)
    (hne : firstTokens n (line :: after) ≠ []) : firstWord (firstTokens n (line :: after)) = t.text := by
  have hfront : t.chars <+: firstTokens n (line :: after) := by
    rw [firstTokens, hline] at hne ⊢
    split
    · cases n with
      | zero => simp [spanChars] at hne
      | succ n => simp [spanChars_cons]
    · simp [spanChars_cons]
  have hstands := isPrefix_firstTokens n line after
  rw [hline] at hscan hstands
  exact firstWord_of_scanned hscan hword hfront hstands

/-! ## Statements -/

/-- Whatever a stub keeps of a statement can be written again. -/
inductive Stmt.Kept : Stmt → Prop where
  /-- A statement without a body, made by tokens outside all brackets. -/
  | simple {ts : List Token} {make : Extent → Stmt} (column : Nat) (hscan : Scanned 0 ts)
      (h : simpleStatement ts = some make) : Kept (make ⟨String.ofList (spanChars ts), column⟩)
  /-- A comment, which ends with its line. -/
  | comment {cs : List Char} (column : Nat) (h : '\n' ∉ cs) :
      Kept (.comment ⟨String.ofList ('#' :: cs), column⟩)
  /-- A statement with bodies, which starts with one of their words. -/
  | compound {place : Extent} {parts : List Stmt}
      (h : place.text.toList ≠ [] → firstWord place.text.toList ∈ headWords) : Kept (.compound place parts)
  /-- A function. -/
  | function {head : FunctionHead} {decorators : List Expr} {body : List Stmt} (hhead : head.Kept)
      (hdecorators : KeptDecorators decorators) : Kept (.function head decorators body)
  /-- A class. -/
  | classDef {head : ClassHead} {decorators : List Expr} {body : List Stmt} (hhead : head.Kept)
      (hdecorators : KeptDecorators decorators) : Kept (.classDef head decorators body)

/-- Statements are kept, and so are those of the bodies of classes among them. -/
def KeptAll (body : List Stmt) : Prop := ∀ s ∈ membersOfAll body, s.Kept

namespace KeptAll

variable {body more : List Stmt}

theorem nil : KeptAll [] := by simp [KeptAll, membersOfAll]

theorem append (h : KeptAll body) (hmore : KeptAll more) : KeptAll (body ++ more) := by
  intro s hs
  rw [membersOfAll_eq, List.flatMap_append, ← membersOfAll_eq, ← membersOfAll_eq] at hs
  exact (List.mem_append.1 hs).elim (h s) (hmore s)

theorem of_forall (h : ∀ s ∈ body, s.members = [s] ∧ s.Kept) : KeptAll body := by
  intro s hs
  rw [membersOfAll_eq] at hs
  obtain ⟨u, hu, hs⟩ := List.mem_flatMap.1 hs
  rw [(h u hu).1] at hs
  obtain rfl := List.mem_singleton.1 hs
  exact (h s hu).2

theorem classDef {head : ClassHead} {decorators : List Expr} (hhead : head.Kept)
    (hdecorators : KeptDecorators decorators) (h : KeptAll body) :
    KeptAll [.classDef head decorators body] := by
  intro s hs
  rw [membersOfAll_eq, List.flatMap_singleton, Stmt.members] at hs
  rcases List.mem_cons.1 hs with rfl | hs
  · exact .classDef hhead hdecorators
  · exact h s hs

end KeptAll

/-! ### Lines of statements -/

variable {body : List Stmt}

/-- A comment ends with its line. -/
theorem comment_chars {t : Token} (hscan : Scanned depth ts) (ht : t ∈ ts) (hc : t.isComment = true) :
    ∃ cs, t.chars = '#' :: cs ∧ '\n' ∉ cs := by
  obtain ⟨front, back, rfl⟩ := List.append_of_mem ht
  obtain ⟨source, line, hline, left, hts⟩ := hscan.drop
  obtain ⟨c, u, rest, more, hchars, -, -, -, hread, -⟩ := lineTokens_cons hline hts.symm
  have hkind : t.kind = .comment := by simpa [Lexeme.isComment] using hc
  obtain rfl := (lexemeOrComment_comment hread).1 hkind
  refine ⟨u, hchars, fun hn => ?_⟩
  rw [lexemeOrComment, if_pos rfl] at hread
  have hdrop : (u ++ rest).dropWhile (· != '\n') = rest := (Prod.mk.inj (Option.some.inj hread)).2
  have hsplit := List.takeWhile_append_dropWhile (l := u ++ rest) (p := (· != '\n'))
  rw [hdrop] at hsplit
  have hall := List.all_eq_true.1 (List.all_takeWhile (l := u ++ rest) (p := (· != '\n')))
  rw [List.append_cancel_right hsplit] at hall
  simpa using hall _ hn

/-- Nothing stands behind a comment. -/
theorem eq_nil_of_comment {t : Token} (hscan : Scanned depth (t :: ts)) (hc : t.isComment = true) :
    ts = [] := by
  obtain ⟨source, line, hline, left, hts⟩ := hscan
  obtain ⟨c, u, rest, more, -, -, -, hgap, hread, hmore, rfl⟩ := lineTokens_cons hline hts.symm
  have hkind : t.kind = .comment := by simpa [Lexeme.isComment] using hc
  obtain rfl := (lexemeOrComment_comment hread).1 hkind
  obtain rfl : depth = 0 := (lineGap_stop hgap).2 (.inr rfl)
  rw [lexemeOrComment, if_pos rfl] at hread
  have hdrop : (u ++ rest).dropWhile (· != '\n') = rest := (Prod.mk.inj (Option.some.inj hread)).2
  rw [Nets.depthAfter_of_kind (by simp [hkind])] at hmore
  have hempty : more.tokens = [] := by
    cases rest with
    | nil =>
      rw [lineTokens_nil] at hmore
      obtain rfl := Option.some.inj hmore
      rfl
    | cons d rest =>
      have hnot := List.head?_dropWhile_not (· != '\n') (u ++ d :: rest)
      rw [hdrop] at hnot
      obtain rfl : d = '\n' := by simpa using hnot
      rw [lineTokens_newline] at hmore
      obtain rfl := Option.some.inj hmore
      rfl
  have : ts ++ left = [] := by simpa [LineRest.behind, hempty] using hts
  exact (List.append_eq_nil_iff.1 this).1

/-- The comment at the end of a line is the last token of it. -/
theorem comments_of_scanned (hscan : Scanned depth ts) :
    ∀ t ∈ ts.dropWhile (!·.isComment), t.isComment = true := by
  rw [← List.takeWhile_append_dropWhile (p := (!·.isComment)) (l := ts)] at hscan
  have hlast := hscan.drop
  have hfirst := List.head?_dropWhile_not (!·.isComment) ts
  cases hdrop : ts.dropWhile (!·.isComment) with
  | nil => simp
  | cons t more =>
    rw [hdrop] at hlast hfirst
    have ht : t.isComment = true := by simpa using hfirst
    obtain rfl := eq_nil_of_comment hlast ht
    simpa using ht

theorem keptAll_comments (column : Token → Nat) {us : List Token} (hscan : Scanned depth ts) (hus : us ⊆ ts)
    (hcomments : ∀ t ∈ us, t.isComment = true) :
    KeptAll (us.map fun t => .comment ⟨t.text, column t⟩) := by
  refine .of_forall fun s hs => ?_
  obtain ⟨t, ht, rfl⟩ := List.mem_map.1 hs
  obtain ⟨cs, hchars, hn⟩ := comment_chars hscan (hus ht) (hcomments t ht)
  refine ⟨Stmt.members_of_place rfl, ?_⟩
  rw [Lexeme.text, hchars]
  exact .comment _ hn

theorem keptAll_statementsBetween (hscan : Scanned 0 ts) (h : statementsBetween column ts = some body) :
    KeptAll body := by
  induction hn : ts.length using Nat.strongRecOn generalizing column ts body with
  | _ n ih =>
    subst hn
    rw [← List.takeWhile_append_dropWhile (p := (!·.isSymbol ";")) (l := ts)] at hscan
    rw [statementsBetween] at h
    obtain ⟨make, hmake, h⟩ := Option.bind_eq_some_iff.1 h
    have hfirst : KeptAll [make ⟨String.ofList (spanChars (ts.takeWhile (!·.isSymbol ";"))), column⟩] :=
      .of_forall (List.forall_mem_singleton.2
        ⟨Stmt.members_of_place (simpleStatement_place hmake _), .simple column hscan.front hmake⟩)
    split at h
    · next semicolon t more hdrop =>
      obtain ⟨rest, hrest, h⟩ := Option.bind_eq_some_iff.1 h
      obtain rfl := Option.some.inj h
      have htail := scanned_behind_semicolon hscan hmake hdrop
      have hlen := (List.dropWhile_sublist (l := ts) (!·.isSymbol ";")).length_le
      rw [hdrop, List.length_cons] at hlen
      exact hfirst.append (ih _ (by omega) htail hrest rfl)
    · obtain rfl := Option.some.inj h
      exact hfirst

theorem keptAll_simpleStatements (hscan : Scanned 0 ts) (h : simpleStatements column ts = some body) :
    KeptAll body := by
  have hcomments := comments_of_scanned hscan
  rw [← List.takeWhile_append_dropWhile (p := (!·.isComment)) (l := ts)] at hscan
  obtain ⟨code, hcode, h⟩ := Option.bind_eq_some_iff.1 h
  obtain rfl := Option.some.inj h
  exact (keptAll_statementsBetween hscan.front hcode).append
    (keptAll_comments _ hscan (List.subset_append_right _ _) hcomments)

/-! ### Blocks -/

/-- A reader gives statements that are kept when no bracket is open at the start of its lines. -/
def Keeping (block : BlockReader) : Prop :=
  ∀ ⦃indent ls b⦄, (∀ line ∈ ls, Scanned 0 line.tokens) → block indent ls = some b → KeptAll b.body

section Blocks

variable {block : BlockReader} {indent : Nat} {line : Line} {after ls : List Line} {b : Block}

theorem keptAll_suite (hblock : Keeping block) (hscan : Scanned 0 ts)
    (hlines : ∀ line ∈ after, Scanned 0 line.tokens) (h : suite block indent column ts after = some b) :
    KeptAll b.body := by
  unfold suite at h
  split at h
  · split at h
    · next l more hdrop =>
      split at h
      · obtain ⟨found, hfound, h⟩ := Option.bind_eq_some_iff.1 h
        obtain rfl := Option.some.inj h
        have hsuffix : l :: more <:+ after := hdrop ▸ List.dropWhile_suffix _
        have hkept : KeptAll found.body := hblock (fun m hm => hlines m (hsuffix.subset hm)) hfound
        exact hkept
      · obtain rfl := Option.some.inj h
        exact .nil
    · obtain rfl := Option.some.inj h
      exact .nil
  · obtain ⟨body, hbody, h⟩ := Option.bind_eq_some_iff.1 h
    obtain rfl := Option.some.inj h
    exact keptAll_simpleStatements hscan hbody

theorem keptAll_definition {decorators : List Expr} (hblock : Keeping block)
    (hlines : ∀ l ∈ line :: after, Scanned 0 l.tokens) (hdecorators : KeptDecorators decorators)
    (h : definition block indent decorators line after = some b) : KeptAll b.body := by
  obtain ⟨hline, hafter⟩ := List.forall_mem_cons.1 hlines
  unfold definition at h
  split at h
  · obtain ⟨⟨head, tokens⟩, hhead, h⟩ := Option.bind_eq_some_iff.1 h
    obtain ⟨defined, hdefined, h⟩ := Option.bind_eq_some_iff.1 h
    obtain rfl := Option.some.inj h
    obtain ⟨inside, hinside, hdefined⟩ := Option.bind_eq_some_iff.1 hdefined
    obtain rfl := Option.some.inj hdefined
    obtain ⟨htokens, hkept⟩ := classHead_kept hline hhead
    exact (keptAll_suite hblock htokens hafter hinside).classDef hkept hdecorators
  · obtain ⟨⟨head, tokens⟩, hhead, h⟩ := Option.bind_eq_some_iff.1 h
    obtain ⟨defined, -, h⟩ := Option.bind_eq_some_iff.1 h
    obtain rfl := Option.some.inj h
    exact .of_forall (List.forall_mem_singleton.2
      ⟨Stmt.members_of_not_class (by simp), .function (functionHead_kept hline hhead).2 hdecorators⟩)

theorem keptAll_compoundOf {parts : Block} {t u : Token} (hscan : Scanned 0 line.tokens)
    (hline : line.tokens = t :: u :: ts) (hword : t.kind = .word) (hhead : t.text ∈ headWords) :
    KeptAll (compoundOf line after parts).body := by
  refine .of_forall (List.forall_mem_singleton.2 ⟨Stmt.members_of_place rfl, .compound fun hne => ?_⟩)
  simp only [String.toList_ofList] at hne ⊢
  rw [firstWord_of_firstTokens hscan hline hword hne]
  exact hhead

/-- Whatever is read up to a colon behind a word has more than one token. -/
theorem exists_second {α : Type} {r : Rule α} {x : α} {t : Token} (h : r.read ts = some (x, rest))
    (hcolon : ∃ u more, rest = u :: more ∧ u.isSymbol ":" = true) (hts : ts.head? = some t)
    (ht : t.kind = .word) : ∃ u more, ts = t :: u :: more := by
  obtain ⟨u, more, rfl, hu⟩ := hcolon
  have hsuffix := Rule.read_consumes r h
  match ts, hts with
  | t' :: v :: more, hts =>
    obtain rfl := Option.some.inj hts
    exact ⟨v, more, rfl⟩
  | [t'], hts =>
    obtain rfl := Option.some.inj hts
    -- the colon would be the word
    have heq : u :: more = [t'] := hsuffix.eq_of_length_le (by simp)
    obtain ⟨rfl, -⟩ := List.cons.inj heq
    simp [Lexeme.isSymbol, ht] at hu

theorem clausesStatement_head {word : String} (h : clausesStatement block indent word line after = some b) :
    ∃ mid u more, (clauseHead word).read line.tokens = some (mid, u :: more) ∧ u.isSymbol ":" = true := by
  obtain ⟨first, hfirst, h⟩ := Option.bind_eq_some_iff.1 h
  obtain ⟨⟨parts, tokens⟩, hhead, hfirst⟩ := Option.bind_eq_some_iff.1 hfirst
  have hbind : (clauseHead word <* symbol ":") =
      clauseHead word >>= fun a => symbol ":" >>= fun _ => Pure.pure a := rfl
  rw [hbind] at hhead
  obtain ⟨found, mid, hhead, hcolon⟩ := read_bind_eq_some.1 hhead
  obtain ⟨_, mid', hcolon, -⟩ := read_bind_eq_some.1 hcolon
  obtain ⟨u, rfl, hu⟩ := read_symbol_eq_some.1 hcolon
  exact ⟨found, u, mid', hhead, hu⟩

/-- The token that the leading word of a line is, or the one before it. -/
theorem head_of_leadingWord {word : String} (h : leadingWord line = some word) (hword : word ∈ headWords) :
    ∃ t, line.tokens.head? = some t ∧ t.kind = .word ∧ t.text ∈ headWords := by
  have hasync : ∀ {t : Token}, t.isWord "async" = true → t.kind = .word ∧ t.text ∈ headWords := by
    intro t ht
    simp only [Lexeme.isWord, Bool.and_eq_true, beq_iff_eq] at ht
    exact ⟨ht.1, ht.2 ▸ by decide⟩
  unfold leadingWord at h
  split at h
  · next first second more htokens =>
    rw [htokens]
    split at h
    · next hfirst => exact ⟨first, rfl, hasync hfirst⟩
    · obtain ⟨hkind, heq⟩ := Option.ite_none_right_eq_some.1 h
      exact ⟨first, rfl, by simpa using hkind, (Option.some.inj heq) ▸ hword⟩
  · next first htokens =>
    rw [htokens]
    obtain ⟨hkind, heq⟩ := Option.ite_none_right_eq_some.1 h
    exact ⟨first, rfl, by simpa using hkind, (Option.some.inj heq) ▸ hword⟩
  · cases h

theorem keptAll_clausesStatement {word : String} (hscan : Scanned 0 line.tokens)
    (hlead : leadingWord line = some word) (hword : word ∈ headWords)
    (h : clausesStatement block indent word line after = some b) : KeptAll b.body := by
  obtain ⟨found, u, more, hhead, hu⟩ := clausesStatement_head h
  obtain ⟨t, ht, hkind, hmem⟩ := head_of_leadingWord hlead hword
  obtain ⟨v, rest, htokens⟩ := exists_second hhead ⟨u, more, rfl, hu⟩ ht hkind
  obtain ⟨first, -, h⟩ := Option.bind_eq_some_iff.1 h
  obtain ⟨all, -, h⟩ := Option.bind_eq_some_iff.1 h
  split at h
  · cases h
  · obtain rfl := Option.some.inj h
    exact keptAll_compoundOf hscan htokens hkind hmem

theorem keptAll_matchStatement (hscan : Scanned 0 line.tokens)
    (h : matchStatement block indent line after = some b) : KeptAll b.body := by
  obtain ⟨⟨subjects, tokens⟩, hhead, h⟩ := Option.bind_eq_some_iff.1 h
  obtain ⟨_, mid, hmatch, hhead⟩ := read_bind_eq_some.1 hhead
  obtain ⟨t, htokens, ht⟩ := read_word_eq_some.1 hmatch
  obtain ⟨⟨found, _⟩, mid', hsubjects, hhead⟩ := read_bind_eq_some.1 hhead
  obtain ⟨_, mid'', hcolon, -⟩ := read_bind_eq_some.1 hhead
  obtain ⟨u, rfl, hu⟩ := read_symbol_eq_some.1 hcolon
  simp only [Lexeme.isWord, Bool.and_eq_true, beq_iff_eq] at ht
  obtain ⟨v, rest, hmid⟩ : ∃ v rest, mid = v :: rest := by
    have hlen := (Rule.read_consumes _ hsubjects).length_le
    exact List.exists_cons_of_length_pos (by rw [List.length_cons] at hlen; omega)
  simp only at h
  split at h
  · split at h
    · split at h
      · obtain ⟨all, -, h⟩ := Option.bind_eq_some_iff.1 h
        obtain rfl := Option.some.inj h
        exact keptAll_compoundOf hscan (hmid ▸ htokens) ht.1 (ht.2 ▸ by decide)
      · cases h
    · cases h
  · cases h

theorem keptAll_statement (hblock : Keeping block) (hlines : ∀ l ∈ line :: after, Scanned 0 l.tokens)
    (h : statement block indent line after = some b) : KeptAll b.body := by
  have hline : Scanned 0 line.tokens := hlines line List.mem_cons_self
  have hsimple : simpleBlock line after = some b → KeptAll b.body := fun h => by
    obtain ⟨body, hbody, h⟩ := Option.bind_eq_some_iff.1 h
    obtain rfl := Option.some.inj h
    exact keptAll_simpleStatements hline hbody
  unfold statement at h
  split at h
  · obtain ⟨⟨decorators, lines⟩, hdecorators, h⟩ := Option.bind_eq_some_iff.1 h
    cases lines with
    | nil => simp at h
    | cons first rest =>
      obtain ⟨defined, hdefined, h⟩ := Option.bind_eq_some_iff.1 h
      obtain rfl := Option.some.inj h
      have hsuffix := (takeDecorators_append (R := []) hdecorators).1
      have hkept : KeptAll defined.body := keptAll_definition hblock (fun l hl => hlines l (hsuffix.subset hl))
        (takeDecorators_kept hlines hdecorators) hdefined
      exact hkept
  split at h
  · next word hlead =>
    split at h
    · exact keptAll_definition hblock hlines (by simp [KeptDecorators]) h
    split at h
    · next hclause =>
      refine keptAll_clausesStatement hline hlead ?_ h
      have hmem : ∀ w ∈ ["if", "for", "while", "try", "with"], w ∈ headWords := by decide
      exact hmem word (List.contains_iff_mem.1 hclause)
    split at h
    · cases hmatch : matchStatement block indent line after with
      | some found =>
        rw [hmatch] at h
        obtain rfl := Option.some.inj h
        exact keptAll_matchStatement hline hmatch
      | none =>
        rw [hmatch] at h
        exact hsimple h
    · exact hsimple h
  · exact hsimple h

theorem keptAll_commentLines {cs : List Line} (hcs : ∀ line ∈ cs, Scanned 0 line.tokens)
    (hcomments : ∀ line ∈ cs, line.isComment = true) : KeptAll (cs.flatMap commentOf) := by
  refine .of_forall fun s hs => ?_
  obtain ⟨line, hline, hs⟩ := List.mem_flatMap.1 hs
  obtain ⟨t, ht, rfl⟩ := List.mem_map.1 hs
  have hc := hcomments line hline
  unfold Line.isComment at hc
  split at hc
  · next first more htokens =>
    have hscan := hcs line hline
    rw [htokens] at hscan ht
    obtain rfl := eq_nil_of_comment hscan hc
    obtain rfl := List.mem_singleton.1 ht
    obtain ⟨chars, hchars, hn⟩ := comment_chars hscan List.mem_cons_self hc
    refine ⟨Stmt.members_of_place rfl, ?_⟩
    rw [Lexeme.text, hchars]
    exact .comment _ hn
  · cases hc

theorem keptAll_readBlock (hlines : ∀ line ∈ ls, Scanned 0 line.tokens)
    (h : readBlock indent ls = some b) : KeptAll b.body := by
  induction hn : ls.length using Nat.strongRecOn generalizing indent ls b with
  | _ n ih =>
    subst hn
    have hinside : Keeping (inside ls.length) := fun i ms b hms hread => by
      simp only [inside, Option.ite_none_right_eq_some] at hread
      exact ih _ hread.1 hms hread.2 rfl
    by_cases hstart : ∃ line after, ls.dropWhile Line.isComment = line :: after ∧ indent ≤ line.indent
    · obtain ⟨line, after, hdrop, hindent⟩ := hstart
      obtain ⟨read, more, hread, hmore, rfl⟩ := (readBlock_eq_some hdrop hindent).1 h
      have hsub : line :: after <:+ ls := hdrop ▸ List.dropWhile_suffix _
      have hlen := length_after_lt hdrop
      have hagree : Agree indent after.length [] (inside ls.length) (inside ls.length) :=
        (agree_readBlock (below_nil indent) _).nested (by simpa using hlen)
      have hrest : read.rest <:+ ls :=
        (statement_within hagree (Nat.le_refl _) hread).1.trans ((List.suffix_cons _ _).trans hsub)
      refine KeptAll.append (keptAll_commentLines (fun l hl => hlines l (List.takeWhile_subset _ hl))
        fun l hl => List.mem_takeWhile_imp hl) (.append ?_ ?_)
      · exact keptAll_statement hinside (fun l hl => hlines l (hsub.subset hl)) hread
      · exact hinside (fun l hl => hlines l (hrest.subset hl)) hmore
    · rw [readBlock_end fun l more hl => Nat.lt_of_not_le fun hle => hstart ⟨l, more, hl, hle⟩] at h
      obtain rfl := Option.some.inj h
      refine keptAll_commentLines (fun l hl => hlines l ((isPrefix_closingComments indent ls).subset hl))
        fun l hl => ?_
      exact List.mem_takeWhile_imp ((List.takeWhile_prefix _).subset hl)

end Blocks

/-- **Whatever a stub keeps of the statements of a source can be written again.** -/
theorem kept_of_parse {source : String} (h : parse? source = some body) : KeptAll body := by
  obtain ⟨lines, hlines, h⟩ := Option.bind_eq_some_iff.1 h
  obtain ⟨read, hread, h⟩ := Option.bind_eq_some_iff.1 h
  split at h
  · obtain rfl := Option.some.inj h
    exact keptAll_readBlock (scanned_of_scanLines hlines) hread
  · cases h

end TypedStubs.Syntax
