import TypedStubs.Hint.Token
import TypedStubs.Proofs.Syntax.Path

/-! # Tokens that are written again

A token that was read off a text is read again where its own characters stand before a separator
(`scans_of_next`).  `Scans` is what holds of characters that are put together from such tokens and
separators.
-/
namespace TypedStubs.Hint

open Syntax (ne_of_startsWord isDigit_of_startsWord takeWhile_dropWhile_append)

variable {text : String} {c mark : Char} {cs u r w : List Char} {ts us : List Token}

/-- The characters that stand around tokens in the written form of a hint. -/
def separators : List Char := [' ', ',', '|', '[', ']']

/-- Whether no token goes on into the characters. -/
def EndsToken (r : List Char) : Prop := ∀ c, r.head? = some c → c ∈ separators

/-- Whether characters make some tokens, whatever follows them that ends a token. -/
def Scans (w : List Char) (ts : List Token) : Prop :=
  ∀ text r, EndsToken r → tokensOf text (w ++ r) = (tokensOf text r).map (ts ++ ·)

theorem endsToken_nil : EndsToken [] := nofun

theorem endsToken_cons (hc : c ∈ separators) (r : List Char) : EndsToken (c :: r) :=
  fun _ h => Option.some.inj h ▸ hc

theorem Scans.append (h : Scans w ts) {w' : List Char} (h' : Scans w' us)
    (hends : ∀ r, EndsToken r → EndsToken (w' ++ r)) : Scans (w ++ w') (ts ++ us) := by
  intro text r hr
  rw [List.append_assoc, h text _ (hends r hr), h' text r hr]
  cases tokensOf text r with
  | error e => rfl
  | ok rest => exact congrArg Except.ok (List.append_assoc ts us rest).symm

/-- What is scanned up to its end. -/
theorem Scans.tokenize (h : Scans w ts) {s : String} (hs : s.toList = w) : tokenize s = .ok ts := by
  have hall := h s [] endsToken_nil
  rw [List.append_nil, tokensOf] at hall
  rw [Hint.tokenize, hs, hall]
  exact congrArg Except.ok (List.append_nil ts)

/-! ### One token -/

theorem tokensOf_next {token : Option Token} {rest : List Char}
    (h : next text c cs = .ok (token, rest)) :
    tokensOf text (c :: cs) = (tokensOf text rest).map (token.toList ++ ·) := by
  rw [tokensOf]
  split
  · next heq =>
    rw [h] at heq
    cases heq
  · next heq =>
    rw [h] at heq
    cases heq
    rfl

theorem scans_nil : Scans [] [] := by
  intro text r _
  rw [List.nil_append]
  cases tokensOf text r <;> rfl

/-- A sign is scanned whatever follows it. -/
theorem Scans.sign {t : Option Token} (hsign : ∀ text r, next text c r = .ok (t, r))
    (h : Scans w ts) : Scans (c :: w) (t.toList ++ ts) := by
  intro text r hr
  rw [List.cons_append, tokensOf_next (hsign text (w ++ r)), h text r hr]
  cases tokensOf text r with
  | error e => rfl
  | ok rest => exact congrArg Except.ok (List.append_assoc ..).symm

theorem Scans.blank (h : Scans w ts) : Scans (' ' :: w) ts :=
  Scans.sign (t := none) (fun _ _ => rfl) h

theorem Scans.opening (h : Scans w ts) : Scans ('[' :: w) (.opening :: ts) :=
  Scans.sign (t := some .opening) (fun _ _ => rfl) h

theorem Scans.closing (h : Scans w ts) : Scans (']' :: w) (.closing :: ts) :=
  Scans.sign (t := some .closing) (fun _ _ => rfl) h

theorem Scans.comma (h : Scans w ts) : Scans (',' :: w) (.comma :: ts) :=
  Scans.sign (t := some .comma) (fun _ _ => rfl) h

theorem Scans.bar (h : Scans w ts) : Scans ('|' :: w) (.bar :: ts) :=
  Scans.sign (t := some .bar) (fun _ _ => rfl) h

theorem scans_token {token : Token}
    (h : ∀ text r, EndsToken r → next text c (u ++ r) = .ok (some token, r)) :
    Scans (c :: u) [token] :=
  fun text r hr => tokensOf_next (h text r hr)

/-! ### Names, numbers and strings -/

theorem nameRun_of_endsToken (hr : EndsToken r) : nameRun r = ([], r) := by
  cases r with
  | nil => rfl
  | cons c r =>
    have hstops : ∀ c ∈ separators, Text.continuesWord c = false ∧ c ≠ '.' :=
      forall_mem_of_all (by decide)
    obtain ⟨hword, hdot⟩ := hstops c (hr c rfl)
    simp [nameRun, hword, hdot]

/-- What goes on with a name does so before any end of a token. -/
theorem nameRun_append (cs : List Char) (hr : EndsToken r) :
    nameRun ((nameRun cs).1 ++ r) = ((nameRun cs).1, r) := by
  fun_induction nameRun cs with
  | case1 => exact nameRun_of_endsToken hr
  | case2 c cs goesOn hgoesOn run ih =>
    rw [List.cons_append, nameRun.eq_def]
    refine (if_pos ?_).trans ?_
    · -- a dot needs the character after it, which starts a word and so goes on with the name as well
      cases hword : Text.continuesWord c with
      | true => rfl
      | false =>
        cases cs with
        | nil => simp [goesOn, hword] at hgoesOn
        | cons d cs =>
          have hdot : c = '.' ∧ Text.startsWord d = true := by simpa [goesOn, hword] using hgoesOn
          have hrun : run.1 = d :: (nameRun cs).1 := by
            simp [run, nameRun, Text.continuesWord_of_startsWord hdot.2]
          simp [hrun, hdot]
    · rw [ih]
  | case3 c cs _ => exact nameRun_of_endsToken hr

theorem scans_word (hblank : Text.isBlank c = false) (hc : Text.startsWord c = true)
    (hu : ∀ r, EndsToken r → nameRun (u ++ r) = (u, r)) :
    Scans (c :: u) [wordToken (String.ofList (c :: u))] := by
  have hne := fun d hd => ne_of_startsWord (d := d) hc hd
  refine scans_token fun text r hr => ?_
  have hnumber : startsNumber c (u ++ r) = false := by
    simp [startsNumber, isDigit_of_startsWord hc, hne '-' (by decide)]
  unfold next
  rw [if_neg (by simp [hblank]), if_neg (hne _ (by decide)), if_neg (hne _ (by decide)),
    if_neg (hne _ (by decide)), if_neg (hne _ (by decide)), if_neg (by simp [hne '.' (by decide)]),
    if_neg (by simp [hne '\'' (by decide), hne '"' (by decide)]), if_neg (by simp [hnumber]),
    if_pos hc, hu r hr]

theorem startsNumber_takeWhile (h : startsNumber c cs = true) :
    startsNumber c (cs.takeWhile continuesNumber) = true := by
  cases cs with
  | nil => exact h
  | cons d cs =>
    -- a digit behind the sign goes on with the number
    cases hd : continuesNumber d with
    | true =>
      rw [List.takeWhile_cons_of_pos hd]
      exact h
    | false =>
      have hdigit : d.isDigit = false := by simp_all [continuesNumber, Char.isAlphanum]
      have hc : c.isDigit = true := by simpa [startsNumber, hdigit] using h
      simp [startsNumber, hc]

theorem scans_number (hblank : Text.isBlank c = false) (hstart : startsNumber c u = true)
    (hu : ∀ d ∈ u, continuesNumber d = true) : Scans (c :: u) [.number (String.ofList (c :: u))] := by
  refine scans_token fun text r hr => ?_
  have hhead : c.isDigit = true ∨ c = '-' := by
    simp only [startsNumber, Bool.or_eq_true, Bool.and_eq_true, beq_iff_eq] at hstart
    exact hstart.imp_right And.left
  have hstart : startsNumber c (u ++ r) = true := by
    cases u with
    | nil =>
      have hdigit : c.isDigit = true := by simpa [startsNumber] using hstart
      simp [startsNumber, hdigit]
    | cons d u => exact hstart
  have hne (d : Char) (hd : d.isDigit = false) (hd' : d ≠ '-') : c ≠ d := by
    rintro rfl
    simp [hd, hd'] at hhead
  have hends : ∀ d, r.head? = some d → continuesNumber d = false := by
    have hstops : ∀ d ∈ separators, continuesNumber d = false := forall_mem_of_all (by decide)
    exact fun d hd => hstops d (hr d hd)
  obtain ⟨htake, hdrop⟩ := takeWhile_dropWhile_append hu hends
  unfold next
  rw [if_neg (by simp [hblank]), if_neg (hne _ (by decide) (by decide)),
    if_neg (hne _ (by decide) (by decide)), if_neg (hne _ (by decide) (by decide)),
    if_neg (hne _ (by decide) (by decide)), if_neg (by simp [hne '.' (by decide) (by decide)]),
    if_neg (by simp [hne '\'' (by decide) (by decide), hne '"' (by decide) (by decide)]),
    if_pos hstart, htake, hdrop]

theorem closeQuoted_cons (hne : c ≠ '\\') : closeQuoted mark (c :: cs) =
    if c = mark then some ([], cs)
    else (closeQuoted mark cs).map fun (inner, rest) => (c :: inner, rest) :=
  closeQuoted.eq_4 _ _ _ (fun h => absurd h hne) fun _ _ h => absurd h hne

/-- A string is closed where it was closed, whatever follows. -/
theorem closeQuoted_append (hmark : mark ≠ '\\') {inner rest : List Char}
    (h : closeQuoted mark cs = some (inner, rest)) (r : List Char) :
    closeQuoted mark (inner ++ mark :: r) = some (inner, r) := by
  fun_induction closeQuoted mark cs generalizing inner with
  | case1 => cases h
  | case2 => cases h
  | case3 c cs ih =>
    obtain ⟨⟨more, behind⟩, hmore, heq⟩ := Option.map_eq_some_iff.1 h
    cases heq
    rw [List.cons_append, List.cons_append, closeQuoted, ih hmore]
    rfl
  | case4 cs _ _ =>
    cases h
    rw [List.nil_append, closeQuoted_cons hmark, if_pos rfl]
  | case5 c cs hend hescape hother ih =>
    obtain ⟨⟨more, behind⟩, hmore, heq⟩ := Option.map_eq_some_iff.1 h
    cases heq
    have hne : c ≠ '\\' := by
      intro hback
      cases cs with
      | nil => exact hend hback rfl
      | cons d cs => exact hescape d cs hback rfl
    rw [List.cons_append, closeQuoted_cons hne, if_neg hother, ih hmore]
    rfl

theorem scans_quoted {inner rest : List Char} (hmark : mark = '\'' ∨ mark = '"')
    (h : closeQuoted mark cs = some (inner, rest)) :
    Scans (mark :: (inner ++ [mark])) [.quoted mark (String.ofList inner)] := by
  refine scans_token fun text r hr => ?_
  have hback : mark ≠ '\\' := by rcases hmark with rfl | rfl <;> decide
  have hblank : Text.isBlank mark = false := by rcases hmark with rfl | rfl <;> decide
  have hsigns : mark ≠ '[' ∧ mark ≠ ']' ∧ mark ≠ ',' ∧ mark ≠ '|' ∧ mark ≠ '.' := by
    rcases hmark with rfl | rfl <;> decide
  obtain ⟨hopen, hclose, hcomma, hbar, hdot⟩ := hsigns
  rw [List.append_assoc, List.singleton_append]
  unfold next
  rw [if_neg (by simp [hblank]), if_neg hopen, if_neg hclose, if_neg hcomma, if_neg hbar,
    if_neg (fun h => hdot h.1), if_pos hmark, closeQuoted_append hback h r]

/-- The characters that a token is written with. -/
def Token.spelling : Token → List Char
  | .name path => path.toList
  | .quoted mark inner => (quotedText mark inner).toList
  | .number text => text.toList
  | .ellipsis => ['.', '.', '.']
  | .opening => ['[']
  | .closing => [']']
  | .comma => [',']
  | .bar => ['|']

/-- **A token that was read is read again.** -/
theorem scans_of_next {token : Token} {rest : List Char}
    (h : next text c cs = .ok (some token, rest)) : Scans token.spelling [token] := by
  unfold next at h
  split at h
  · cases h
  next hblank =>
  have hblank : Text.isBlank c = false := Bool.eq_false_iff.2 hblank
  split at h
  · cases h
    exact scans_nil.opening
  split at h
  · cases h
    exact scans_nil.closing
  split at h
  · cases h
    exact scans_nil.comma
  split at h
  · cases h
    exact scans_nil.bar
  split at h
  · cases h
    exact scans_token fun _ _ _ => rfl
  split at h
  · next hmark =>
    split at h
    · next inner rest' hclose =>
      cases h
      have hscans := scans_quoted hmark hclose
      simpa [Token.spelling, Token.quotedText] using hscans
    · cases h
  split at h
  · next hstart =>
    cases h
    rw [Token.spelling, String.toList_ofList]
    exact scans_number hblank (startsNumber_takeWhile hstart) fun _ => List.mem_takeWhile_imp
  split at h
  · next hstart =>
    cases h
    have hscans := scans_word hblank hstart fun r hr => nameRun_append cs hr
    unfold wordToken at hscans ⊢
    split
    · exact scans_nil.bar
    · next hword =>
      rw [if_neg hword] at hscans
      simpa [Token.spelling] using hscans
  · cases h

theorem scans_of_mem_tokensOf (h : tokensOf text cs = .ok ts) :
    ∀ token ∈ ts, Scans token.spelling [token] := by
  fun_induction tokensOf text cs generalizing ts with
  | case1 =>
    cases h
    exact fun t ht => absurd ht List.not_mem_nil
  | case2 => cases h
  | case3 c cs token rest hnext _ ih =>
    cases hrest : tokensOf text rest with
    | error problem =>
      rw [hrest] at h
      cases h
    | ok us =>
      rw [hrest] at h
      cases h
      intro t ht
      rcases List.mem_append.1 ht with ht | ht
      · rw [Option.mem_toList.1 ht] at hnext
        exact scans_of_next hnext
      · exact ih hrest t ht

end TypedStubs.Hint
