import TypedStubs.Syntax.StringLiteral

/-! # A string ends with its own mark

The readers of strings look at nothing behind the closing mark.  So a string literal is read in the
same way whatever stands after it; only an empty string could be taken for the start of a longer mark.

The readers call each other, so what is proved of them is proved of all four together, by induction on
their fuel.  An embedded expression ends in front of the character that stops it, and whether an
exclamation mark does depends on the character behind it; that is why its reader leaves at least one
character whose successor has to stay.
-/
namespace TypedStubs.Syntax

/-- A reader with enough fuel takes `used` off the front and makes `a` of it, whatever follows. -/
def TakesAll {γ : Type} (reader : Nat → List Char → Option (γ × List Char)) (a : γ)
    (used : List Char) : Prop :=
  ∀ n rest, used.length < n → reader n (used ++ rest) = some (a, rest)

/-- More characters in front, when one step takes them. -/
theorem TakesAll.cons {γ : Type} {reader : Nat → List Char → Option (γ × List Char)} {a b : γ}
    {front used : List Char} (h : TakesAll reader a used) (hf : 1 ≤ front.length)
    (hstep : ∀ m rest, reader m (used ++ rest) = some (a, rest) →
      reader (m + 1) (front ++ (used ++ rest)) = some (b, rest)) :
    TakesAll reader b (front ++ used) := by
  intro m rest hm
  rw [List.length_append] at hm
  cases m with
  | zero => omega
  | succ m =>
    rw [List.append_assoc]
    exact hstep m rest (h m rest (by omega))

/-- How many characters close a string. -/
def StringStyle.markLength (style : StringStyle) : Nat := if style.triple then 3 else 1

/-- What is known of the four readers of strings when they have `n` steps. -/
structure StringReaders (n : Nat) : Prop where
  /-- A string is read up to its mark. -/
  string : ∀ {style cs a rest}, readString n style cs = some (a, rest) →
    ∃ used, cs = used ++ rest ∧ style.markLength ≤ used.length ∧
      TakesAll (readString · style) a used
  /-- A field is read up to its closing brace. -/
  field : ∀ {cs a rest}, readField n cs = some (a, rest) →
    ∃ used, cs = used ++ rest ∧ 1 ≤ used.length ∧ TakesAll readField a used
  /-- A format is read up to the closing brace of its field. -/
  format : ∀ {cs a rest}, readFormat n cs = some (a, rest) →
    ∃ used, cs = used ++ rest ∧ 1 ≤ used.length ∧ TakesAll readFormat a used
  /-- An embedded expression is read up to the character that stops it. -/
  embedded : ∀ {depth cs a rest}, readEmbedded n depth cs = some (a, rest) →
    ∃ used stop more, cs = used ++ stop :: more ∧ rest = stop :: more ∧
      ∀ ⦃m⦄ more', (stop = '!' → more'.head? = more.head?) → used.length < m →
        readEmbedded m depth (used ++ stop :: more') = some (a, stop :: more')

theorem markLength_pos (style : StringStyle) : 1 ≤ style.markLength := by
  unfold StringStyle.markLength
  split <;> omega

theorem isPrefixOf_two (c : Char) {x : List Char} (h : 2 ≤ x.length) (y y' : List Char) :
    [c, c].isPrefixOf (x ++ y) = [c, c].isPrefixOf (x ++ y') := by
  match x, h with
  | a :: b :: x, _ => rfl

theorem head?_append {x : List Char} (h : 1 ≤ x.length) (y y' : List Char) :
    (x ++ y).head? = (x ++ y').head? := by
  match x, h with
  | a :: x, _ => rfl

/-- A run up to a character is found again when something else follows that character. -/
theorem dropWhile_takeWhile_append {p : Char → Bool} {cs x y : List Char}
    (h : cs.dropWhile p = x ++ y) (hx : 1 ≤ x.length) (y' : List Char) :
    (cs.takeWhile p ++ (x ++ y')).dropWhile p = x ++ y' := by
  obtain ⟨c, x, rfl⟩ := List.exists_cons_of_length_pos hx
  have hc := List.head?_dropWhile_not p cs
  rw [h] at hc
  have hc : p c = false := by simpa using hc
  rw [List.dropWhile_append_of_pos (List.all_eq_true.1 List.all_takeWhile), List.cons_append,
    List.dropWhile_cons_of_neg (by simp [hc])]

namespace StringReaders

variable {n : Nat}

/-- A backslash in a string keeps the character after it from ending the string. -/
theorem string_escape (ih : StringReaders n) {style : StringStyle} {cs : List Char}
    {a : List (List Char)} {rest : List Char}
    (h : readString (n + 1) style ('\\' :: cs) = some (a, rest)) :
    ∃ used, '\\' :: cs = used ++ rest ∧ style.markLength ≤ used.length ∧
      TakesAll (readString · style) a used := by
  have hpos := markLength_pos style
  cases cs with
  | nil => simp [readString] at h
  | cons d cs =>
    by_cases hline : ∃ tail, d = '\r' ∧ cs = '\n' :: tail
    · obtain ⟨tail, rfl, rfl⟩ := hline
      rw [readString] at h
      obtain ⟨used, rfl, hlen, htake⟩ := ih.string h
      refine ⟨['\\', '\r', '\n'] ++ used, rfl, by simp; omega, htake.cons (by simp) ?_⟩
      intro m rest hm
      rw [← hm]
      exact readString.eq_4 _ _ _
    have hline' : ∀ tail, d = '\r' → cs = '\n' :: tail → False :=
      fun tail hd hcs => hline ⟨tail, hd, hcs⟩
    rw [readString.eq_5 _ _ _ _ hline'] at h
    split at h
    · -- the backslash stands for itself before a brace, which is read again
      next hbrace =>
      obtain ⟨used, hused, hlen, htake⟩ := ih.string h
      refine ⟨['\\'] ++ used, by simp [hused], by simp; omega, htake.cons (by simp) ?_⟩
      intro m rest' hm
      obtain ⟨e, used, rfl⟩ := List.exists_cons_of_length_pos (Nat.le_trans hpos hlen)
      obtain ⟨rfl, rfl⟩ := List.cons.inj hused
      have hd : d ≠ '\r' := by
        rintro rfl
        simp [openBrace, closeBrace] at hbrace
      simp only [List.cons_append, List.nil_append] at hm ⊢
      rw [readString.eq_5 _ _ _ _ fun _ hr _ => hd hr, if_pos hbrace]
      exact hm
    · next hbrace =>
      split at h
      · -- a character that is given by its name in braces
        next hname =>
        obtain ⟨used, hused, hlen, htake⟩ := ih.string h
        refine ⟨['\\', d] ++ cs.takeWhile (· != closeBrace) ++ used, ?_, ?_, ?_⟩
        · rw [List.append_assoc, List.append_assoc, ← hused, List.takeWhile_append_dropWhile]
          rfl
        · simp only [List.length_append]
          omega
        refine htake.cons (by simp) ?_
        intro m rest' hm
        simp only [Bool.and_eq_true, beq_iff_eq] at hname
        obtain ⟨tail, rfl⟩ : ∃ tail, cs = openBrace :: tail := by
          cases cs with
          | nil => simp at hname
          | cons e tail => exact ⟨tail, by simpa using hname.2⟩
        have hopen : openBrace ≠ closeBrace := by decide
        have hdrop := dropWhile_takeWhile_append hused (Nat.le_trans hpos hlen) rest'
        have hd : d ≠ '\r' := by
          rw [hname.1.2]
          decide
        simp only [List.cons_append, List.nil_append]
        rw [readString.eq_5 _ _ _ _ fun _ hr _ => hd hr, if_neg hbrace, if_pos ?_, hdrop]
        · exact hm
        · simp [hname, hopen]
      · next hname =>
        obtain ⟨used, rfl, hlen, htake⟩ := ih.string h
        refine ⟨['\\', d] ++ used, rfl, by simp; omega, htake.cons (by simp) ?_⟩
        intro m rest' hm
        have hhead := head?_append (Nat.le_trans hpos hlen) rest rest'
        have hline'' : ∀ tail, d = '\r' → used ++ rest' = '\n' :: tail → False := by
          intro tail hd hcs
          obtain ⟨e, used, rfl⟩ := List.exists_cons_of_length_pos (Nat.le_trans hpos hlen)
          obtain ⟨rfl, -⟩ := List.cons.inj hcs
          exact hline' _ hd rfl
        rw [hhead] at hname
        simp only [List.cons_append, List.nil_append]
        rw [readString.eq_5 _ _ _ _ hline'', if_neg hbrace, if_neg hname]
        exact hm

/-- In a string, a field in braces and more of the string behind it. -/
theorem string_field (ih : StringReaders n) {style : StringStyle} {cs : List Char}
    {a : List (List Char)} {rest : List Char}
    (h : (do
      let (inner, rest) ← readField n cs
      let (more, rest) ← readString n style rest
      return (inner ++ more, rest)) = some (a, rest)) :
    ∃ used, cs = used ++ rest ∧ style.markLength ≤ used.length ∧
      TakesAll (fun m cs => do
        let (inner, rest) ← readField m cs
        let (more, rest) ← readString m style rest
        return (inner ++ more, rest)) a used := by
  cases hf : readField n cs with
  | none => simp [hf] at h
  | some read =>
    obtain ⟨inner, mid⟩ := read
    cases hs : readString n style mid with
    | none => simp [hf, hs] at h
    | some read =>
      obtain ⟨more, after⟩ := read
      obtain ⟨rfl, rfl⟩ : inner ++ more = a ∧ after = rest := by simpa [hf, hs] using h
      obtain ⟨first, rfl, hfirst, htake⟩ := ih.field hf
      obtain ⟨used, rfl, hlen, htake'⟩ := ih.string hs
      refine ⟨first ++ used, by simp, by simp; omega, ?_⟩
      intro m rest' hm
      rw [List.length_append] at hm
      have hfield := htake m (used ++ rest') (by omega)
      have hstring := htake' m rest' (by omega)
      simp [hfield, hstring]

/-- The second of two braces is taken with the first one. -/
theorem string_doubled (ih : StringReaders n) {style : StringStyle} {brace : Char} {cs : List Char}
    {a : List (List Char)} {rest : List Char} (hhead : cs.head? = some brace)
    (h : readString n style (cs.drop 1) = some (a, rest)) :
    ∃ used, cs = brace :: used ++ rest ∧ style.markLength ≤ used.length ∧
      TakesAll (readString · style) a used := by
  cases cs with
  | nil => simp at hhead
  | cons d cs =>
    obtain rfl : d = brace := by simpa using hhead
    obtain ⟨used, rfl, hlen, htake⟩ := ih.string h
    exact ⟨used, rfl, hlen, htake⟩

/-- A quotation mark in a string. -/
theorem string_mark (ih : StringReaders n) {style : StringStyle} {cs : List Char}
    {a : List (List Char)} {rest : List Char} (hc : style.mark ≠ '\\')
    (h : readString (n + 1) style (style.mark :: cs) = some (a, rest)) :
    ∃ used, style.mark :: cs = used ++ rest ∧ style.markLength ≤ used.length ∧
      TakesAll (readString · style) a used := by
  have hmark : (style.mark == style.mark) = true := by simp
  rw [readString.eq_6 _ _ _ _ hc, if_pos hmark] at h
  split at h
  · next hone =>
    obtain ⟨rfl, rfl⟩ : [] = a ∧ cs = rest := by simpa using h
    have hlen : style.markLength = 1 := by simpa [StringStyle.markLength] using hone
    refine ⟨[style.mark], rfl, by simp [hlen], ?_⟩
    intro m rest' hm
    cases m with
    | zero => simp at hm
    | succ m =>
      show readString (m + 1) style (style.mark :: rest') = _
      rw [readString.eq_6 _ _ _ _ hc, if_pos hmark, if_pos hone]
  · next hthree =>
    have hlen : style.markLength = 3 := by
      simp only [Bool.not_eq_true', Bool.not_eq_false] at hthree
      simp [StringStyle.markLength, hthree]
    split at h
    · next hclose =>
      obtain ⟨rfl, rfl⟩ : [] = a ∧ cs.drop 2 = rest := by simpa using h
      obtain ⟨cs, rfl⟩ : ∃ tail, cs = style.mark :: style.mark :: tail := by
        obtain ⟨tail, rfl⟩ := List.isPrefixOf_iff_prefix.1 hclose
        exact ⟨tail, rfl⟩
      refine ⟨[style.mark, style.mark, style.mark], rfl, by simp [hlen], ?_⟩
      intro m rest' hm
      cases m with
      | zero => simp at hm
      | succ m =>
        simp only [List.cons_append, List.nil_append]
        rw [readString.eq_6 _ _ _ _ hc, if_pos hmark, if_neg hthree, if_pos (by simp)]
        rfl
    · next hclose =>
      obtain ⟨used, rfl, hused, htake⟩ := ih.string h
      refine ⟨[style.mark] ++ used, rfl, by simp; omega, htake.cons (by simp) ?_⟩
      intro m rest' hm
      rw [isPrefixOf_two style.mark (by omega) rest rest'] at hclose
      rw [List.singleton_append, readString.eq_6 _ _ _ _ hc, if_pos hmark, if_neg hthree,
        if_neg hclose]
      exact hm

/-- A character of a string that is neither a backslash nor a quotation mark of its own. -/
theorem string_char (ih : StringReaders n) {style : StringStyle} {c : Char} {cs : List Char}
    {a : List (List Char)} {rest : List Char} (hc : c ≠ '\\') (hmark : ¬ (c == style.mark) = true)
    (h : readString (n + 1) style (c :: cs) = some (a, rest)) :
    ∃ used, c :: cs = used ++ rest ∧ style.markLength ≤ used.length ∧
      TakesAll (readString · style) a used := by
  have hpos := markLength_pos style
  rw [readString.eq_6 _ _ _ _ hc, if_neg hmark] at h
  split at h
  · simp at h
  next hline =>
  split at h
  · next hopen =>
    split at h
    · next hdouble =>
      obtain ⟨used, rfl, hlen, htake⟩ := ih.string_doubled (by simpa using hdouble) h
      refine ⟨[c, openBrace] ++ used, rfl, by simp; omega, htake.cons (by simp) ?_⟩
      intro m rest' hm
      simp only [List.cons_append, List.nil_append]
      rw [readString.eq_6 _ _ _ _ hc, if_neg hmark, if_neg hline, if_pos hopen, if_pos (by simp)]
      exact hm
    · next hdouble =>
      obtain ⟨used, rfl, hlen, htake⟩ := ih.string_field h
      refine ⟨[c] ++ used, rfl, by simp; omega, ?_⟩
      intro m rest' hm
      cases m with
      | zero => simp at hm
      | succ m =>
        rw [head?_append (Nat.le_trans hpos hlen) rest rest'] at hdouble
        show readString (m + 1) style (c :: (used ++ rest')) = _
        rw [readString.eq_6 _ _ _ _ hc, if_neg hmark, if_neg hline, if_pos hopen, if_neg hdouble]
        exact htake m rest' (by simp at hm; omega)
  · next hopen =>
    split at h
    · next hclose =>
      split at h
      · next hdouble =>
        obtain ⟨used, rfl, hlen, htake⟩ := ih.string_doubled (by simpa using hdouble) h
        refine ⟨[c, closeBrace] ++ used, rfl, by simp; omega, htake.cons (by simp) ?_⟩
        intro m rest' hm
        simp only [List.cons_append, List.nil_append]
        rw [readString.eq_6 _ _ _ _ hc, if_neg hmark, if_neg hline, if_neg hopen, if_pos hclose,
          if_pos (by simp)]
        exact hm
      · simp at h
    · next hclose =>
      obtain ⟨used, rfl, hlen, htake⟩ := ih.string h
      refine ⟨[c] ++ used, rfl, by simp; omega, htake.cons (by simp) ?_⟩
      intro m rest' hm
      rw [List.singleton_append, readString.eq_6 _ _ _ _ hc, if_neg hmark, if_neg hline,
        if_neg hopen, if_neg hclose]
      exact hm

/-- The step for strings. -/
theorem string_step (ih : StringReaders n) {style : StringStyle} {cs : List Char}
    {a : List (List Char)} {rest : List Char} (h : readString (n + 1) style cs = some (a, rest)) :
    ∃ used, cs = used ++ rest ∧ style.markLength ≤ used.length ∧
      TakesAll (readString · style) a used := by
  cases cs with
  | nil => simp [readString] at h
  | cons c cs =>
    by_cases hc : c = '\\'
    · subst hc
      exact ih.string_escape h
    · by_cases hmark : (c == style.mark) = true
      · obtain rfl : c = style.mark := by simpa using hmark
        exact ih.string_mark hc h
      · exact ih.string_char hc hmark h

/-- The step for formats. -/
theorem format_step (ih : StringReaders n) {cs : List Char} {a : List (List Char)}
    {rest : List Char} (h : readFormat (n + 1) cs = some (a, rest)) :
    ∃ used, cs = used ++ rest ∧ 1 ≤ used.length ∧ TakesAll readFormat a used := by
  cases cs with
  | nil => simp [readFormat] at h
  | cons c cs =>
    rw [readFormat] at h
    split at h
    · next hclose =>
      obtain ⟨rfl, rfl⟩ : [] = a ∧ cs = rest := by simpa using h
      refine ⟨[c], rfl, by simp, ?_⟩
      intro m rest' hm
      cases m with
      | zero => simp at hm
      | succ m => rw [List.singleton_append, readFormat, if_pos hclose]
    next hclose =>
    split at h
    · next hopen =>
      cases hf : readField n cs with
      | none => simp [hf] at h
      | some read =>
        obtain ⟨inner, mid⟩ := read
        cases hs : readFormat n mid with
        | none => simp [hf, hs] at h
        | some read =>
          obtain ⟨more, after⟩ := read
          obtain ⟨rfl, rfl⟩ : inner ++ more = a ∧ after = rest := by simpa [hf, hs] using h
          obtain ⟨first, rfl, hfirst, htake⟩ := ih.field hf
          obtain ⟨used, rfl, hlen, htake'⟩ := ih.format hs
          refine ⟨[c] ++ first ++ used, by simp, by simp, ?_⟩
          intro m rest' hm
          simp only [List.length_append, List.length_singleton] at hm
          cases m with
          | zero => omega
          | succ m =>
            have hfield := htake m (used ++ rest') (by omega)
            have hformat := htake' m rest' (by omega)
            simp only [List.cons_append, List.nil_append, List.append_assoc]
            rw [readFormat, if_neg hclose, if_pos hopen]
            simp [hfield, hformat]
    · next hopen =>
      obtain ⟨used, rfl, hlen, htake⟩ := ih.format h
      refine ⟨[c] ++ used, rfl, by simp, htake.cons (by simp) ?_⟩
      intro m rest' hm
      rw [List.singleton_append, readFormat, if_neg hclose, if_neg hopen]
      exact hm

/-- The step for what is embedded: a string inside, with more behind it. -/
theorem embedded_string (ih : StringReaders n) {depth : Nat} {c : Char} {cs a rest : List Char}
    (hc : (c == '\'' || c == '"') = true)
    (h : readEmbedded (n + 1) depth (c :: cs) = some (a, rest)) :
    ∃ used stop more, c :: cs = used ++ stop :: more ∧ rest = stop :: more ∧
      ∀ ⦃m⦄ more', (stop = '!' → more'.head? = more.head?) → used.length < m →
        readEmbedded m depth (used ++ stop :: more') = some (a, stop :: more') := by
  rw [readEmbedded, if_pos hc] at h
  generalize htriple : [c, c].isPrefixOf cs = triple at h
  simp only at h
  cases hs : readString n ⟨c, triple, false, false⟩ (if triple then cs.drop 2 else cs) with
  | none => simp [hs] at h
  | some read =>
    obtain ⟨parts, mid⟩ := read
    cases he : readEmbedded n depth mid with
    | none => simp [hs, he] at h
    | some read =>
      obtain ⟨expr, after⟩ := read
      obtain ⟨inside, hinside, hlen, htake⟩ := ih.string hs
      obtain ⟨used, stop, more, rfl, rfl, htake'⟩ := ih.embedded he
      -- the opening mark behind its first character
      obtain ⟨opening, hopening, hcs⟩ : ∃ opening : List Char,
          (∀ y, (if triple then (opening ++ y).drop 2 else opening ++ y) = y) ∧
            cs = opening ++ (inside ++ (used ++ stop :: more)) := by
        cases triple with
        | false => exact ⟨[], fun y => rfl, by simpa using hinside⟩
        | true =>
          obtain ⟨tail, rfl⟩ := List.isPrefixOf_iff_prefix.1 htriple
          exact ⟨[c, c], fun y => rfl, by simpa using hinside⟩
      subst hcs
      obtain ⟨rfl, rfl⟩ : c :: (opening ++ inside) ++ expr = a ∧ stop :: more = rest := by
        have hl : (opening ++ (inside ++ (used ++ stop :: more))).length + 1 -
            (used ++ stop :: more).length = (c :: (opening ++ inside)).length := by
          simp only [List.length_append, List.length_cons]
          omega
        have ht : c :: (opening ++ (inside ++ (used ++ stop :: more))) =
            (c :: (opening ++ inside)) ++ (used ++ stop :: more) := by simp
        simp only [hs, he, Option.bind_eq_bind, Option.bind_some, Option.pure_def,
          Option.some.injEq, Prod.mk.injEq] at h
        rw [hl, ht, List.take_left] at h
        exact h
      refine ⟨c :: (opening ++ inside) ++ used, stop, more, by simp, rfl, ?_⟩
      intro m more' hmore hm
      simp only [List.length_append, List.length_cons] at hm
      have hone := markLength_pos ⟨c, triple, false, false⟩
      have htriple' : [c, c].isPrefixOf (opening ++ (inside ++ (used ++ stop :: more'))) = triple := by
        have hl : 2 ≤ (opening ++ inside ++ used ++ [stop]).length := by
          simp only [List.length_append, List.length_singleton]
          omega
        simpa [htriple] using (isPrefixOf_two c hl more more').symm
      have hstring := htake (m - 1) (used ++ stop :: more') (by omega)
      have hrest := htake' (m := m - 1) more' hmore (by omega)
      have hl : (opening ++ (inside ++ (used ++ stop :: more'))).length + 1 -
          (used ++ stop :: more').length = (c :: (opening ++ inside)).length := by
        simp only [List.length_append, List.length_cons]
        omega
      have ht : c :: (opening ++ (inside ++ (used ++ stop :: more'))) =
          (c :: (opening ++ inside)) ++ (used ++ stop :: more') := by simp
      obtain ⟨m, rfl⟩ : ∃ k, m = k + 1 := ⟨m - 1, by omega⟩
      have hsource : c :: (opening ++ inside) ++ used ++ stop :: more' =
          c :: (opening ++ (inside ++ (used ++ stop :: more'))) := by simp
      rw [hsource, readEmbedded, if_pos hc]
      simp only [htriple', hopening, Nat.add_sub_cancel] at hstring hrest ⊢
      rw [hstring]
      simp only [Option.bind_eq_bind, Option.bind_some, hrest, Option.pure_def]
      rw [hl, ht, List.take_left]

/-- The step for embedded expressions. -/
theorem embedded_step (ih : StringReaders n) {depth : Nat} {cs a rest : List Char}
    (h : readEmbedded (n + 1) depth cs = some (a, rest)) :
    ∃ used stop more, cs = used ++ stop :: more ∧ rest = stop :: more ∧
      ∀ ⦃m⦄ more', (stop = '!' → more'.head? = more.head?) → used.length < m →
        readEmbedded m depth (used ++ stop :: more') = some (a, stop :: more') := by
  cases cs with
  | nil => simp [readEmbedded] at h
  | cons c cs =>
    by_cases hquote : (c == '\'' || c == '"') = true
    · exact ih.embedded_string hquote h
    rw [readEmbedded, if_neg hquote] at h
    split at h
    · next hstop =>
      obtain ⟨rfl, rfl⟩ : [] = a ∧ c :: cs = rest := by simpa using h
      refine ⟨[], c, cs, rfl, rfl, ?_⟩
      intro m more' hmore hm
      cases m with
      | zero => simp at hm
      | succ m =>
        rw [List.nil_append, readEmbedded, if_neg hquote, if_pos]
        by_cases hbang : c = '!'
        · rwa [hmore hbang]
        · simpa [hbang] using hstop
    · next hstop =>
      simp only [Option.bind_eq_bind, Option.bind_eq_some_iff, Option.pure_def,
        Option.some.injEq, Prod.mk.injEq] at h
      obtain ⟨⟨expr, after⟩, he, rfl, rfl⟩ := h
      obtain ⟨used, stop, more, rfl, rfl, htake⟩ := ih.embedded he
      refine ⟨c :: used, stop, more, rfl, rfl, ?_⟩
      intro m more' hmore hm
      cases m with
      | zero => simp at hm
      | succ m =>
        have hhead : (used ++ stop :: more).head? = (used ++ stop :: more').head? := by
          cases used <;> rfl
        rw [hhead] at hstop
        rw [List.cons_append, readEmbedded, if_neg hquote, if_neg hstop]
        simp only [htake more' hmore (by simpa using hm), Option.bind_eq_bind, Option.bind_some,
          Option.pure_def]

/-- A conversion is passed up to what follows it. -/
theorem afterConversion_append {stop stop' : Char} {more more' : List Char}
    (h : afterConversion (stop :: more) = some (stop' :: more')) (hs : stop' ≠ '!') :
    ∃ used, stop :: more = used ++ stop' :: more' ∧ (used = [] ∧ stop ≠ '!' ∨ 2 ≤ used.length) ∧
      ∀ y, afterConversion (used ++ stop' :: y) = some (stop' :: y) := by
  by_cases hbang : ∃ letter tail, stop = '!' ∧ more = letter :: tail
  · obtain ⟨letter, tail, rfl, rfl⟩ := hbang
    simp only [afterConversion, Option.ite_none_right_eq_some, Option.some.injEq] at h
    obtain ⟨hlower, hdrop⟩ := h
    refine ⟨['!', letter] ++ tail.takeWhile fun c => c != ':' && c != closeBrace, ?_, ?_, ?_⟩
    · rw [List.append_assoc, ← hdrop, List.takeWhile_append_dropWhile]
      rfl
    · exact .inr (by simp)
    · intro y
      have hfound := dropWhile_takeWhile_append (x := [stop']) (y := more') hdrop (by simp) y
      simp only [List.cons_append, List.nil_append, afterConversion, if_pos hlower] at hfound ⊢
      rw [hfound]
  · have hplain : ∀ {c : Char} (y : List Char), c ≠ '!' → afterConversion (c :: y) = some (c :: y) :=
      fun y hc => afterConversion.eq_2 _ fun _ _ heq => hc (List.cons.inj heq).1
    have hstop : stop ≠ '!' := by
      rintro rfl
      cases more with
      | nil =>
        obtain ⟨rfl, -⟩ : '!' = stop' ∧ [] = more' := by simpa [afterConversion] using h
        exact hs rfl
      | cons letter tail => exact hbang ⟨letter, tail, rfl, rfl⟩
    obtain ⟨rfl, rfl⟩ : stop = stop' ∧ more = more' := by simpa [hplain more hstop] using h
    exact ⟨[], rfl, .inl ⟨rfl, hstop⟩, fun y => hplain y hstop⟩

/-- The front of a field: its expression and its conversion, up to what follows them. -/
theorem field_front (ih : StringReaders n) {cs expr mid : List Char} {stop : Char} {tail : List Char}
    (he : readEmbedded n 0 cs = some (expr, mid)) (hc : afterConversion mid = some (stop :: tail))
    (hs : stop ≠ '!') :
    ∃ used, cs = used ++ stop :: tail ∧ ∀ m y, used.length < m →
      ∃ mid', readEmbedded m 0 (used ++ stop :: y) = some (expr, mid') ∧
        afterConversion mid' = some (stop :: y) := by
  obtain ⟨used, first, more, rfl, rfl, htake⟩ := ih.embedded he
  obtain ⟨conversion, hsplit, hshape, hagain⟩ := afterConversion_append hc hs
  refine ⟨used ++ conversion, by rw [List.append_assoc, ← hsplit], ?_⟩
  intro m y hm
  rw [List.length_append] at hm
  refine ⟨conversion ++ stop :: y, ?_, hagain y⟩
  rw [List.append_assoc]
  rcases hshape with ⟨rfl, hfirst⟩ | hlen
  · obtain ⟨rfl, rfl⟩ : first = stop ∧ more = tail := by simpa using hsplit
    exact htake y (fun hbang => absurd hbang hfirst) (by omega)
  · match conversion, hlen with
    | e :: d :: conversion, _ =>
      obtain ⟨rfl, rfl⟩ := List.cons.inj hsplit
      exact htake _ (fun _ => rfl) (by omega)

/-- The step for fields. -/
theorem field_step (ih : StringReaders n) {cs : List Char} {a : List (List Char)}
    {rest : List Char} (h : readField (n + 1) cs = some (a, rest)) :
    ∃ used, cs = used ++ rest ∧ 1 ≤ used.length ∧ TakesAll readField a used := by
  rw [readField] at h
  simp only [Option.bind_eq_bind, Option.bind_eq_some_iff] at h
  obtain ⟨⟨expr, mid⟩, he, after, hafter, h⟩ := h
  split at h
  · next tail =>
    simp only [Option.bind_eq_some_iff, Option.pure_def, Option.some.injEq, Prod.mk.injEq] at h
    obtain ⟨⟨inner, rest'⟩, hformat, rfl, rfl⟩ := h
    obtain ⟨front, rfl, hfront⟩ := ih.field_front he hafter (by decide)
    obtain ⟨used, rfl, hlen, htake⟩ := ih.format hformat
    refine ⟨front ++ ':' :: used, by simp, by simp; omega, ?_⟩
    intro m rest hm
    simp only [List.length_append, List.length_cons] at hm
    obtain ⟨m, rfl⟩ : ∃ k, m = k + 1 := ⟨m - 1, by omega⟩
    obtain ⟨mid', he', hafter'⟩ := hfront m (used ++ rest) (by omega)
    rw [List.append_assoc, List.cons_append, readField]
    simp only [he', Option.bind_eq_bind, Option.bind_some, hafter', htake m rest (by omega),
      Option.pure_def]
  · next c tail hcolon =>
    simp only [Option.ite_none_right_eq_some, Option.pure_def, Option.some.injEq,
      Prod.mk.injEq] at h
    obtain ⟨hclose, rfl, rfl⟩ := h
    obtain rfl : c = closeBrace := by simpa using hclose
    obtain ⟨front, rfl, hfront⟩ := ih.field_front he hafter (by decide)
    refine ⟨front ++ [closeBrace], by simp, by simp, ?_⟩
    intro m rest hm
    simp only [List.length_append, List.length_singleton] at hm
    obtain ⟨m, rfl⟩ : ∃ k, m = k + 1 := ⟨m - 1, by omega⟩
    obtain ⟨mid', he', hafter'⟩ := hfront m rest (by omega)
    rw [List.append_assoc, List.singleton_append, readField]
    simp only [he', Option.bind_eq_bind, Option.bind_some, hafter']
    rfl
  · simp at h

end StringReaders

/-- The readers of strings look at nothing behind what they read. -/
theorem stringReaders (n : Nat) : StringReaders n := by
  induction n with
  | zero =>
    constructor
    · intro style cs a rest h; simp [readString] at h
    · intro cs a rest h; simp [readField] at h
    · intro cs a rest h; simp [readFormat] at h
    · intro depth cs a rest h; simp [readEmbedded] at h
  | succ n ih => exact ⟨ih.string_step, ih.field_step, ih.format_step, ih.embedded_step⟩

/-- A string literal is read in the same way before something else that does not go on with its
quotation mark. -/
theorem readStringLiteral_append {letters : List Char} {mark : Char} {cs rest rest' : List Char}
    {embedded : List (List Char)} (h : readStringLiteral letters mark cs = some (embedded, rest))
    (hrest : rest'.head? = rest.head? ∨ rest'.head? ≠ some mark) :
    ∃ used, cs = used ++ rest ∧
      readStringLiteral letters mark (used ++ rest') = some (embedded, rest') := by
  unfold readStringLiteral at h ⊢
  simp only at h ⊢
  split at h
  · next htriple =>
    obtain ⟨tail, rfl⟩ := List.isPrefixOf_iff_prefix.1 htriple
    obtain ⟨used, htail, -, htake⟩ := (stringReaders _).string h
    refine ⟨[mark, mark] ++ used, by simpa using htail, ?_⟩
    rw [if_pos (by simp)]
    exact htake _ rest' (by simp; omega)
  · next hone =>
    obtain ⟨used, rfl, hlen, htake⟩ := (stringReaders _).string h
    refine ⟨used, rfl, ?_⟩
    have hused : 1 ≤ used.length := hlen
    have hone' : ¬ [mark, mark].isPrefixOf (used ++ rest') = true := by
      match used, hused with
      | [c], _ =>
        -- an empty string, which a third mark would make the start of a longer one
        rcases hrest with hsame | hother
        · cases rest' <;> cases rest <;> simp_all
        · cases rest' with
          | nil => simp
          | cons d rest' =>
            intro htwo
            obtain ⟨-, rfl⟩ : mark = c ∧ mark = d := by simpa using htwo
            exact hother rfl
      | c :: d :: used, _ =>
        rwa [isPrefixOf_two mark (x := c :: d :: used) (by simp) rest' rest]
    rw [if_neg hone']
    exact htake _ rest' (by rw [List.length_append]; omega)

end TypedStubs.Syntax
