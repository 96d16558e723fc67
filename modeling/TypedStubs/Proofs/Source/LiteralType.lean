import Mathlib.Data.Bool.AllAny
import TypedStubs.Proofs.Syntax.Standalone
import TypedStubs.Proofs.Syntax.Start
import TypedStubs.Proofs.Text.Spaced
import TypedStubs.Source.LiteralType

/-! # What the types of literals say

The type of a literal is read off its kind and its characters alone.  The language has types of its own for
numbers, for strings, and for numbers with signs before them (`valueType?`).  The two agree except where kind and
characters do not tell: on imaginary numbers, on strings side by side that are bytes, and on names behind a sign
that are spelled like an exponent (`misjudged`, `literalTypeName_sound_iff`).

A signed number has a type if nothing but the characters of numbers is left of it without signs and blanks.  So
no other letter is among its tokens, and then a point or an exponent is there if and only if the number is a
float (`IsSigned.valueType`).
-/
namespace TypedStubs

open Syntax Syntax.Rule

variable {text : String} {ts us : List Token} {t : Token} {e : Expr} {T : String}

/-! ## Types of values -/

/-- Whether a number is imaginary. -/
def isImaginary (text : String) : Bool := text.toList.getLast?.any fun c => c == 'j' || c == 'J'

/-- Whether the letters before the quotation mark of a string make it one of bytes. -/
def isBytes (text : String) : Bool :=
  (text.toList.takeWhile fun c => c != '\'' && c != '"').any fun c => c == 'b' || c == 'B'

/-- The type of a number. -/
def numberType? (e : Expr) : Option String :=
  match e.kind with
  | .integer => some (if isImaginary e.text then "complex" else "int")
  | .float => some (if isImaginary e.text then "complex" else "float")
  | _ => none

/-- The type of a string, formatted or not. -/
def quotedType (e : Expr) : String := if isBytes e.text then "bytes" else "str"

/-- What signs stand before. -/
def underSigns : Expr → Expr
  | .node .unary _ [operand] => underSigns operand
  | e => e

/-- The first characters of the expressions that signs make. -/
def signsOf : Expr → List Char
  | .node .unary text [operand] => text.toList.take 1 ++ signsOf operand
  | _ => []

/-- The type that the language gives to a number, to a string, to strings side by side, or to a number with signs
before it.  Strings side by side are all of one type, and bits are inverted of whole numbers only. -/
def valueType? (e : Expr) : Option String :=
  match e.kind with
  | .integer | .float => numberType? e
  | .string => some (quotedType e)
  | .adjacentStrings => ["str", "bytes"].find? fun T => e.parts.all (quotedType · == T)
  | .unary => (numberType? (underSigns e)).filter fun T => !(signsOf e).contains '~' || T == "int"
  | _ => none

/-- Whether the kind and the characters of an expression do not tell its type: an imaginary number, strings side by
side that are not all text, or signs before what is no number. -/
def misjudged (e : Expr) : Bool :=
  match e.kind with
  | .integer | .float => isImaginary e.text
  | .adjacentStrings => !e.parts.all (quotedType · == "str")
  | .unary => (numberType? (underSigns e)).isNone
  | _ => false

/-- The kinds of numbers, strings and expressions of signs. -/
def literalKinds : List ExprKind := [.integer, .float, .string, .adjacentStrings, .unary]

/-! ## Strings -/

theorem isAlpha_of_isStringPrefix {letters : List Char} (h : isStringPrefix letters = true) :
    ∀ c ∈ letters, c.isAlpha = true ∧ (c != '\'' && c != '"') = true := by
  have hall : ∀ c ∈ ['b', 'B', 'f', 'F', 'r', 'R', 'u', 'U'],
      c.isAlpha = true ∧ (c != '\'' && c != '"') = true := List.all_iff_forall_prop.1 (by decide)
  intro c hc
  exact hall c (List.contains_iff_mem.1 (List.all_eq_true.1 h c hc))

/-- What is before the mark of a string are the letters that say how it is read. -/
theorem stringType_eq {embedded : List (List Char)} (h : IsLexeme (.string embedded) text.toList) :
    stringType text = if isBytes text then "bytes" else "str" := by
  obtain ⟨letters, mark, inside, hquote⟩ := h.quotation
  have htake : ∀ p : Char → Bool, (∀ c ∈ letters, p c = true) → p mark = false →
      text.toList.takeWhile p = letters := by
    intro p hall hmark
    rw [hquote.chars, List.takeWhile_append_of_pos hall, List.takeWhile_cons_of_neg (by simp [hmark]),
      List.append_nil]
  have hletters := isAlpha_of_isStringPrefix hquote.reading
  have halpha : text.toList.takeWhile Char.isAlpha = letters := by
    refine htake _ (fun c hc => (hletters c hc).1) ?_
    rcases hquote.quotes with hmark | hmark <;> rw [hmark] <;> decide
  have hmarks : (text.toList.takeWhile fun c => c != '\'' && c != '"') = letters := by
    refine htake _ (fun c hc => (hletters c hc).2) ?_
    rcases hquote.quotes with hmark | hmark <;> rw [hmark] <;> decide
  rw [stringType, halpha, isBytes, hmarks]

/-! ## Signs -/

/-- The characters that a signed number is spelled with. -/
def isNumeral (c : Char) : Bool := c.isDigit || c == '.' || c == '_' || (c == 'e' || c == 'E')

/-- What is left of a signed number without the signs before it and blanks. -/
def bareNumber (text : String) : List Char :=
  Text.trimChars (text.toList.dropWhile fun c => c == '-' || c == '+')

theorem bareNumber_around (text : String) :
    ∃ front trail, text.toList = front ++ (bareNumber text ++ trail) ∧
      (∀ x ∈ front, x ∈ ['-', '+'] ∨ Text.isBlank x = true) ∧ ∀ x ∈ trail, Text.isBlank x = true := by
  let isSign : Char → Bool := fun c => c == '-' || c == '+'
  obtain ⟨lead, trail, hdrop, hlead, htrail⟩ := Text.trimChars_around (text.toList.dropWhile isSign)
  refine ⟨text.toList.takeWhile isSign ++ lead, trail, ?_, fun x hx => ?_, htrail⟩
  · rw [List.append_assoc, bareNumber, ← hdrop, List.takeWhile_append_dropWhile]
  · rcases List.mem_append.1 hx with hx | hx
    · left
      simpa [isSign] using List.mem_takeWhile_imp hx
    · exact .inr (hlead x hx)

/-- What is around the number is signs and blanks. -/
theorem mem_bareNumber_or {x : Char} (hx : x ∈ text.toList) :
    x ∈ bareNumber text ∨ x ∈ ['-', '+'] ∨ Text.isBlank x = true := by
  obtain ⟨front, trail, htext, hfront, htrail⟩ := bareNumber_around text
  rw [htext] at hx
  simp only [List.mem_append] at hx
  rcases hx with hx | hx | hx
  · exact .inr (hfront x hx)
  · exact .inl hx
  · exact .inr (.inr (htrail x hx))

theorem bareNumber_subset (text : String) : bareNumber text ⊆ text.toList := by
  obtain ⟨front, trail, htext, -⟩ := bareNumber_around text
  intro x hx
  rw [htext]
  simp [hx]

/-- The characters that make a number a float are in the number. -/
theorem any_floatMarks_bareNumber (text : String) :
    (bareNumber text).any floatMarks.contains = text.toList.any floatMarks.contains := by
  have hplain : ∀ x ∈ floatMarks, ¬(x ∈ ['-', '+'] ∨ Text.isBlank x = true) :=
    List.all_iff_forall_prop.1 (by decide)
  rw [Bool.eq_iff_iff, List.any_eq_true, List.any_eq_true]
  constructor
  · rintro ⟨x, hx, hmark⟩
    exact ⟨x, bareNumber_subset text hx, hmark⟩
  · rintro ⟨x, hx, hmark⟩
    exact ⟨x, (mem_bareNumber_or hx).resolve_right (hplain x (List.contains_iff_mem.1 hmark)), hmark⟩

theorem signedType_eq (text : String) :
    signedType text =
      if (bareNumber text).isEmpty || !(bareNumber text).all isNumeral then none
      else if text.toList.any floatMarks.contains then some "float" else some "int" := by
  have hmarks : (fun c => c == '.' || (c == 'e' || c == 'E')) = floatMarks.contains := by
    funext c
    simp [floatMarks, Bool.beq_eq_decide_eq]
  rw [← any_floatMarks_bareNumber, ← hmarks]
  rfl

/-- What has a type as a signed number is spelled with signs, blanks and the characters of numbers, and the
characters that make a number a float tell which type. -/
theorem signedType_eq_some (h : signedType text = some T) :
    (∀ x ∈ text.toList, x ∈ ['-', '+'] ∨ Text.isBlank x = true ∨ isNumeral x = true) ∧
      T = if text.toList.any floatMarks.contains then "float" else "int" := by
  rw [signedType_eq] at h
  split at h
  · cases h
  next hnumber =>
  simp only [Bool.or_eq_true, Bool.not_eq_true', not_or, Bool.not_eq_false, List.all_eq_true] at hnumber
  constructor
  · intro x hx
    rcases mem_bareNumber_or hx with hmem | hsign | hblank
    · exact .inr (.inr (hnumber.2 x hmem))
    · exact .inl hsign
    · exact .inr (.inl hblank)
  · split at h
    · next hany => rw [if_pos hany]; exact (Option.some.inj h).symm
    · next hany => rw [if_neg hany]; exact (Option.some.inj h).symm

/-- The tokens of a number `t` with the signs `us` before it. -/
structure IsSigned (us : List Token) (t : Token) (e : Expr) : Prop where
  /-- What is before the number is a sign each. -/
  areSigns : ∀ u ∈ us, isOneOf ["-", "+", "~"] u.toLexeme = true
  /-- What is under the signs is the number. -/
  number : (t.kind = .integer ∧ underSigns e = .node .integer t.text []) ∨
    (t.kind = .float ∧ underSigns e = .node .float t.text [])
  /-- The signs are spelled. -/
  spelled : ∀ c ∈ signsOf e, c ∈ spanChars (us ++ [t])

theorem underSigns_eq_self (h : e.kind ≠ .unary) : underSigns e = e := by
  unfold underSigns
  split
  · exact absurd rfl h
  · rfl

theorem signsOf_eq_nil (h : e.kind ≠ .unary) : signsOf e = [] := by
  unfold signsOf
  split
  · exact absurd rfl h
  · rfl

/-- Where there is a number under the signs, it is the last token. -/
theorem exists_isSigned {place : Entry} (h : expression place ts = some (e, []))
    (hnumber : (numberType? (underSigns e)).isSome = true) :
    ∃ us t, ts = us ++ [t] ∧ IsSigned us t e := by
  induction ts generalizing place e with
  | nil =>
    obtain ⟨t, us, hts, -⟩ := expression_starts place h
    cases hts
  | cons t ts ih =>
    by_cases hkind : e.kind = .unary
    · -- there is one sign more
      obtain ⟨u, more, operand, hts, hsign, hoperand, rfl⟩ := expression_unary h hkind
      obtain ⟨rfl, rfl⟩ := List.cons.inj hts
      obtain ⟨us, number, rfl, hsigned⟩ := ih hoperand hnumber
      have htext := textSince_append_right (t :: (us ++ [number])) []
      rw [List.append_nil] at htext
      refine ⟨t :: us, number, rfl, List.forall_mem_cons.2 ⟨hsign, hsigned.areSigns⟩, hsigned.number, ?_⟩
      intro c hc
      rw [signsOf, htext, String.toList_ofList, List.mem_append] at hc
      rcases hc with hc | hc
      · exact List.mem_of_mem_take hc
      · exact spanChars_subset_cons (hsigned.spelled c hc)
    · rw [underSigns_eq_self hkind] at hnumber
      have hsigns := signsOf_eq_nil hkind
      unfold numberType? at hnumber
      split at hnumber
      · next hinteger =>
        obtain ⟨number, hts, hnumber, he⟩ := expression_integer h hinteger
        refine ⟨[], number, hts, List.forall_mem_nil _, .inl ⟨hnumber, ?_⟩, by simp [hsigns]⟩
        rw [underSigns_eq_self hkind, he]
      · next hfloat =>
        obtain ⟨number, hts, hnumber, he⟩ := expression_float h hfloat
        refine ⟨[], number, hts, List.forall_mem_nil _, .inr ⟨hnumber, ?_⟩, by simp [hsigns]⟩
        rw [underSigns_eq_self hkind, he]
      · cases hnumber

/-- Without a comment, what makes a signed number a float is in its last token. -/
theorem IsSigned.any_floatMarks (h : IsExpression text (us ++ [t]) e) (hsigned : IsSigned us t e)
    (hcomment : '#' ∉ spanChars (us ++ [t])) :
    (spanChars (us ++ [t])).any floatMarks.contains = t.chars.any floatMarks.contains := by
  rw [Bool.eq_iff_iff, List.any_eq_true, List.any_eq_true]
  refine ⟨?_, fun ⟨x, hx, hmark⟩ => ⟨x, chars_subset_spanChars (by simp) hx, hmark⟩⟩
  rintro ⟨x, hx, hmark⟩
  have hpoint := List.contains_iff_mem.1 hmark
  rcases h.mem_spanChars_cases hcomment hx with ⟨u, hu, hchar⟩ | hgap
  · rcases List.mem_append.1 hu with hu | hu
    · have hsign := hsigned.areSigns u hu
      simp only [isOneOf, Bool.and_eq_true, List.contains_iff_mem] at hsign
      have hnone : ∀ s ∈ ["-", "+", "~"], ∀ x ∈ s.toList, x ∉ floatMarks := by simp [floatMarks]
      exact absurd hpoint (hnone _ hsign.2 x (by simpa [Lexeme.text] using hchar))
    · rw [List.mem_singleton] at hu
      exact ⟨x, hu ▸ hchar, hmark⟩
  · have hnone : ∀ x ∈ floatMarks, ¬(isGap x = true ∨ x = '\n' ∨ x = '\\') :=
      List.all_iff_forall_prop.1 (by decide)
    exact absurd hgap (hnone x hpoint)

theorem isImaginary_eq_false (hplain : ∀ x ∈ t.chars, x ∉ otherLetters) : isImaginary t.text = false := by
  refine Bool.eq_false_iff.2 fun hlast => ?_
  obtain ⟨x, hx, hj⟩ := (Option.any_eq_true _ _).1 hlast
  have hletters : ∀ x ∈ ['j', 'J'], x ∈ otherLetters := by simp [otherLetters]
  exact hplain x (by simpa [Lexeme.text] using List.mem_of_getLast? hx) (hletters x (by simpa using hj))

/-- The type of a number without other letters is told by what makes it a float. -/
theorem IsSigned.numberType (hsigned : IsSigned us t e) (hlexeme : IsLexeme t.kind t.chars)
    (hplain : ∀ x ∈ t.chars, x ∉ otherLetters) :
    numberType? (underSigns e) = some (if t.chars.any floatMarks.contains then "float" else "int") := by
  have himaginary := isImaginary_eq_false hplain
  rcases hsigned.number with ⟨hinteger, hnumber⟩ | ⟨hfloat, hnumber⟩
  · have hunmarked : t.chars.any floatMarks.contains = false := by
      rw [hinteger] at hlexeme
      simpa using hlexeme.integer_unmarked hplain
    simp [hnumber, numberType?, Expr.kind, Expr.text, himaginary, hunmarked]
  · have hmarked : t.chars.any floatMarks.contains = true := by
      rw [hfloat] at hlexeme
      simpa using hlexeme.float_marked
    simp [hnumber, numberType?, Expr.kind, Expr.text, himaginary, hmarked]

theorem valueType?_unary (hkind : e.kind = .unary) :
    valueType? e =
      (numberType? (underSigns e)).filter fun T => !(signsOf e).contains '~' || T == "int" := by
  rw [valueType?, hkind]

/-- **A number with signs has the type that its characters tell.** -/
theorem IsSigned.valueType (h : IsExpression text (us ++ [t]) e) (hsigned : IsSigned us t e)
    (hkind : e.kind = .unary) (hT : signedType e.text = some T) : valueType? e = some T := by
  obtain ⟨hchars, hT⟩ := signedType_eq_some hT
  rw [h.text_eq, String.toList_ofList] at hchars hT
  -- no other letter stands in it, no sign that inverts bits, and no comment
  have hnot : ∀ x ∈ '~' :: '#' :: otherLetters, x ∉ spanChars (us ++ [t]) := by
    have hother : ∀ x ∈ '~' :: '#' :: otherLetters,
        ¬(x ∈ ['-', '+'] ∨ Text.isBlank x = true ∨ isNumeral x = true) :=
      List.all_iff_forall_prop.1 (by decide)
    exact fun x hx hspan => hother x hx (hchars x hspan)
  have hmem : t ∈ us ++ [t] := by simp
  have hplain : ∀ x ∈ t.chars, x ∉ otherLetters := fun x hx hother =>
    hnot x (by simp [hother]) (chars_subset_spanChars hmem hx)
  have htype := hsigned.numberType (h.isLexeme hmem) hplain
  rw [← hsigned.any_floatMarks h (hnot '#' (by decide)), ← hT] at htype
  have htilde : '~' ∉ signsOf e := fun hc => hnot '~' (by decide) (hsigned.spelled '~' hc)
  simp [valueType?_unary hkind, htype, htilde]

/-! ## What the type of a literal tells -/

theorem valueType?_number_iff (hkind : e.kind = .integer ∨ e.kind = .float)
    (hT : literalTypeName e.kind e.text = some T) : valueType? e = some T ↔ misjudged e = false := by
  rcases hkind with hkind | hkind
  · obtain rfl : "int" = T := by simpa [literalTypeName, hkind] using hT
    simp only [misjudged, valueType?, numberType?, hkind]
    cases isImaginary e.text <;> decide
  · obtain rfl : "float" = T := by simpa [literalTypeName, hkind] using hT
    simp only [misjudged, valueType?, numberType?, hkind]
    cases isImaginary e.text <;> decide

theorem valueType?_string (h : IsExpression text ts e) (hkind : e.kind = .string) :
    valueType? e = some (stringType e.text) := by
  obtain ⟨t, hts, hstring, parts, rfl⟩ := expression_string h.read hkind
  have hlexeme := h.isLexeme (t := t) (by simp [hts])
  unfold isString at hstring
  split at hstring
  · next embedded hquoted =>
    rw [hquoted] at hlexeme
    have htext : IsLexeme (.string embedded) t.text.toList := by simpa [Lexeme.text] using hlexeme
    exact congrArg some (stringType_eq htext).symm
  · cases hstring

theorem valueType?_adjacent_iff (hkind : e.kind = .adjacentStrings) :
    valueType? e = some "str" ↔ misjudged e = false := by
  simp only [valueType?, misjudged, hkind, List.find?_cons]
  cases e.parts.all (quotedType · == "str") with
  | true => simp
  | false => cases e.parts.all (quotedType · == "bytes") <;> simp

theorem valueType?_unary_iff (h : IsExpression text ts e) (hkind : e.kind = .unary)
    (hT : signedType e.text = some T) : valueType? e = some T ↔ misjudged e = false := by
  have hmisjudged : misjudged e = (numberType? (underSigns e)).isNone := by rw [misjudged, hkind]
  rw [hmisjudged]
  cases hnumber : numberType? (underSigns e) with
  | none => simp [valueType?_unary hkind, hnumber]
  | some number =>
    obtain ⟨us, t, rfl, hsigned⟩ := exists_isSigned h.read (by rw [hnumber]; rfl)
    simp [hsigned.valueType h hkind hT]

/-- What is not misjudged is spelled without names. -/
theorem not_word_of_not_misjudged (h : IsExpression text ts e) (hkind : e.kind ∈ literalKinds)
    (hmisjudged : misjudged e = false) (ht : t ∈ ts) : t.kind ≠ .word := by
  have hstrings : e.kind ∈ [.string, .adjacentStrings] → t.kind ≠ .word := by
    intro hkind hword
    have hstring := h.isString hkind ht
    rw [isString, hword] at hstring
    cases hstring
  simp only [literalKinds, List.mem_cons, List.not_mem_nil, or_false] at hkind
  rcases hkind with hinteger | hfloat | hstring | hadjacent | hunary
  · obtain ⟨u, rfl, hu, -⟩ := expression_integer h.read hinteger
    rw [List.mem_singleton.1 ht, hu]
    decide
  · obtain ⟨u, rfl, hu, -⟩ := expression_float h.read hfloat
    rw [List.mem_singleton.1 ht, hu]
    decide
  · exact hstrings (by simp [hstring])
  · exact hstrings (by simp [hadjacent])
  · have hnumber : (numberType? (underSigns e)).isSome = true := by
      rw [misjudged, hunary] at hmisjudged
      simpa using hmisjudged
    obtain ⟨us, number, rfl, hsigned⟩ := exists_isSigned h.read hnumber
    rcases List.mem_append.1 ht with ht | ht
    · have hsign := hsigned.areSigns t ht
      simp only [isOneOf, Bool.and_eq_true, beq_iff_eq] at hsign
      simp [hsign.1]
    · rw [List.mem_singleton.1 ht]
      rcases hsigned.number with ⟨hinteger, -⟩ | ⟨hfloat, -⟩
      · simp [hinteger]
      · simp [hfloat]

/-- **The type of a literal is the type that the language gives it**, unless the expression is one whose kind and
characters do not tell it.  In any other one there is no name, outside strings. -/
theorem literalTypeName_sound_iff (h : IsExpression text ts e) (hkind : e.kind ∈ literalKinds)
    (hT : literalTypeName e.kind e.text = some T) :
    (valueType? e = some T ↔ misjudged e = false) ∧ (misjudged e = false → ∀ t ∈ ts, t.kind ≠ .word) := by
  refine ⟨?_, fun hmisjudged t => not_word_of_not_misjudged h hkind hmisjudged⟩
  simp only [literalKinds, List.mem_cons, List.not_mem_nil, or_false] at hkind
  rcases hkind with hinteger | hfloat | hstring | hadjacent | hunary
  · exact valueType?_number_iff (.inl hinteger) hT
  · exact valueType?_number_iff (.inr hfloat) hT
  · obtain rfl : stringType e.text = T := by simpa [literalTypeName, hstring] using hT
    exact iff_of_true (valueType?_string h hstring) (by rw [misjudged, hstring])
  · obtain rfl : "str" = T := by simpa [literalTypeName, hadjacent] using hT
    exact valueType?_adjacent_iff hadjacent
  · exact valueType?_unary_iff h hunary (by simpa [literalTypeName, hunary] using hT)

/-- A negative number is a float. -/
theorem literalTypeName_negative :
    let number := Expr.node .unary "-1.5" [.node .float "1.5" []]
    ∃ ts, IsExpression "-1.5" ts number ∧ number.kind ∈ literalKinds ∧
      literalTypeName number.kind number.text = some "float" ∧
      (valueType? number = some "float" ↔ misjudged number = false) ∧
      (misjudged number = false → ∀ t ∈ ts, t.kind ≠ .word) := by
  intro number
  let ts : List Token := [⟨⟨.symbol, ['-']⟩, []⟩, ⟨⟨.float, ['1', '.', '5']⟩, []⟩]
  have hread : IsExpression "-1.5" ts number := ⟨by decide +kernel, by with_unfolding_all rfl⟩
  have hkind : number.kind ∈ literalKinds := by decide
  have hT : literalTypeName number.kind number.text = some "float" := by decide
  exact ⟨ts, hread, hkind, hT, literalTypeName_sound_iff hread hkind hT⟩

/-- A name that is spelled like an exponent is taken for a number behind a sign, and strings of bytes side by side
for text. -/
theorem exponent_and_bytes_misjudged :
    let name := Expr.node .unary "-e" [.node .name "e" []]
    let bytes := Expr.node .adjacentStrings "b'a' b'b'" [.node .string "b'a'" [], .node .string "b'b'" []]
    (∃ ts, IsExpression "-e" ts name) ∧ literalTypeName name.kind name.text = some "float" ∧
      valueType? name = none ∧
    (∃ ts, IsExpression "b'a' b'b'" ts bytes) ∧ literalTypeName bytes.kind bytes.text = some "str" ∧
      valueType? bytes = some "bytes" := by
  intro name bytes
  let sign : List Token := [⟨⟨.symbol, ['-']⟩, []⟩, ⟨⟨.word, ['e']⟩, []⟩]
  let quoted : List Token := [⟨⟨.string [], "b'a'".toList⟩, []⟩, ⟨⟨.string [], "b'b'".toList⟩, [' ']⟩]
  exact ⟨⟨sign, by decide +kernel, by with_unfolding_all rfl⟩, by decide, by decide,
    ⟨quoted, by decide +kernel, by with_unfolding_all rfl⟩, by decide, by decide⟩

end TypedStubs
