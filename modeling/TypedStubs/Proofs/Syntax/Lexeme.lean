import TypedStubs.Proofs.Syntax.StringLiteral
import TypedStubs.Proofs.Text.Pieces
import TypedStubs.Syntax.Scanner

/-! # A token ends where nothing goes on with it

The scanner takes the longest token there is.  Blanks, line ends, backslashes, comments, commas, colons,
parentheses and square brackets go on with no token, so a token is cut in the same way before any of them,
whatever it was cut from (`lexeme_append`).
-/
namespace TypedStubs.Syntax

/-- Characters that go on with no token. -/
def tokenEnds : List Char :=
  [' ', '\t', '\r', '\x0b', '\x0c', '\uFEFF', '\u2060', '\u200B', '\n', '\\', '#', ',', ')', ':', '(',
    '[', ']']

/-- A text that is empty or starts with a character that goes on with no token. -/
def EndsToken (cs : List Char) : Prop := ∀ c, cs.head? = some c → c ∈ tokenEnds

theorem EndsToken.nil : EndsToken [] := fun c h => by simp at h

theorem EndsToken.cons {c : Char} (h : c ∈ tokenEnds) (cs : List Char) : EndsToken (c :: cs) := by
  intro d hd
  obtain rfl : c = d := by simpa using hd
  exact h

theorem EndsToken.head {c : Char} {cs : List Char} (h : EndsToken (c :: cs)) : c ∈ tokenEnds :=
  h c rfl

/-! ## Numbers -/

section Numbers

variable {n n' : List Char}

theorem digitRun_ends {isDigit : Char → Bool} (hd : ∀ c ∈ tokenEnds, isDigit c = false)
    (b : Bool) (hn : EndsToken n') : digitRun isDigit b n' = 0 := by
  cases n' with
  | nil => rfl
  | cons c n' =>
    have hc := hn.head
    have hu : (c == '_') = false := by
      have : ∀ c ∈ tokenEnds, (c == '_') = false := forall_mem_of_all (by decide)
      exact this c hc
    simp [digitRun, hd c hc, hu]

theorem digitRun_append {isDigit : Char → Bool} (hd : ∀ c ∈ tokenEnds, isDigit c = false)
    (hn : EndsToken n') {x : List Char} {b : Bool}
    (h : digitRun isDigit b (x ++ n) ≤ x.length) :
    digitRun isDigit b (x ++ n') = digitRun isDigit b (x ++ n) := by
  induction x generalizing b with
  | nil =>
    rw [List.nil_append, digitRun_ends hd b hn]
    simp only [List.nil_append, List.length_nil, Nat.le_zero] at h
    exact h.symm
  | cons c x ih =>
    simp only [List.cons_append, digitRun, List.length_cons] at h ⊢
    split
    · next hc =>
      rw [if_pos hc] at h
      rw [ih (by omega)]
    · next hc =>
      rw [if_neg hc] at h
      split
      · next hu =>
        rw [if_pos hu] at h
        rw [ih (by omega)]
      · rfl

theorem not_digit_of_tokenEnds : ∀ c ∈ tokenEnds, c.isDigit = false :=
  forall_mem_of_all (by decide)

theorem digits?_append {isDigit : Char → Bool} (hd : ∀ c ∈ tokenEnds, isDigit c = false)
    (hn : EndsToken n') {x : List Char} (h : ∀ k, digits? isDigit (x ++ n) = some k → k ≤ x.length) :
    digits? isDigit (x ++ n') = digits? isDigit (x ++ n) := by
  have hrun : digitRun isDigit false (x ++ n') = digitRun isDigit false (x ++ n) := by
    refine digitRun_append hd hn ?_
    by_cases hzero : digitRun isDigit false (x ++ n) = 0
    · omega
    · exact h _ (by rw [digits?, if_neg hzero])
  rw [digits?, digits?, hrun]

theorem basedRun_append (hn : EndsToken n') {x : List Char} {letter : Char}
    (h : ∀ k, basedRun letter (x ++ n) = some k → k ≤ x.length) :
    basedRun letter (x ++ n') = basedRun letter (x ++ n) := by
  unfold basedRun at h ⊢
  split
  · next hx =>
    rw [if_pos hx] at h
    exact digits?_append (forall_mem_of_all (by decide)) hn h
  next hx =>
  rw [if_neg hx] at h
  split
  · next ho =>
    rw [if_pos ho] at h
    exact digits?_append (forall_mem_of_all (by decide)) hn h
  next ho =>
  rw [if_neg ho] at h
  split
  · next hb =>
    rw [if_pos hb] at h
    exact digits?_append (forall_mem_of_all (by decide)) hn h
  · rfl

theorem decimalRun_append (hn : EndsToken n') {x : List Char}
    (h : decimalRun (x ++ n) ≤ x.length) : decimalRun (x ++ n') = decimalRun (x ++ n) := by
  cases x with
  | nil =>
    have h0 : decimalRun n = 0 := by simpa using h
    rw [List.nil_append, List.nil_append, h0]
    cases n' with
    | nil => rfl
    | cons c n' => simp [decimalRun, not_digit_of_tokenEnds c hn.head]
  | cons d x =>
    simp only [List.cons_append, decimalRun, List.length_cons] at h ⊢
    split
    · next hd =>
      rw [if_pos hd] at h
      rw [digitRun_append not_digit_of_tokenEnds hn (Nat.le_of_succ_le_succ h)]
    · rfl

theorem exponentRun_ends (e : Char) (hn : EndsToken n') : exponentRun (e :: n') = 0 := by
  cases n' with
  | nil => rfl
  | cons c n' =>
    have hsign : ∀ c ∈ tokenEnds, ¬ (c == '+' || c == '-') = true := forall_mem_of_all (by decide)
    simp [exponentRun, hsign c hn.head, decimalRun, not_digit_of_tokenEnds c hn.head]

theorem exponentRun_append (hn : EndsToken n') {x : List Char}
    (h : exponentRun (x ++ n) ≤ x.length) : exponentRun (x ++ n') = exponentRun (x ++ n) := by
  match x with
  | [] =>
    have h0 : exponentRun n = 0 := by simpa using h
    rw [List.nil_append, List.nil_append, h0]
    match n' with
    | [] | [_] => rfl
    | c :: d :: n' =>
      have hc : ∀ c ∈ tokenEnds, ¬ (c == 'e' || c == 'E') = true := forall_mem_of_all (by decide)
      simp [exponentRun, hc c hn.head]
  | [e] =>
    have h0 : exponentRun ([e] ++ n) = 0 := by
      cases n with
      | nil => rfl
      | cons s n =>
        simp only [List.cons_append, List.nil_append, exponentRun, List.length_singleton] at h ⊢
        split
        · next he =>
          rw [if_pos he] at h
          generalize decimalRun _ = k at h ⊢
          cases k with
          | zero => rfl
          | succ k => simp at h
        · rfl
    rw [h0]
    exact exponentRun_ends e hn
  | e :: s :: x =>
    simp only [List.cons_append, exponentRun, List.length_cons] at h ⊢
    split
    · next he =>
      rw [if_pos he] at h
      have hsplit : ∀ y, (s :: (x ++ y)).drop (if s == '+' || s == '-' then 1 else 0) =
          (s :: x).drop (if s == '+' || s == '-' then 1 else 0) ++ y := by
        intro y
        split <;> rfl
      rw [hsplit] at h
      rw [hsplit, hsplit, decimalRun_append hn]
      have hdrop : ((s :: x).drop (if s == '+' || s == '-' then 1 else 0)).length =
          x.length + 1 - if s == '+' || s == '-' then 1 else 0 := by
        rw [List.length_drop, List.length_cons]
      rw [hdrop]
      generalize decimalRun _ = k at h ⊢
      cases k with
      | zero => omega
      | succ k => simp only at h; omega
    · rfl

theorem suffixRun_append {letters : List Char} (hl : ∀ c ∈ tokenEnds, c ∉ letters)
    (hn : EndsToken n') {x : List Char} (h : suffixRun letters (x ++ n) ≤ x.length) :
    suffixRun letters (x ++ n') = suffixRun letters (x ++ n) := by
  cases x with
  | nil =>
    have h0 : suffixRun letters n = 0 := by simpa using h
    rw [List.nil_append, List.nil_append, h0]
    cases n' with
    | nil => rfl
    | cons c n' => simp [suffixRun, hl c hn.head]
  | cons c x => rfl

theorem pointRun_append (hn : EndsToken n') {x : List Char} (h : pointRun (x ++ n) ≤ x.length) :
    pointRun (x ++ n') = pointRun (x ++ n) := by
  cases x with
  | nil =>
    have h0 : pointRun n = 0 := by simpa using h
    rw [List.nil_append, List.nil_append, h0]
    cases n' with
    | nil => rfl
    | cons c n' =>
      have hc : ∀ c ∈ tokenEnds, ¬ (c == '.') = true := forall_mem_of_all (by decide)
      rw [pointRun, if_neg (hc c hn.head)]
  | cons c x => rfl

theorem basedNumber_append (hn : EndsToken n') {c : Char} {x : List Char}
    (h : ∀ k, basedNumber c (x ++ n) = some k → k ≤ x.length) :
    basedNumber c (x ++ n') = basedNumber c (x ++ n) := by
  cases x with
  | nil =>
    have h0 : basedNumber c n = none := by
      cases hk : basedNumber c n with
      | none => rfl
      | some k =>
        obtain rfl : k = 0 := by simpa using h k hk
        cases n with
        | nil => simp [basedNumber] at hk
        | cons d n => simp [basedNumber] at hk
    rw [List.nil_append, List.nil_append, h0]
    cases n' with
    | nil => rfl
    | cons d n' =>
      have hd : ∀ d ∈ tokenEnds, ∀ y, basedRun d y = none := by
        have hletters : ∀ d ∈ tokenEnds, ¬ (d == 'x' || d == 'X') = true ∧
            ¬ (d == 'o' || d == 'O') = true ∧ ¬ (d == 'b' || d == 'B') = true :=
          forall_mem_of_all (by decide)
        intro d hd y
        obtain ⟨hx, ho, hb⟩ := hletters d hd
        simp only [basedRun]
        rw [if_neg hx, if_neg ho, if_neg hb]
      simp [basedNumber, hd d hn.head]
  | cons letter x =>
    simp only [List.cons_append, basedNumber, List.length_cons] at h ⊢
    split
    · next hzero =>
      rw [if_pos hzero] at h
      rw [basedRun_append hn fun k hk => ?_]
      have := h (k + 1) (by simp [hk])
      omega
    · rfl

theorem decimalNumber_append (hn : EndsToken n') {c : Char} {x : List Char}
    (h : (decimalNumber c (x ++ n)).2 ≤ x.length) :
    decimalNumber c (x ++ n') = decimalNumber c (x ++ n) := by
  have drop {k : Nat} (hk : k ≤ x.length) (y : List Char) : (x ++ y).drop k = x.drop k ++ y :=
    List.drop_append_of_le_length hk
  simp only [decimalNumber] at h ⊢
  have hwhole : (if c == '.' then 0 else digitRun Char.isDigit false (x ++ n')) =
      if c == '.' then 0 else digitRun Char.isDigit false (x ++ n) := by
    split
    · rfl
    · next hc =>
      simp only [hc] at h
      exact digitRun_append not_digit_of_tokenEnds hn (by simp at h; omega)
  rw [hwhole]
  generalize (if c == '.' then 0 else digitRun Char.isDigit false (x ++ n)) = whole at h ⊢
  have hpoint : (if c == '.' then 0 else pointRun ((x ++ n').drop whole)) =
      if c == '.' then 0 else pointRun ((x ++ n).drop whole) := by
    split
    · rfl
    · next hc =>
      simp only [hc] at h
      rw [drop (by omega)] at h
      rw [drop (by omega), drop (by omega), pointRun_append hn]
      rw [List.length_drop]
      simp at h
      omega
  rw [hpoint]
  generalize (if c == '.' then 0 else pointRun ((x ++ n).drop whole)) = point at h ⊢
  generalize (c == '.' || point == 1) = isPointed at h ⊢
  have hfraction : (if isPointed then decimalRun ((x ++ n').drop (whole + point)) else 0) =
      if isPointed then decimalRun ((x ++ n).drop (whole + point)) else 0 := by
    split
    · next hp =>
      simp only [hp, if_true] at h
      rw [drop (by omega)] at h
      rw [drop (by omega), drop (by omega), decimalRun_append hn]
      rw [List.length_drop]
      omega
    · rfl
  rw [hfraction]
  generalize (if isPointed then decimalRun ((x ++ n).drop (whole + point)) else 0) = fraction at h ⊢
  have hexponent : exponentRun ((x ++ n').drop (whole + point + fraction)) =
      exponentRun ((x ++ n).drop (whole + point + fraction)) := by
    rw [drop (by omega)] at h
    rw [drop (by omega), drop (by omega), exponentRun_append hn]
    rw [List.length_drop]
    omega
  rw [hexponent]

/-- A number is cut in the same way before what goes on with no token. -/
theorem numberRun_append (hn : EndsToken n') {c : Char} {x : List Char}
    (h : (numberRun c (x ++ n)).2 ≤ x.length) : numberRun c (x ++ n') = numberRun c (x ++ n) := by
  have drop {k : Nat} (hk : k ≤ x.length) (y : List Char) : (x ++ y).drop k = x.drop k ++ y :=
    List.drop_append_of_le_length hk
  have hbased : basedNumber c (x ++ n') = basedNumber c (x ++ n) := by
    refine basedNumber_append hn fun k hk => ?_
    simp only [numberRun, hk] at h
    omega
  simp only [numberRun, hbased] at h ⊢
  cases hk : basedNumber c (x ++ n) with
  | some k =>
    simp only [hk] at h ⊢
    rw [drop (by omega)] at h
    rw [drop (by omega), drop (by omega), suffixRun_append (forall_mem_of_all (by decide)) hn]
    rw [List.length_drop]
    omega
  | none =>
    simp only [hk] at h ⊢
    have hdecimal : decimalNumber c (x ++ n') = decimalNumber c (x ++ n) :=
      decimalNumber_append hn (by omega)
    rw [hdecimal]
    generalize (decimalNumber c (x ++ n)).2 = used at h ⊢
    rw [drop (by omega)] at h
    rw [drop (by omega), drop (by omega), suffixRun_append (forall_mem_of_all (by decide)) hn]
    rw [List.length_drop]
    omega

end Numbers

theorem digitRun_le (isDigit : Char → Bool) (b : Bool) (cs : List Char) :
    digitRun isDigit b cs ≤ cs.length := by
  induction cs generalizing b with
  | nil => exact Nat.le_refl _
  | cons c cs ih =>
    simp only [digitRun, List.length_cons]
    have := ih false
    have := ih true
    split
    · omega
    · split <;> omega

theorem decimalRun_le (cs : List Char) : decimalRun cs ≤ cs.length := by
  cases cs with
  | nil => exact Nat.le_refl _
  | cons d cs =>
    have := digitRun_le Char.isDigit false cs
    simp only [decimalRun, List.length_cons]
    split <;> omega

theorem pointRun_le (cs : List Char) : pointRun cs ≤ cs.length := by
  cases cs with
  | nil => exact Nat.le_refl _
  | cons c cs =>
    simp only [pointRun, List.length_cons]
    split <;> omega

theorem suffixRun_le (letters cs : List Char) : suffixRun letters cs ≤ cs.length := by
  cases cs with
  | nil => exact Nat.le_refl _
  | cons c cs =>
    simp only [suffixRun, List.length_cons]
    split <;> omega

theorem exponentRun_le (cs : List Char) : exponentRun cs ≤ cs.length := by
  match cs with
  | [] | [_] => exact Nat.zero_le _
  | e :: s :: cs =>
    simp only [exponentRun]
    generalize hsign : (if s == '+' || s == '-' then 1 else 0) = sign
    have hs : sign ≤ 1 := by
      rw [← hsign]
      split <;> omega
    have hle := decimalRun_le ((s :: cs).drop sign)
    rw [List.length_drop] at hle
    simp only [List.length_cons] at hle ⊢
    split
    · generalize decimalRun _ = k at hle ⊢
      cases k with
      | zero => exact Nat.zero_le _
      | succ k => simp only; omega
    · exact Nat.zero_le _

theorem digits?_le {isDigit : Char → Bool} {cs : List Char} {n : Nat}
    (h : digits? isDigit cs = some n) : n ≤ cs.length := by
  have hle := digitRun_le isDigit false cs
  rw [digits?] at h
  split at h
  · cases h
  · exact Option.some.inj h ▸ hle

theorem basedNumber_le {c : Char} {cs : List Char} {k : Nat} (h : basedNumber c cs = some k) :
    k ≤ cs.length := by
  cases cs with
  | nil => simp [basedNumber] at h
  | cons letter cs =>
    simp only [basedNumber, Option.ite_none_right_eq_some, Option.map_eq_some_iff] at h
    obtain ⟨-, n, hn, rfl⟩ := h
    rw [List.length_cons, Nat.succ_le_succ_iff]
    simp only [basedRun] at hn
    split at hn
    · exact digits?_le hn
    split at hn
    · exact digits?_le hn
    split at hn
    · exact digits?_le hn
    · simp at hn

theorem decimalNumber_le (c : Char) (cs : List Char) : (decimalNumber c cs).2 ≤ cs.length := by
  have hwhole := digitRun_le Char.isDigit false cs
  simp only [decimalNumber]
  generalize hw : (if c == '.' then 0 else digitRun Char.isDigit false cs) = whole
  have hwhole : whole ≤ cs.length := by
    rw [← hw]
    split <;> omega
  generalize hp : (if c == '.' then 0 else pointRun (cs.drop whole)) = point
  have hpoint : point ≤ cs.length - whole := by
    have := pointRun_le (cs.drop whole)
    rw [List.length_drop] at this
    rw [← hp]
    split <;> omega
  generalize (c == '.' || point == 1) = isPointed
  generalize hf : (if isPointed then decimalRun (cs.drop (whole + point)) else 0) = fraction
  have hfraction : fraction ≤ cs.length - (whole + point) := by
    have := decimalRun_le (cs.drop (whole + point))
    rw [List.length_drop] at this
    rw [← hf]
    split <;> omega
  have hexponent := exponentRun_le (cs.drop (whole + point + fraction))
  rw [List.length_drop] at hexponent
  omega

theorem numberRun_le (c : Char) (cs : List Char) : (numberRun c cs).2 ≤ cs.length := by
  simp only [numberRun]
  split
  · next k hk =>
    have hle := basedNumber_le hk
    have := suffixRun_le ['l', 'L'] (cs.drop k)
    rw [List.length_drop] at this
    omega
  · have hle := decimalNumber_le c cs
    have := suffixRun_le ['l', 'L', 'j', 'J'] (cs.drop (decimalNumber c cs).2)
    rw [List.length_drop] at this
    omega

/-! ## Symbols, words and strings -/

theorem symbols_ne_nil : ∀ s ∈ symbols, s ≠ [] := by decide

theorem symbols_tail : ∀ s ∈ symbols, ∀ c ∈ s.tail, c ∉ tokenEnds := by
  have h : ∀ s ∈ symbols, (s.tail.all fun c => !tokenEnds.contains c) = true := by decide
  intro s hs c hc
  simpa using List.all_eq_true.1 (h s hs) c hc

/-- A symbol that fits before what goes on with no token fits before anything. -/
theorem symbol_prefix {s : List Char} (hs : s ∈ symbols) {c : Char} {x n' : List Char}
    (hn : EndsToken n') (h : s <+: c :: (x ++ n')) (n : List Char) : s <+: c :: (x ++ n) := by
  rw [← List.cons_append] at h ⊢
  rcases Nat.le_total s.length (c :: x).length with hlen | hlen
  · exact (List.prefix_of_prefix_length_le h (List.prefix_append _ _) hlen).trans
      (List.prefix_append _ _)
  · -- the symbol would reach over what follows
    obtain ⟨t, rfl⟩ := List.prefix_of_prefix_length_le (List.prefix_append _ _) h hlen
    have ht := (List.prefix_append_right_inj (c :: x)).1 h
    cases t with
    | nil => rw [List.append_nil]; exact List.prefix_append _ _
    | cons d t =>
      obtain ⟨y, rfl⟩ := ht
      exact absurd hn.head (symbols_tail _ hs d (by simp))

/-- The longest symbol before what goes on with no token is the longest one before anything. -/
theorem find_symbol_append {c : Char} {u w n n' : List Char} {s : List Char} (hn : EndsToken n')
    (h : symbols.find? (·.isPrefixOf (c :: (u ++ (w ++ n)))) = some s) (hu : s = c :: u) :
    symbols.find? (·.isPrefixOf (c :: (u ++ (w ++ n')))) = some s := by
  rw [List.find?_eq_some_iff_append] at h ⊢
  obtain ⟨-, front, back, hsplit, hfront⟩ := h
  refine ⟨?_, front, back, hsplit, fun t ht => ?_⟩
  · rw [hu, List.isPrefixOf_iff_prefix, ← List.cons_append]
    exact List.prefix_append _ _
  · have hno := hfront t ht
    have hmem : t ∈ symbols := by
      rw [hsplit]
      exact List.mem_append_left _ ht
    simp only [Bool.not_eq_eq_eq_not, Bool.not_true, Bool.eq_false_iff, ne_eq,
      List.isPrefixOf_iff_prefix] at hno ⊢
    intro hpre
    rw [← List.append_assoc] at hpre
    have := symbol_prefix hmem hn hpre n
    rw [List.append_assoc] at this
    exact hno this

theorem continuesName_of_tokenEnds : ∀ c ∈ tokenEnds, Text.continuesName c = false :=
  forall_mem_of_all (by decide +kernel)

/-- Where a run of characters ends, when what follows it does not go on with it. -/
theorem takeWhile_dropWhile_append {p : Char → Bool} {u y : List Char} (hu : ∀ c ∈ u, p c = true)
    (hy : ∀ c, y.head? = some c → p c = false) :
    (u ++ y).takeWhile p = u ∧ (u ++ y).dropWhile p = y := by
  induction u with
  | nil =>
    cases y with
    | nil => exact ⟨rfl, rfl⟩
    | cons c y => simp [hy c rfl]
  | cons c u ih =>
    obtain ⟨htake, hdrop⟩ := ih fun d hd => hu d (List.mem_cons_of_mem _ hd)
    have hc := hu c List.mem_cons_self
    simp [hc, htake, hdrop]

section Lexemes

variable {c : Char} {u w n n' : List Char} {kind : TokenKind}

/-- What follows starts as before, or with something that goes on with no token. -/
def SameStart (y y' : List Char) : Prop := y'.head? = y.head? ∨ EndsToken y'

theorem sameStart_append (w n : List Char) (hn : EndsToken n') : SameStart (w ++ n) (w ++ n') := by
  cases w with
  | nil => exact .inr hn
  | cons d w => exact .inl rfl

theorem SameStart.mark {y y' : List Char} (h : SameStart y y') {mark : Char}
    (hm : (mark == '\'' || mark == '"') = true) : y'.head? = y.head? ∨ y'.head? ≠ some mark := by
  refine h.imp_right fun hends hd => ?_
  have hno : ∀ d ∈ tokenEnds, (d == '\'' || d == '"') = false := forall_mem_of_all (by decide)
  rw [hno mark (hends mark hd)] at hm
  cases hm

/-- What follows a name does not go on with it. -/
def EndsName (y : List Char) : Prop := ∀ d, y.head? = some d → Text.continuesName d = false

theorem endsName_dropWhile (cs : List Char) : EndsName (cs.dropWhile Text.continuesName) :=
  forall_head?_dropWhile Text.continuesName cs

theorem SameStart.endsName {y y' : List Char} (h : SameStart y y') (hy : EndsName y) :
    EndsName y' := by
  intro d hd
  rcases h with h | h
  · exact hy d (by rw [← h, hd])
  · exact continuesName_of_tokenEnds d (h d hd)

theorem afterWord_append {word tail rest rest' : List Char} (hsame : SameStart rest rest')
    (htail : EndsName tail) (h : afterWord word tail = some (kind, rest)) :
    ∃ used, tail = used ++ rest ∧ EndsName (used ++ rest') ∧
      afterWord word (used ++ rest') = some (kind, rest') := by
  have same (hrest : tail = rest) (hkind : TokenKind.word = kind)
      (h' : ∀ mark inside, rest' = mark :: inside →
        ((mark == '\'' || mark == '"') && isStringPrefix word) = false) :
      ∃ used, tail = used ++ rest ∧ EndsName (used ++ rest') ∧
        afterWord word (used ++ rest') = some (kind, rest') := by
    refine ⟨[], hrest, hsame.endsName (hrest ▸ htail), ?_⟩
    subst hkind
    cases rest' with
    | nil => rfl
    | cons mark inside => simp [afterWord, h' mark inside rfl]
  cases tail with
  | nil =>
    obtain ⟨hkind, rfl⟩ : TokenKind.word = kind ∧ [] = rest := by simpa [afterWord] using h
    refine same rfl hkind fun mark inside hr => ?_
    rw [Bool.eq_false_iff]
    intro hquote
    rw [Bool.and_eq_true] at hquote
    rcases hsame.mark hquote.1 with hhead | hhead <;> simp [hr] at hhead
  | cons mark inside =>
    rw [afterWord] at h
    split at h
    · next hquote =>
      simp only [Option.map_eq_some_iff, Prod.mk.injEq] at h
      obtain ⟨⟨embedded, rest⟩, hread, rfl, rfl⟩ := h
      have hmark := (Bool.and_eq_true _ _ ▸ hquote).1
      obtain ⟨used, rfl, hagain⟩ := readStringLiteral_append hread (hsame.mark hmark)
      refine ⟨mark :: used, rfl, fun d hd => htail d hd, ?_⟩
      rw [List.cons_append, afterWord, if_pos hquote, hagain, Option.map_some]
    · next hquote =>
      obtain ⟨hkind, rfl⟩ : TokenKind.word = kind ∧ mark :: inside = rest := by simpa using h
      refine same rfl hkind fun mark' inside' hr => ?_
      rw [Bool.eq_false_iff]
      intro hquote'
      have hmark := (Bool.and_eq_true _ _ ▸ hquote').1
      rcases hsame.mark hmark with hhead | hhead
      · obtain rfl : mark' = mark := by simpa [hr] using hhead
        exact hquote hquote'
      · simp [hr] at hhead

theorem word_append (hn : EndsToken n')
    (h : afterWord (c :: (u ++ (w ++ n)).takeWhile Text.continuesName)
      ((u ++ (w ++ n)).dropWhile Text.continuesName) = some (kind, w ++ n)) :
    afterWord (c :: (u ++ (w ++ n')).takeWhile Text.continuesName)
      ((u ++ (w ++ n')).dropWhile Text.continuesName) = some (kind, w ++ n') := by
  have hall : ∀ d ∈ (u ++ (w ++ n)).takeWhile Text.continuesName, Text.continuesName d = true :=
    List.all_eq_true.1 List.all_takeWhile
  have hstop := endsName_dropWhile (u ++ (w ++ n))
  have hsplit := List.takeWhile_append_dropWhile (l := u ++ (w ++ n)) (p := Text.continuesName)
  generalize (u ++ (w ++ n)).takeWhile Text.continuesName = word at *
  generalize (u ++ (w ++ n)).dropWhile Text.continuesName = tail at *
  obtain ⟨used, rfl, hends, hagain⟩ := afterWord_append (sameStart_append w n hn) hstop h
  obtain rfl : word ++ used = u := by
    refine List.append_cancel_right (show _ = _ ++ (w ++ n) from ?_)
    simpa using hsplit
  obtain ⟨htake, hdrop⟩ := takeWhile_dropWhile_append hall hends
  rw [List.append_assoc, htake, hdrop]
  exact hagain

theorem length_used {u y : List Char} {k : Nat} (hk : k ≤ (u ++ y).length)
    (h : (u ++ y).drop k = y) : k = u.length := by
  have := congrArg List.length h
  rw [List.length_drop, List.length_append] at this
  rw [List.length_append] at hk
  omega

/-- A number starts before what goes on with no token only if it starts before anything. -/
theorem not_startsNumber_append (hn : EndsToken n') {x : List Char}
    (h : startsNumber c (x ++ n) = false) : startsNumber c (x ++ n') = false := by
  cases x with
  | nil =>
    cases n' with
    | nil => simp_all [startsNumber]
    | cons d n' => simp_all [startsNumber, not_digit_of_tokenEnds d hn.head]
  | cons d x => exact h

/-- A number that does not end with its first character starts in the same way before anything. -/
theorem startsNumber_append {x : List Char} (hused : (numberRun c (x ++ n)).2 ≤ x.length)
    (h : startsNumber c (x ++ n) = true) : startsNumber c (x ++ n') = true := by
  cases x with
  | nil =>
    by_cases hc : c.isDigit = true
    · simp [startsNumber, hc]
    -- a point alone would be followed by a digit, which the number takes
    exfalso
    cases n with
    | nil => simp [startsNumber, hc] at h
    | cons d n =>
      obtain ⟨rfl, hd⟩ : c = '.' ∧ d.isDigit = true := by simpa [startsNumber, hc] using h
      have hbased : basedNumber '.' (d :: n) = none := rfl
      simp only [List.nil_append, numberRun, hbased, decimalNumber, List.length_nil] at hused
      have hrun : 1 ≤ decimalRun (d :: n) := by simp [decimalRun, hd]
      simp only [beq_self_eq_true, if_true, Bool.true_or, Nat.zero_add, List.drop_zero] at hused
      omega
  | cons d x => exact h

theorem number_append (hn : EndsToken n') (hdrop : (u ++ (w ++ n)).drop
    (numberRun c (u ++ (w ++ n))).2 = w ++ n) :
    numberRun c (u ++ (w ++ n')) = numberRun c (u ++ (w ++ n)) ∧
      (numberRun c (u ++ (w ++ n))).2 = u.length := by
  have hused : (numberRun c (u ++ (w ++ n))).2 = u.length := length_used (numberRun_le c _) hdrop
  have hsame : numberRun c (u ++ w ++ n') = numberRun c (u ++ w ++ n) := by
    refine numberRun_append hn ?_
    rw [List.append_assoc, hused, List.length_append]
    omega
  simp only [List.append_assoc] at hsame
  exact ⟨hsame, hused⟩

theorem symbol_append (hn : EndsToken n')
    (h : ((symbols.find? (·.isPrefixOf (c :: (u ++ (w ++ n))))).map fun symbol =>
      (TokenKind.symbol, (u ++ (w ++ n)).drop (symbol.length - 1))) = some (kind, w ++ n)) :
    ((symbols.find? (·.isPrefixOf (c :: (u ++ (w ++ n'))))).map fun symbol =>
      (TokenKind.symbol, (u ++ (w ++ n')).drop (symbol.length - 1))) = some (kind, w ++ n') := by
  simp only [Option.map_eq_some_iff, Prod.mk.injEq] at h ⊢
  obtain ⟨s, hfind, rfl, hdrop⟩ := h
  have hprefix : s.isPrefixOf (c :: (u ++ (w ++ n))) = true := by
    simpa using List.find?_some hfind
  obtain ⟨tail, htail⟩ := List.isPrefixOf_iff_prefix.1 hprefix
  have hne := symbols_ne_nil s (List.mem_of_find?_eq_some hfind)
  obtain ⟨d, s, rfl⟩ := List.exists_cons_of_ne_nil hne
  obtain ⟨rfl, hs⟩ : d = c ∧ s ++ tail = u ++ (w ++ n) := by simpa using htail
  simp only [List.length_cons, Nat.add_sub_cancel] at hdrop ⊢
  have hlen : s.length = u.length := by
    refine length_used ?_ hdrop
    rw [← hs, List.length_append]
    omega
  obtain rfl : s = u := by
    rw [← hs, List.drop_left] at hdrop
    rw [hdrop] at hs
    exact List.append_cancel_right hs
  exact ⟨d :: s, find_symbol_append hn hfind rfl, by simp, List.drop_left⟩

/-- **A token is cut in the same way before anything that goes on with no token.**  Between its
characters `u` and what follows, more of the source `w` may stay. -/
theorem lexeme_append (hn : EndsToken n')
    (h : lexeme c (u ++ (w ++ n)) = some (kind, w ++ n)) :
    lexeme c (u ++ (w ++ n')) = some (kind, w ++ n') := by
  unfold lexeme at h ⊢
  split at h
  · next hquote =>
    rw [if_pos hquote]
    simp only [Option.map_eq_some_iff, Prod.mk.injEq] at h ⊢
    obtain ⟨⟨embedded, rest⟩, hread, rfl, rfl⟩ := h
    obtain ⟨used, hused, hagain⟩ :=
      readStringLiteral_append hread ((sameStart_append w n hn).mark hquote)
    obtain rfl := List.append_cancel_right hused
    exact ⟨(embedded, w ++ n'), hagain, rfl, rfl⟩
  next hquote =>
  rw [if_neg hquote]
  split at h
  · next hword =>
    rw [if_pos hword]
    exact word_append hn h
  next hword =>
  rw [if_neg hword]
  split at h
  · next hstart =>
    simp only [Option.some.injEq, Prod.mk.injEq] at h
    obtain ⟨hkind, hdrop⟩ := h
    obtain ⟨hsame, hused⟩ := number_append hn hdrop
    have hstart' : startsNumber c (u ++ w ++ n') = true := by
      refine startsNumber_append (n := n) ?_ ?_
      · rw [List.append_assoc, hused, List.length_append]
        omega
      · rw [List.append_assoc]
        exact hstart
    rw [List.append_assoc] at hstart'
    rw [if_pos hstart', hsame]
    simp only [hkind, hused, List.drop_left]
  · next hstart =>
    have hstart' : startsNumber c (u ++ w ++ n') = false := by
      refine not_startsNumber_append (n := n) hn ?_
      rw [List.append_assoc]
      exact Bool.not_eq_true _ ▸ hstart
    rw [List.append_assoc] at hstart'
    rw [if_neg (Bool.eq_false_iff.1 hstart')]
    exact symbol_append hn h

end Lexemes

end TypedStubs.Syntax
