import TypedStubs.Proofs.Hint.Grammar

/-! # Texts that say no hint

The reader accepts just what the grammar derives, and a text that says no hint is refused
(`parse_decides`).  What it is refused for was met in the text, or in a string in it that stands where a
hint is asked for: `Problem.MetIn` says where each problem is met.
-/
namespace TypedStubs.Hint

/-- Whether a problem is met in a text, or in a string in it. -/
inductive Problem.MetIn : Problem → String → Prop where
  /-- The text has no tokens that can be told. -/
  | tokens {problem : Problem} {text : String} (untold : tokenize text = .error problem) :
    MetIn problem text
  /-- There is no token. -/
  | empty {text : String} (tokens : tokenize text = .ok []) : MetIn .empty text
  /-- A token of the text cannot stand where it stands. -/
  | unexpected {text : String} {ts : List Token} {token : Token} (tokens : tokenize text = .ok ts)
    (mem : token ∈ ts) : MetIn (.unexpected token text) text
  /-- More tokens are needed. -/
  | unexpectedEnd {text : String} {ts : List Token} (tokens : tokenize text = .ok ts) :
    MetIn (.unexpectedEnd text) text
  /-- A hint is followed by more tokens. -/
  | trailing {text : String} {ts more : List Token} {h : Hint}
    (tokens : tokenize text = .ok (ts ++ more)) (said : Derives .union false ts [h])
    (rest : more ≠ []) : MetIn (.trailing text) text
  /-- A string of the text says no hint. -/
  | quoted {problem : Problem} {text inner : String} {ts : List Token} {mark : Char}
    (tokens : tokenize text = .ok ts) (mem : .quoted mark inner ∈ ts) (met : MetIn problem inner) :
    MetIn problem text

/-- Whether a problem is one of reading `ts`, which stand in `text`. -/
inductive Blames (text : String) (ts : List Token) : Problem → Prop where
  /-- A token cannot stand where it stands. -/
  | token {token : Token} (mem : token ∈ ts) : Blames text ts (.unexpected token text)
  /-- The tokens end where more is needed. -/
  | ending : Blames text ts (.unexpectedEnd text)
  /-- A string says no hint. -/
  | quoted {problem : Problem} {mark : Char} {inner : String} (mem : .quoted mark inner ∈ ts)
    (met : problem.MetIn inner) : Blames text ts problem

/-- Whether a reading of `ts` that fails does so for one of them. -/
def Refuses (text : String) (ts : List Token) {α : Type} (outcome : Except Problem α) : Prop :=
  ∀ problem, outcome = .error problem → Blames text ts problem

/-- A step that failed, or the one after it. -/
theorem bind_eq_error {α β : Type} {r : Except Problem α} {f : α → Except Problem β}
    {problem : Problem} :
    (r >>= f) = .error problem ↔ r = .error problem ∨ ∃ a, r = .ok a ∧ f a = .error problem := by
  cases r with
  | error e =>
    refine ⟨fun h => .inl (congrArg Except.error (Except.error.inj h)), ?_⟩
    rintro (h | ⟨_, ha, -⟩)
    · exact congrArg Except.error (Except.error.inj h)
    · cases ha
  | ok a =>
    refine ⟨fun h => .inr ⟨a, rfl, h⟩, ?_⟩
    rintro (h | ⟨_, ha, h⟩)
    · cases h
    · cases ha
      exact h

variable {text : String} {values : Bool} {ts us rest : List Token} {problem : Problem}

theorem Blames.mono (h : Blames text us problem) (hsub : ∀ token ∈ us, token ∈ ts) :
    Blames text ts problem := by
  cases h with
  | token mem => exact .token (hsub _ mem)
  | ending => exact .ending
  | quoted mem met => exact .quoted (hsub _ mem) met

theorem blames_unexpected (hsub : ∀ token ∈ us, token ∈ ts) :
    Blames text ts (unexpected text us) := by
  cases us with
  | nil => exact .ending
  | cons token us => exact .token (hsub _ (by simp))

/-- A reading leaves none but tokens that it was given. -/
theorem ReadsDerived.mem_rest {phrase : Phrase} {bound : Nat}
    {outcome : Except Problem (Reading Hint bound)} (h : ReadsDerived phrase values ts outcome)
    {read : Reading Hint bound} (hok : outcome = .ok read) : ∀ token ∈ read.rest, token ∈ ts := by
  obtain ⟨us, heq, -⟩ := h read hok
  intro token hmem
  rw [heq]
  exact List.mem_append_right us hmem

theorem mem_rest_of_readPrimary {read : Reading Hint (weightAll ts)}
    (hok : readPrimary text values ts = .ok read) : ∀ token ∈ read.rest, token ∈ ts :=
  (reads_derived.2.2.2.1 text values ts).mem_rest hok

theorem mem_rest_of_readUnion {read : Reading Hint (weightAll ts)}
    (hok : readUnion text values ts = .ok read) : ∀ token ∈ read.rest, token ∈ ts :=
  (reads_derived.2.1 text values ts).mem_rest hok

/-! ### One step of each reader -/

theorem readAll_refuses
    (hunion : ¬ ts.isEmpty = true → Refuses text ts (readUnion text false ts))
    (htokens : tokenize text = .ok ts) (hread : readAll text ts = .error problem) :
    problem.MetIn text := by
  rw [readAll] at hread
  split at hread
  · next hempty =>
    obtain rfl := Except.error.inj hread
    exact .empty (List.isEmpty_iff.1 hempty ▸ htokens)
  next hempty =>
  rcases bind_eq_error.1 hread with herror | ⟨read, hok, hread⟩
  · cases hunion hempty problem herror with
    | token mem => exact .unexpected htokens mem
    | ending => exact .unexpectedEnd htokens
    | quoted mem met => exact .quoted htokens mem met
  · split at hread
    · cases hread
    · next hrest =>
      -- what was read is derived, and more tokens stand behind it
      obtain rfl := Except.error.inj hread
      obtain ⟨us, heq, hderives⟩ := reads_derived.2.1 text false ts read hok
      exact .trailing (heq ▸ htokens) hderives fun hnil => hrest (List.isEmpty_iff.2 hnil)

theorem readUnion_refuses (hfirst : Refuses text ts (readPrimary text values ts))
    (hmore : ∀ first : Reading Hint (weightAll ts),
      Refuses text first.rest (readMembers text values first.rest)) :
    Refuses text ts (readUnion text values ts) := by
  intro problem hread
  rw [readUnion] at hread
  rcases bind_eq_error.1 hread with herror | ⟨first, hok, hread⟩
  · exact hfirst problem herror
  rcases bind_eq_error.1 hread with herror | ⟨_, -, hread⟩
  · -- the members stand behind the first one, so their tokens are tokens of the union
    exact (hmore first problem herror).mono (mem_rest_of_readPrimary hok)
  · cases hread

theorem readMembers_refuses (hmember : Refuses text ts (readPrimary text values ts))
    (hmore : ∀ member : Reading Hint (weightAll ts),
      Refuses text member.rest (readMembers text values member.rest)) :
    Refuses text (.bar :: ts) (readMembers text values (.bar :: ts)) := by
  intro problem hread
  have hsub : ∀ token ∈ ts, token ∈ Token.bar :: ts := fun _ => List.mem_cons_of_mem _
  rw [readMembers] at hread
  rcases bind_eq_error.1 hread with herror | ⟨member, hok, hread⟩
  · exact (hmember problem herror).mono hsub
  rcases bind_eq_error.1 hread with herror | ⟨_, -, hread⟩
  · exact (hmore member problem herror).mono fun token hmem =>
      hsub token (mem_rest_of_readPrimary hok token hmem)
  · cases hread

theorem readArgs_refuses (hclosing : ∀ more, ts = .closing :: more → False)
    (harg : Refuses text ts (readUnion text values ts))
    (hmore : ∀ (arg : Reading Hint (weightAll ts)) (rest : List Token), arg.rest = .comma :: rest →
      Refuses text rest (readArgs text values rest)) :
    Refuses text ts (readArgs text values ts) := by
  intro problem hread
  rw [readArgs.eq_2 _ _ _ hclosing] at hread
  rcases bind_eq_error.1 hread with herror | ⟨arg, hok, hread⟩
  · exact harg problem herror
  have hsub := mem_rest_of_readUnion hok
  split at hread
  · next rest hrest =>
    rcases bind_eq_error.1 hread with herror | ⟨_, -, hread⟩
    · refine (hmore arg rest hrest problem herror).mono fun token hmem => hsub token ?_
      rw [hrest]
      exact List.mem_cons_of_mem _ hmem
    · cases hread
  · cases hread
  · obtain rfl := Except.error.inj hread
    exact blames_unexpected hsub

theorem readPrimary_subscript_refuses {head : String}
    (hargs : Refuses text rest (readArgs text (takesValues head) rest)) :
    Refuses text (.name head :: .opening :: rest)
      (readPrimary text values (.name head :: .opening :: rest)) := by
  intro problem hread
  rw [readPrimary] at hread
  rcases bind_eq_error.1 hread with herror | ⟨_, -, hread⟩
  · exact (hargs problem herror).mono fun token hmem => by simp [hmem]
  · cases hread

theorem readPrimary_list_refuses (hitems : Refuses text rest (readArgs text values rest)) :
    Refuses text (.opening :: rest) (readPrimary text values (.opening :: rest)) := by
  intro problem hread
  rw [readPrimary] at hread
  rcases bind_eq_error.1 hread with herror | ⟨_, -, hread⟩
  · exact (hitems problem herror).mono fun token hmem => by simp [hmem]
  · cases hread

theorem readPrimary_quoted_refuses {mark : Char} {inner : String}
    (hsaid : ¬ values = true → ∀ us, tokenize inner = .ok us → ∀ problem,
      readAll inner us = .error problem → problem.MetIn inner) :
    Refuses text (.quoted mark inner :: rest)
      (readPrimary text values (.quoted mark inner :: rest)) := by
  intro problem hread
  rw [readPrimary] at hread
  split at hread
  · cases hread
  next hvalues =>
  have hmem : Token.quoted mark inner ∈ Token.quoted mark inner :: rest := List.mem_cons_self
  refine .quoted hmem ?_
  split at hread
  · next huntold =>
    obtain rfl := Except.error.inj hread
    exact .tokens huntold
  · next us hus =>
    rcases bind_eq_error.1 hread with herror | ⟨_, -, hread⟩
    · exact hsaid hvalues us hus problem herror
    · cases hread

/-- **Every reading that fails does so for one of its tokens.** -/
theorem reads_refuse :
    (∀ text ts, tokenize text = .ok ts → ∀ problem, readAll text ts = .error problem →
      problem.MetIn text) ∧
    (∀ text values ts, Refuses text ts (readUnion text values ts)) ∧
    (∀ text values ts, Refuses text ts (readMembers text values ts)) ∧
    (∀ text values ts, Refuses text ts (readPrimary text values ts)) ∧
    (∀ text values ts, Refuses text ts (readArgs text values ts)) := by
  apply readAll.mutual_induct
  case case1 => exact fun _ ts hempty htokens _ => readAll_refuses (fun h => absurd hempty h) htokens
  case case2 => exact fun _ ts _ hunion htokens _ => readAll_refuses (fun _ => hunion) htokens
  case case3 => exact fun _ _ _ => readUnion_refuses
  case case4 => exact fun _ _ _ => readMembers_refuses
  case case5 =>
    intro text values ts hbar problem hread
    rw [readMembers.eq_2 _ _ _ hbar] at hread
    cases hread
  case case6 => exact fun _ _ _ _ => readPrimary_subscript_refuses
  case case7 =>
    intro text values path rest hopening problem hread
    rw [readPrimary.eq_2 _ _ _ _ hopening] at hread
    cases hread
  case case8 => exact fun _ _ _ _ => readPrimary_quoted_refuses fun hvalues => absurd rfl hvalues
  case case9 =>
    intro text values mark inner rest _ problem hproblem
    refine readPrimary_quoted_refuses fun _ us hus => ?_
    rw [hproblem] at hus
    cases hus
  case case10 =>
    intro text values mark inner rest _ ts hts hsaid
    refine readPrimary_quoted_refuses fun _ us hus => ?_
    rw [hts] at hus
    exact Except.ok.inj hus ▸ hsaid hts
  case case11 =>
    intro text values digits rest problem hread
    rw [readPrimary] at hread
    cases hread
  case case12 =>
    intro text values rest problem hread
    rw [readPrimary] at hread
    cases hread
  case case13 => exact fun _ _ _ => readPrimary_list_refuses
  case case14 =>
    intro text values ts h1 h2 h3 h4 h5 h6 problem hread
    rw [readPrimary.eq_7 _ _ _ h1 h2 h3 h4 h5 h6] at hread
    obtain rfl := Except.error.inj hread
    exact blames_unexpected fun _ => id
  case case15 =>
    intro text values rest problem hread
    rw [readArgs] at hread
    cases hread
  case case16 => exact fun _ _ _ => readArgs_refuses

theorem metIn_of_parse (hparse : parse text = .error problem) : problem.MetIn text := by
  rcases bind_eq_error.1 hparse with huntold | ⟨ts, htokens, hread⟩
  · exact .tokens huntold
  · exact reads_refuse.1 text ts htokens problem hread

/-- **The reader decides the grammar.**  A text says a hint if and only if all of its tokens derive that
hint as a union outside values.  A text that says no hint is refused, for something that is met in it. -/
theorem parse_decides (text : String) :
    (∀ h, parse text = .ok h ↔ ∃ ts, tokenize text = .ok ts ∧ Derives .union false ts [h]) ∧
    ((∀ h ts, tokenize text = .ok ts → ¬ Derives .union false ts [h]) ↔
      ∃ problem : Problem, parse text = .error problem ∧ problem.MetIn text) := by
  refine ⟨fun h => parse_eq_ok_iff, fun hnone => ?_, ?_⟩
  · cases hparse : parse text with
    | ok h =>
      obtain ⟨ts, htokens, hderives⟩ := parse_eq_ok_iff.1 hparse
      exact absurd hderives (hnone h ts htokens)
    | error problem => exact ⟨problem, rfl, metIn_of_parse hparse⟩
  · rintro ⟨problem, hparse, -⟩ h ts htokens hderives
    have hok := parse_eq_ok_iff.2 ⟨ts, htokens, hderives⟩
    rw [hparse] at hok
    cases hok

end TypedStubs.Hint
