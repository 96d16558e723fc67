import TypedStubs.Hint.Parser

/-! # The grammar of hints

`Derives` says what tokens make a hint.  The reader accepts just that: what it reads off the front of
some tokens is derived from what it takes (`Derives.of_readPrimary` and its neighbours), and it reads
off what is derived, whatever tokens follow that cannot go on with it (`Derives.reads`).
-/
namespace TypedStubs.Hint

/-- The phrases that hints are made of. -/
inductive Phrase where
  /-- A hint that is no union, or a string that says a hint. -/
  | primary
  /-- Primaries with bars between them. -/
  | members
  /-- The hint that members make. -/
  | union
  /-- Hints with commas between them; one more may stand behind the last. -/
  | args
  deriving DecidableEq

/-- Whether tokens make a phrase that says some hints, one unless it has members or arguments.  The flag
says whether the phrase stands among values, where a string is a value. -/
inductive Derives : Phrase → Bool → List Token → List Hint → Prop where
  /-- A name. -/
  | name {values : Bool} (path : String) : Derives .primary values [.name path] [.name path]
  /-- A name with arguments. -/
  | subscript {values : Bool} {head : String} {ts : List Token} {hs : List Hint}
    (args : Derives .args (takesValues head) ts hs) :
    Derives .primary values (.name head :: .opening :: ts ++ [.closing]) [.subscript head hs]
  /-- A number. -/
  | number {values : Bool} (digits : String) :
    Derives .primary values [.number digits] [.literal digits]
  /-- An ellipsis. -/
  | ellipsis {values : Bool} : Derives .primary values [.ellipsis] [.literal "..."]
  /-- A bracketed list. -/
  | list {values : Bool} {ts : List Token} {hs : List Hint} (items : Derives .args values ts hs) :
    Derives .primary values (.opening :: ts ++ [.closing]) [.list hs]
  /-- A string among values. -/
  | value (mark : Char) (inner : String) :
    Derives .primary true [.quoted mark inner] [.literal (Token.quotedText mark inner)]
  /-- A string that says a hint. -/
  | quoted {mark : Char} {inner : String} {ts : List Token} {h : Hint}
    (tokens : tokenize inner = .ok ts) (said : Derives .union false ts [h]) :
    Derives .primary false [.quoted mark inner] [h]
  /-- One member. -/
  | single {values : Bool} {ts : List Token} {h : Hint} (member : Derives .primary values ts [h]) :
    Derives .members values ts [h]
  /-- A member before others. -/
  | bar {values : Bool} {ts us : List Token} {h : Hint} {hs : List Hint}
    (member : Derives .primary values ts [h]) (more : Derives .members values us hs) :
    Derives .members values (ts ++ .bar :: us) (h :: hs)
  /-- What members make. -/
  | union {values : Bool} {ts : List Token} {h : Hint} {hs : List Hint}
    (members : Derives .members values ts (h :: hs)) :
    Derives .union values ts [ofMembers h hs]
  /-- No argument. -/
  | none {values : Bool} : Derives .args values [] []
  /-- The last argument. -/
  | last {values : Bool} {ts : List Token} {h : Hint} (arg : Derives .union values ts [h]) :
    Derives .args values ts [h]
  /-- An argument before a comma. -/
  | comma {values : Bool} {ts us : List Token} {h : Hint} {hs : List Hint}
    (arg : Derives .union values ts [h]) (more : Derives .args values us hs) :
    Derives .args values (ts ++ .comma :: us) (h :: hs)

/-! ### What is read is derived -/

/-- A step that went well, and the one after it. -/
theorem bind_eq_ok {α β : Type} {r : Except Problem α} {f : α → Except Problem β} {b : β} :
    (r >>= f) = .ok b ↔ ∃ a, r = .ok a ∧ f a = .ok b := by
  cases r with
  | error e => exact ⟨nofun, nofun⟩
  | ok a => exact ⟨fun h => ⟨a, rfl, h⟩, fun ⟨_, ha, h⟩ => by cases ha; exact h⟩

/-- Whether what is read off the front of `ts` is derived from what is taken. -/
def ReadsDerived (phrase : Phrase) (values : Bool) (ts : List Token) {bound : Nat}
    (outcome : Except Problem (Reading Hint bound)) : Prop :=
  ∀ read, outcome = .ok read →
    ∃ us, ts = us ++ read.rest ∧ Derives phrase values us [read.value]

/-- Whether members that are read off the front of `ts` may follow a primary. -/
def ReadsMembers (values : Bool) (ts : List Token) {bound : Nat}
    (outcome : Except Problem (Reading (List Hint) bound)) : Prop :=
  ∀ read, outcome = .ok read →
    ∃ us, ts = us ++ read.rest ∧ ∀ {vs h}, Derives .primary values vs [h] →
      Derives .members values (vs ++ us) (h :: read.value)

/-- Whether arguments that are read off the front of `ts` are derived from what is taken, but for the
bracket behind them. -/
def ReadsArgs (values : Bool) (ts : List Token) {bound : Nat}
    (outcome : Except Problem (Reading (List Hint) bound)) : Prop :=
  ∀ read, outcome = .ok read →
    ∃ us, ts = us ++ .closing :: read.rest ∧ Derives .args values us read.value

/-- What two readers take one after the other. -/
theorem eq_append_of_rest {ts us vs middle rest : List Token} (h : ts = us ++ middle)
    (h' : middle = vs ++ rest) : ts = us ++ vs ++ rest := by
  rw [h, h', List.append_assoc]

variable {text : String} {values : Bool} {ts rest : List Token}

theorem readAll_derived
    (hunion : ¬ ts.isEmpty = true → ReadsDerived .union false ts (readUnion text false ts)) {h : Hint}
    (hread : readAll text ts = .ok h) : Derives .union false ts [h] := by
  rw [readAll] at hread
  split at hread
  · cases hread
  next hempty =>
  obtain ⟨read, hok, hread⟩ := bind_eq_ok.1 hread
  obtain ⟨us, heq, hderives⟩ := hunion hempty read hok
  split at hread
  · next hrest =>
    obtain rfl := Except.ok.inj hread
    have hus : ts = us := by simpa [List.isEmpty_iff.1 hrest] using heq
    exact hus ▸ hderives
  · cases hread

theorem readUnion_derived (hfirst : ReadsDerived .primary values ts (readPrimary text values ts))
    (hmore : ∀ first : Reading Hint (weightAll ts),
      ReadsMembers values first.rest (readMembers text values first.rest)) :
    ReadsDerived .union values ts (readUnion text values ts) := by
  intro read hread
  rw [readUnion] at hread
  obtain ⟨first, hfirstok, hread⟩ := bind_eq_ok.1 hread
  obtain ⟨more, hmoreok, hread⟩ := bind_eq_ok.1 hread
  obtain rfl := Except.ok.inj hread
  obtain ⟨us, heq, hderives⟩ := hfirst first hfirstok
  obtain ⟨vs, hrest, hmembers⟩ := hmore first more hmoreok
  exact ⟨us ++ vs, eq_append_of_rest heq hrest, .union (hmembers hderives)⟩

theorem readMembers_derived (hmember : ReadsDerived .primary values ts (readPrimary text values ts))
    (hmore : ∀ member : Reading Hint (weightAll ts),
      ReadsMembers values member.rest (readMembers text values member.rest)) :
    ReadsMembers values (.bar :: ts) (readMembers text values (.bar :: ts)) := by
  intro read hread
  rw [readMembers] at hread
  obtain ⟨member, hmemberok, hread⟩ := bind_eq_ok.1 hread
  obtain ⟨more, hmoreok, hread⟩ := bind_eq_ok.1 hread
  obtain rfl := Except.ok.inj hread
  obtain ⟨us, heq, hderives⟩ := hmember member hmemberok
  obtain ⟨vs, hrest, hmembers⟩ := hmore member more hmoreok
  exact ⟨.bar :: (us ++ vs), congrArg (.bar :: ·) (eq_append_of_rest heq hrest),
    fun hfirst => .bar hfirst (hmembers hderives)⟩

theorem readMembers_end_derived (hbar : ∀ more, ts = .bar :: more → False) :
    ReadsMembers values ts (readMembers text values ts) := by
  intro read hread
  rw [readMembers.eq_2 _ _ _ hbar] at hread
  obtain rfl := Except.ok.inj hread
  exact ⟨[], rfl, fun hfirst => (List.append_nil _).symm ▸ .single hfirst⟩

theorem readArgs_derived (hclosing : ∀ more, ts = .closing :: more → False)
    (harg : ReadsDerived .union values ts (readUnion text values ts))
    (hmore : ∀ (arg : Reading Hint (weightAll ts)) (rest : List Token), arg.rest = .comma :: rest →
      ReadsArgs values rest (readArgs text values rest)) :
    ReadsArgs values ts (readArgs text values ts) := by
  intro read hread
  rw [readArgs.eq_2 _ _ _ hclosing] at hread
  obtain ⟨arg, hargok, hread⟩ := bind_eq_ok.1 hread
  obtain ⟨us, heq, hderives⟩ := harg arg hargok
  split at hread
  · next rest hrest =>
    obtain ⟨more, hmoreok, hread⟩ := bind_eq_ok.1 hread
    obtain rfl := Except.ok.inj hread
    obtain ⟨vs, hvs, hargs⟩ := hmore arg rest hrest more hmoreok
    refine ⟨us ++ .comma :: vs, ?_, .comma hderives hargs⟩
    exact eq_append_of_rest heq (hrest.trans (congrArg (.comma :: ·) hvs))
  · next rest hrest =>
    obtain rfl := Except.ok.inj hread
    exact ⟨us, heq.trans (congrArg (us ++ ·) hrest), .last hderives⟩
  · cases hread

theorem readPrimary_subscript_derived {head : String}
    (hargs : ReadsArgs (takesValues head) rest (readArgs text (takesValues head) rest)) :
    ReadsDerived .primary values (.name head :: .opening :: rest)
      (readPrimary text values (.name head :: .opening :: rest)) := by
  intro read hread
  rw [readPrimary] at hread
  obtain ⟨args, hok, hread⟩ := bind_eq_ok.1 hread
  obtain rfl := Except.ok.inj hread
  obtain ⟨us, heq, hderives⟩ := hargs args hok
  exact ⟨_, by simp [heq], .subscript hderives⟩

theorem readPrimary_list_derived (hitems : ReadsArgs values rest (readArgs text values rest)) :
    ReadsDerived .primary values (.opening :: rest) (readPrimary text values (.opening :: rest)) := by
  intro read hread
  rw [readPrimary] at hread
  obtain ⟨items, hok, hread⟩ := bind_eq_ok.1 hread
  obtain rfl := Except.ok.inj hread
  obtain ⟨us, heq, hderives⟩ := hitems items hok
  exact ⟨_, by simp [heq], .list hderives⟩

theorem readPrimary_quoted_derived {mark : Char} {inner : String}
    (hsaid : ¬ values = true → ∀ us, tokenize inner = .ok us → ∀ h, readAll inner us = .ok h →
      Derives .union false us [h]) :
    ReadsDerived .primary values (.quoted mark inner :: rest)
      (readPrimary text values (.quoted mark inner :: rest)) := by
  intro read hread
  rw [readPrimary] at hread
  split at hread
  · next hvalues =>
    obtain rfl := Except.ok.inj hread
    exact ⟨[.quoted mark inner], rfl, hvalues ▸ Derives.value mark inner⟩
  · next hvalues =>
    split at hread
    · cases hread
    · next us hus =>
      obtain ⟨said, hok, hread⟩ := bind_eq_ok.1 hread
      obtain rfl := Except.ok.inj hread
      exact ⟨[.quoted mark inner], rfl, Bool.eq_false_iff.2 hvalues ▸ Derives.quoted hus (hsaid hvalues us hus said hok)⟩

/-- **What is read is derived.** -/
theorem reads_derived :
    (∀ text ts h, readAll text ts = .ok h → Derives .union false ts [h]) ∧
    (∀ text values ts, ReadsDerived .union values ts (readUnion text values ts)) ∧
    (∀ text values ts, ReadsMembers values ts (readMembers text values ts)) ∧
    (∀ text values ts, ReadsDerived .primary values ts (readPrimary text values ts)) ∧
    (∀ text values ts, ReadsArgs values ts (readArgs text values ts)) := by
  apply readAll.mutual_induct
  case case1 => exact fun _ ts hempty h => readAll_derived fun h => absurd hempty h
  case case2 => exact fun _ ts _ hunion h => readAll_derived fun _ => hunion
  case case3 => exact fun _ _ _ => readUnion_derived
  case case4 => exact fun _ _ _ => readMembers_derived
  case case5 => exact fun _ _ _ => readMembers_end_derived
  case case6 => exact fun _ _ _ _ => readPrimary_subscript_derived
  case case7 =>
    intro text values path rest hopening read hread
    rw [readPrimary.eq_2 _ _ _ _ hopening] at hread
    obtain rfl := Except.ok.inj hread
    exact ⟨_, rfl, .name path⟩
  case case8 => exact fun _ _ _ _ => readPrimary_quoted_derived fun hvalues => absurd rfl hvalues
  case case9 =>
    intro text values mark inner rest _ problem hproblem
    refine readPrimary_quoted_derived fun _ us hus => ?_
    rw [hproblem] at hus
    cases hus
  case case10 =>
    intro text values mark inner rest _ ts hts hsaid
    refine readPrimary_quoted_derived fun _ us hus => ?_
    rw [hts] at hus
    exact Except.ok.inj hus ▸ hsaid
  case case11 =>
    intro text values digits rest read hread
    rw [readPrimary] at hread
    obtain rfl := Except.ok.inj hread
    exact ⟨_, rfl, .number digits⟩
  case case12 =>
    intro text values rest read hread
    rw [readPrimary] at hread
    obtain rfl := Except.ok.inj hread
    exact ⟨_, rfl, .ellipsis⟩
  case case13 => exact fun _ _ _ => readPrimary_list_derived
  case case14 =>
    intro text values ts h1 h2 h3 h4 h5 h6 read hread
    rw [readPrimary.eq_7 _ _ _ h1 h2 h3 h4 h5 h6] at hread
    cases hread
  case case15 =>
    intro text values rest read hread
    rw [readArgs] at hread
    obtain rfl := Except.ok.inj hread
    exact ⟨[], rfl, .none⟩
  case case16 => exact fun _ _ _ => readArgs_derived

/-! ### What is derived is read -/

/-- Whether a reader answers with a value and leaves some tokens over. -/
def Gives {α : Type} {bound : Nat} (outcome : Except Problem (Reading α bound)) (value : α)
    (rest : List Token) : Prop :=
  ∃ read, outcome = .ok read ∧ read.value = value ∧ read.rest = rest

section Gives

variable {middle : List Token} {h : Hint} {hs : List Hint}

theorem readPrimary_name (path : String) (hopening : ∀ more, rest = .opening :: more → False) :
    Gives (readPrimary text values (.name path :: rest)) (.name path) rest :=
  ⟨_, readPrimary.eq_2 _ _ _ _ hopening, rfl, rfl⟩

theorem readPrimary_number (digits : String) :
    Gives (readPrimary text values (.number digits :: rest)) (.literal digits) rest := by
  rw [readPrimary]
  exact ⟨_, rfl, rfl, rfl⟩

theorem readPrimary_ellipsis :
    Gives (readPrimary text values (.ellipsis :: rest)) (.literal "...") rest := by
  rw [readPrimary]
  exact ⟨_, rfl, rfl, rfl⟩

theorem readPrimary_value (mark : Char) (inner : String) :
    Gives (readPrimary text true (.quoted mark inner :: rest))
      (.literal (Token.quotedText mark inner)) rest := by
  rw [readPrimary, if_pos rfl]
  exact ⟨_, rfl, rfl, rfl⟩

theorem readPrimary_subscript {head : String}
    (hargs : Gives (readArgs text (takesValues head) ts) hs rest) :
    Gives (readPrimary text values (.name head :: .opening :: ts)) (.subscript head hs) rest := by
  obtain ⟨args, hok, rfl, rfl⟩ := hargs
  rw [readPrimary, hok]
  exact ⟨_, rfl, rfl, rfl⟩

theorem readPrimary_list (hitems : Gives (readArgs text values ts) hs rest) :
    Gives (readPrimary text values (.opening :: ts)) (.list hs) rest := by
  obtain ⟨items, hok, rfl, rfl⟩ := hitems
  rw [readPrimary, hok]
  exact ⟨_, rfl, rfl, rfl⟩

theorem readPrimary_quoted {mark : Char} {inner : String} (htokens : tokenize inner = .ok ts)
    (hsaid : readAll inner ts = .ok h) :
    Gives (readPrimary text false (.quoted mark inner :: rest)) h rest := by
  rw [readPrimary]
  split
  · next hvalues => cases hvalues
  split
  · next problem hproblem =>
    rw [htokens] at hproblem
    cases hproblem
  · next us hus =>
    obtain rfl := Except.ok.inj (htokens.symm.trans hus)
    rw [hsaid]
    exact ⟨_, rfl, rfl, rfl⟩

theorem readMembers_end (hbar : ∀ more, rest = .bar :: more → False) :
    Gives (readMembers text values rest) [] rest :=
  ⟨_, readMembers.eq_2 _ _ _ hbar, rfl, rfl⟩

theorem readMembers_bar (hmember : Gives (readPrimary text values ts) h middle)
    (hmore : Gives (readMembers text values middle) hs rest) :
    Gives (readMembers text values (.bar :: ts)) (h :: hs) rest := by
  obtain ⟨member, hok, rfl, rfl⟩ := hmember
  obtain ⟨more, hmoreok, rfl, rfl⟩ := hmore
  rw [readMembers, hok]
  simp only [bind, Except.bind, hmoreok]
  exact ⟨_, rfl, rfl, rfl⟩

theorem readUnion_members (hfirst : Gives (readPrimary text values ts) h middle)
    (hmore : Gives (readMembers text values middle) hs rest) :
    Gives (readUnion text values ts) (ofMembers h hs) rest := by
  obtain ⟨first, hok, rfl, rfl⟩ := hfirst
  obtain ⟨more, hmoreok, rfl, rfl⟩ := hmore
  rw [readUnion, hok]
  simp only [bind, Except.bind, hmoreok]
  exact ⟨_, rfl, rfl, rfl⟩

theorem readAll_union (hunion : Gives (readUnion text false ts) h []) :
    readAll text ts = .ok h := by
  obtain ⟨read, hok, rfl, hrest⟩ := hunion
  have hne : ¬ ts.isEmpty = true := by
    intro hempty
    obtain rfl := List.isEmpty_iff.1 hempty
    exact Nat.not_lt_zero _ read.lighter
  rw [readAll, if_neg hne, hok]
  simp only [bind, Except.bind, hrest]
  rfl

theorem readArgs_none : Gives (readArgs text values (.closing :: rest)) [] rest := by
  rw [readArgs]
  exact ⟨_, rfl, rfl, rfl⟩

/-- Nothing starts with a closing bracket. -/
theorem ne_closing_of_readUnion (h : Gives (readUnion text values ts) h middle) (more : List Token) :
    ts = .closing :: more → False := by
  rintro rfl
  obtain ⟨read, hok, -⟩ := h
  rw [readUnion] at hok
  obtain ⟨first, hfirst, -⟩ := bind_eq_ok.1 hok
  rw [readPrimary.eq_7 _ _ _ (by simp) (by simp) (by simp) (by simp) (by simp) (by simp)] at hfirst
  cases hfirst

theorem readArgs_last (harg : Gives (readUnion text values ts) h (.closing :: rest)) :
    Gives (readArgs text values ts) [h] rest := by
  have hclosing := ne_closing_of_readUnion harg
  obtain ⟨arg, hok, rfl, hrest⟩ := harg
  rw [readArgs.eq_2 _ _ _ hclosing, hok]
  simp only [bind, Except.bind]
  split
  · next hcomma => cases hrest.symm.trans hcomma
  · next hclosed =>
    cases hrest.symm.trans hclosed
    exact ⟨_, rfl, rfl, rfl⟩
  · next hother => exact (hother _ hrest).elim

theorem readArgs_comma (harg : Gives (readUnion text values ts) h (.comma :: middle))
    (hmore : Gives (readArgs text values middle) hs rest) :
    Gives (readArgs text values ts) (h :: hs) rest := by
  have hclosing := ne_closing_of_readUnion harg
  obtain ⟨arg, hok, rfl, hrest⟩ := harg
  obtain ⟨more, hmoreok, rfl, rfl⟩ := hmore
  rw [readArgs.eq_2 _ _ _ hclosing, hok]
  simp only [bind, Except.bind]
  split
  · next hcomma =>
    cases hrest.symm.trans hcomma
    rw [hmoreok]
    exact ⟨_, rfl, rfl, rfl⟩
  · next hclosed => cases hrest.symm.trans hclosed
  · next hother _ => exact (hother _ hrest).elim

end Gives

/-- Whether a phrase ends before tokens: a bracket makes a name go on, and a bar makes a union. -/
def EndsBefore (phrase : Phrase) (rest : List Token) : Prop :=
  (∀ more, rest = .opening :: more → False) ∧
    (phrase = .primary ∨ ∀ more, rest = .bar :: more → False)

theorem endsBefore_nil (phrase : Phrase) : EndsBefore phrase [] := ⟨by simp, .inr (by simp)⟩

theorem endsBefore_closing (phrase : Phrase) : EndsBefore phrase (.closing :: rest) :=
  ⟨by simp, .inr (by simp)⟩

theorem endsBefore_comma (phrase : Phrase) : EndsBefore phrase (.comma :: rest) :=
  ⟨by simp, .inr (by simp)⟩

theorem endsBefore_bar : EndsBefore .primary (.bar :: rest) := ⟨by simp, .inl rfl⟩

/-- Whether the reader of a phrase finds it at the front of `ts` and leaves `rest` over.  The reader of
arguments takes the bracket behind them along. -/
def Phrase.Reads (text : String) (values : Bool) (ts : List Token) (hs : List Hint)
    (rest : List Token) : Phrase → Prop
  | .primary => ∃ h, hs = [h] ∧ Gives (readPrimary text values ts) h rest
  | .members => ∃ h more middle, hs = h :: more ∧ Gives (readPrimary text values ts) h middle ∧
      Gives (readMembers text values middle) more rest
  | .union => ∃ h, hs = [h] ∧ Gives (readUnion text values ts) h rest
  | .args => ∀ behind, rest = .closing :: behind → Gives (readArgs text values ts) hs behind

/-- **What is derived is read.** -/
theorem Derives.reads {phrase : Phrase} {values : Bool} {ts : List Token} {hs : List Hint}
    (hderives : Derives phrase values ts hs) (text : String) {rest : List Token}
    (hends : EndsBefore phrase rest) : phrase.Reads text values (ts ++ rest) hs rest := by
  induction hderives generalizing text rest with
  | name path => exact ⟨_, rfl, readPrimary_name path hends.1⟩
  | subscript args ih =>
    rw [List.cons_append, List.cons_append, List.append_assoc]
    exact ⟨_, rfl, readPrimary_subscript (ih text (endsBefore_closing _) rest rfl)⟩
  | number digits => exact ⟨_, rfl, readPrimary_number digits⟩
  | ellipsis => exact ⟨_, rfl, readPrimary_ellipsis⟩
  | list items ih =>
    rw [List.cons_append, List.cons_append, List.append_assoc]
    exact ⟨_, rfl, readPrimary_list (ih text (endsBefore_closing _) rest rfl)⟩
  | value mark inner => exact ⟨_, rfl, readPrimary_value mark inner⟩
  | quoted htokens hsaid ih =>
    obtain ⟨_, heq, hunion⟩ := ih _ (endsBefore_nil _)
    rw [List.append_nil] at hunion
    exact ⟨_, heq, readPrimary_quoted htokens (readAll_union hunion)⟩
  | single hmember ih =>
    obtain ⟨_, heq, hread⟩ := ih text ⟨hends.1, .inl rfl⟩
    exact ⟨_, _, rest, heq, hread, readMembers_end (hends.2.resolve_left nofun)⟩
  | bar hmember hmore ihmember ihmore =>
    rw [List.append_assoc, List.cons_append]
    obtain ⟨_, heq, hread⟩ := ihmember text endsBefore_bar
    obtain ⟨next, more, middle, rfl, hnext, hmore⟩ := ihmore text hends
    cases heq
    exact ⟨_, _, _, rfl, hread, readMembers_bar hnext hmore⟩
  | union hmembers ih =>
    obtain ⟨_, _, middle, heq, hfirst, hmore⟩ :=
      ih text ⟨hends.1, .inr (hends.2.resolve_left nofun)⟩
    cases heq
    exact ⟨_, rfl, readUnion_members hfirst hmore⟩
  | none =>
    rintro behind rfl
    exact readArgs_none
  | last harg ih =>
    rintro behind rfl
    obtain ⟨_, heq, hread⟩ := ih text (endsBefore_closing _)
    cases heq
    exact readArgs_last hread
  | comma harg hmore iharg ihmore =>
    rintro behind rfl
    rw [List.append_assoc, List.cons_append]
    obtain ⟨_, heq, hread⟩ := iharg text (endsBefore_comma _)
    cases heq
    exact readArgs_comma hread (ihmore text (endsBefore_closing _) behind rfl)

/-- **A text says a hint just when its tokens derive it.** -/
theorem parse_eq_ok_iff {text : String} {h : Hint} :
    parse text = .ok h ↔ ∃ ts, tokenize text = .ok ts ∧ Derives .union false ts [h] := by
  constructor
  · intro hparse
    obtain ⟨ts, hts, hread⟩ := bind_eq_ok.1 hparse
    exact ⟨ts, hts, reads_derived.1 text ts h hread⟩
  · rintro ⟨ts, hts, hderives⟩
    obtain ⟨_, heq, hunion⟩ := hderives.reads text (endsBefore_nil _)
    cases heq
    rw [List.append_nil] at hunion
    rw [parse, hts]
    exact readAll_union hunion

end TypedStubs.Hint
