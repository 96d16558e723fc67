import TypedStubs.Hint.Basic

/-! # Names that are listed and names that are replaced

Replacing the names of a hint asks for each of them, with a state that the answers may depend on and
change.  `Renamed` says what calls make of a hint: every name gives way to the answer of its own call, in
reading order, and all else stays as it is, the arguments of a generic that takes values among it.

Replacing the names asks for just the names that the hint lists, in that order and once for each
occurrence.  The new hint lists the answers, as long as a head that takes values gives way to one that
does, and one that takes none to one that takes none (`mapNamesM_asks_names`).
-/
namespace TypedStubs.Hint

/-- A name that was asked for, and the answer. -/
structure Call where
  /-- The name. -/
  asked : String
  /-- The answer. -/
  answer : String
  deriving DecidableEq

mutual
/-- Whether calls make one hint of another. -/
inductive Renamed : Hint → List Call → Hint → Prop where
  /-- A name gives way to the answer. -/
  | name (call : Call) : Renamed (.name call.asked) [call] (.name call.answer)
  /-- The head of a generic that takes values gives way to the answer, and the values stay. -/
  | values {args : List Hint} (call : Call) (takes : takesValues call.asked = true) :
    Renamed (.subscript call.asked args) [call] (.subscript call.answer args)
  /-- The head of another generic gives way to the answer, and the arguments follow. -/
  | subscript {args renamed : List Hint} {calls : List Call} (call : Call)
    (takes : takesValues call.asked = false) (inside : RenamedAll args calls renamed) :
    Renamed (.subscript call.asked args) (call :: calls) (.subscript call.answer renamed)
  /-- A list stays one. -/
  | list {items renamed : List Hint} {calls : List Call} (inside : RenamedAll items calls renamed) :
    Renamed (.list items) calls (.list renamed)
  /-- A union stays one. -/
  | union {members renamed : List Hint} {calls : List Call}
    (inside : RenamedAll members calls renamed) : Renamed (.union members) calls (.union renamed)
  /-- A literal stays as it is. -/
  | literal (text : String) : Renamed (.literal text) [] (.literal text)

/-- Whether calls make some hints of others, one for one. -/
inductive RenamedAll : List Hint → List Call → List Hint → Prop where
  /-- No hint takes a call. -/
  | nil : RenamedAll [] [] []
  /-- The calls of the first hint come first. -/
  | cons {h renamed : Hint} {hs more : List Hint} {calls others : List Call}
    (first : Renamed h calls renamed) (rest : RenamedAll hs others more) :
    RenamedAll (h :: hs) (calls ++ others) (renamed :: more)
end

mutual
/-- For each name that a hint lists, in reading order, whether it is the head of a generic. -/
def heads : Hint → List Bool
  | .name _ => [false]
  | .subscript head args => true :: if takesValues head then [] else headsAll args
  | .list items => headsAll items
  | .union members => headsAll members
  | .literal _ => []

/-- For each name that hints list, whether it is the head of a generic. -/
def headsAll : List Hint → List Bool
  | [] => []
  | h :: hs => heads h ++ headsAll hs
end

/-- Whether the heads among calls take values just when their answers do. -/
def KeepHeads (heads : List Bool) (calls : List Call) : Prop :=
  ∀ p ∈ heads.zip calls, p.1 = true → takesValues p.2.answer = takesValues p.2.asked

instance (heads : List Bool) (calls : List Call) : Decidable (KeepHeads heads calls) :=
  inferInstanceAs (Decidable
    (∀ p ∈ heads.zip calls, p.1 = true → takesValues p.2.answer = takesValues p.2.asked))

/-! ### What calls make of a hint -/

mutual
/-- The calls ask for the names that the hint lists. -/
theorem Renamed.asked {h renamed : Hint} {calls : List Call} :
    Renamed h calls renamed → calls.map Call.asked = h.names
  | .name _ => rfl
  | .values _ takes => by simp [names, takes]
  | .subscript _ takes inside => by simp [names, takes, inside.asked]
  | .list inside => inside.asked
  | .union inside => inside.asked
  | .literal _ => rfl

theorem RenamedAll.asked {hs renamed : List Hint} {calls : List Call} :
    RenamedAll hs calls renamed → calls.map Call.asked = namesAll hs
  | .nil => rfl
  | .cons first rest => by rw [List.map_append, first.asked, rest.asked, namesAll]
end

mutual
theorem length_heads : ∀ h : Hint, h.heads.length = h.names.length
  | .name _ | .literal _ => rfl
  | .subscript head args => by
    by_cases htakes : takesValues head = true <;> simp [heads, names, htakes, length_headsAll args]
  | .list items => length_headsAll items
  | .union members => length_headsAll members

theorem length_headsAll : ∀ hs : List Hint, (headsAll hs).length = (namesAll hs).length
  | [] => rfl
  | h :: hs => by simp [headsAll, namesAll, length_heads h, length_headsAll hs]
end

theorem keepHeads_append {flags flags' : List Bool} {calls others : List Call}
    (hlength : flags.length = calls.length) :
    KeepHeads (flags ++ flags') (calls ++ others) ↔ KeepHeads flags calls ∧ KeepHeads flags' others := by
  simp only [KeepHeads, List.zip_append hlength, List.forall_mem_append]

theorem keepHeads_head {flags : List Bool} {calls : List Call} {call : Call} :
    KeepHeads (true :: flags) (call :: calls) ↔
      takesValues call.answer = takesValues call.asked ∧ KeepHeads flags calls := by
  simp [KeepHeads]

theorem Renamed.length_heads {h renamed : Hint} {calls : List Call}
    (hcalls : Renamed h calls renamed) : h.heads.length = calls.length := by
  rw [Hint.length_heads, ← hcalls.asked, List.length_map]

mutual
/-- The new hint lists the answers, if heads go on to take values or to take none. -/
theorem Renamed.names_eq {h renamed : Hint} {calls : List Call} :
    Renamed h calls renamed → KeepHeads h.heads calls → renamed.names = calls.map Call.answer
  | .name _, _ => rfl
  | .values call takes, hkeep => by
    rw [heads, if_pos takes] at hkeep
    -- a head that took no values any more would lay the names among the values open
    have htakes : takesValues call.answer = true := (keepHeads_head.1 hkeep).1.trans takes
    simp [names, htakes]
  | .subscript call takes inside, hkeep => by
    rw [heads, if_neg (by simp [takes])] at hkeep
    -- and one that began to take values would hide the answers behind it
    obtain ⟨hhead, hinside⟩ := keepHeads_head.1 hkeep
    have htakes : takesValues call.answer = false := hhead.trans takes
    simp [names, htakes, inside.names_eq hinside]
  | .list inside, hkeep => inside.names_eq hkeep
  | .union inside, hkeep => inside.names_eq hkeep
  | .literal _, _ => rfl

theorem RenamedAll.names_eq {hs renamed : List Hint} {calls : List Call} :
    RenamedAll hs calls renamed → KeepHeads (headsAll hs) calls →
      namesAll renamed = calls.map Call.answer
  | .nil, _ => rfl
  | .cons first rest, hkeep => by
    rw [headsAll, keepHeads_append first.length_heads] at hkeep
    rw [namesAll, first.names_eq hkeep.1, rest.names_eq hkeep.2, List.map_append]
end

/-! ### The calls of a run -/

section Run

variable {σ : Type} {f : String → StateM σ String} {s s' s'' : σ}

/-- Asking for a name as `f` does, with a note of the call. -/
def noting (f : String → StateM σ String) (name : String) : StateM (σ × List Call) String :=
  fun (s, calls) =>
    let (answer, s) := (f name).run s
    (answer, s, calls ++ [⟨name, answer⟩])

/-- Whether the answers of calls are those of `f`, asked one after the other from `s` on to `s'`. -/
def Answers (f : String → StateM σ String) : σ → List Call → σ → Prop
  | s, [], s' => s = s'
  | s, call :: calls, s' =>
    ∃ middle, (f call.asked).run s = (call.answer, middle) ∧ Answers f middle calls s'

/-- Whether an action makes these calls from `s` on: with notes of them it goes the same way and adds
them, and their answers are those of `f`. -/
structure Asks {α : Type} (f : String → StateM σ String) (s : σ) (plain : StateM σ α)
    (noted : StateM (σ × List Call) α) (calls : List Call) (a : α) (s' : σ) : Prop where
  /-- What the action gives. -/
  plain_run : plain.run s = (a, s')
  /-- What it gives with notes. -/
  noted_run : ∀ earlier, noted.run (s, earlier) = (a, s', earlier ++ calls)
  /-- The answers are those of `f`. -/
  answers : Answers f s calls s'

theorem Answers.append {calls others : List Call} (h : Answers f s calls s')
    (h' : Answers f s' others s'') : Answers f s (calls ++ others) s'' := by
  induction calls generalizing s with
  | nil =>
    obtain rfl : s = s' := h
    exact h'
  | cons call calls ih =>
    obtain ⟨middle, hcall, hrest⟩ := h
    exact ⟨middle, hcall, ih hrest⟩

theorem asks_pure {α : Type} (a : α) (s : σ) : Asks f s (pure a) (pure a) [] a s :=
  ⟨rfl, fun earlier => by rw [List.append_nil]; rfl, rfl⟩

theorem asks_call (name : String) (s : σ) :
    Asks f s (f name) (noting f name) [⟨name, ((f name).run s).1⟩] ((f name).run s).1
      ((f name).run s).2 :=
  ⟨rfl, fun _ => rfl, _, rfl, rfl⟩

theorem Asks.bind {α β : Type} {plain : StateM σ α} {noted : StateM (σ × List Call) α}
    {next : α → StateM σ β} {notedNext : α → StateM (σ × List Call) β} {calls others : List Call}
    {a : α} {b : β} (h : Asks f s plain noted calls a s')
    (h' : Asks f s' (next a) (notedNext a) others b s'') :
    Asks f s (plain >>= next) (noted >>= notedNext) (calls ++ others) b s'' where
  plain_run := by rw [StateT.run_bind, h.plain_run]; exact h'.plain_run
  noted_run earlier := by
    rw [StateT.run_bind, h.noted_run, ← List.append_assoc]
    exact h'.noted_run _
  answers := h.answers.append h'.answers

/-- What is made of the result of an action asks for no more. -/
theorem Asks.map {α β : Type} {plain : StateM σ α} {noted : StateM (σ × List Call) α}
    {calls : List Call} {a : α} (h : Asks f s plain noted calls a s') (g : α → β) :
    Asks f s (plain >>= fun a => pure (g a)) (noted >>= fun a => pure (g a)) calls (g a) s' where
  plain_run := by rw [StateT.run_bind, h.plain_run]; rfl
  noted_run earlier := by rw [StateT.run_bind, h.noted_run]; rfl
  answers := h.answers

variable (f)

mutual
/-- Replacing the names of a hint asks for them. -/
theorem mapNamesM_asks : ∀ (h : Hint) (s : σ), ∃ calls renamed s',
    Asks f s (mapNamesM f h) (mapNamesM (noting f) h) calls renamed s' ∧ Renamed h calls renamed
  | .name path, s => ⟨_, _, _, (asks_call path s).map Hint.name, .name ⟨path, _⟩⟩
  | .subscript head args, s => by
    rw [mapNamesM, mapNamesM]
    have hhead := asks_call (f := f) head s
    cases htakes : takesValues head with
    | true => exact ⟨_, _, _, hhead.map (subscript · args), .values ⟨head, _⟩ htakes⟩
    | false =>
      -- the arguments are asked for in the state that the head leaves
      obtain ⟨calls, renamed, s', hasks, hinside⟩ := mapNamesAllM_asks args ((f head).run s).2
      exact ⟨_, _, _, hhead.bind (hasks.map (subscript _)), .subscript ⟨head, _⟩ htakes hinside⟩
  | .list items, s => by
    obtain ⟨calls, renamed, s', hasks, hinside⟩ := mapNamesAllM_asks items s
    exact ⟨_, _, _, hasks.map Hint.list, .list hinside⟩
  | .union members, s => by
    obtain ⟨calls, renamed, s', hasks, hinside⟩ := mapNamesAllM_asks members s
    exact ⟨_, _, _, hasks.map Hint.union, .union hinside⟩
  | .literal text, s => ⟨_, _, _, asks_pure _ s, .literal text⟩

theorem mapNamesAllM_asks : ∀ (hs : List Hint) (s : σ), ∃ calls renamed s',
    Asks f s (mapNamesAllM f hs) (mapNamesAllM (noting f) hs) calls renamed s' ∧
      RenamedAll hs calls renamed
  | [], s => ⟨_, _, _, asks_pure _ s, .nil⟩
  | h :: hs, s => by
    obtain ⟨calls, renamed, s', hfirst, hrenamed⟩ := mapNamesM_asks h s
    obtain ⟨others, more, s'', hrest, hmore⟩ := mapNamesAllM_asks hs s'
    exact ⟨_, _, _, hfirst.bind (hrest.map (renamed :: ·)), .cons hrenamed hmore⟩
end

/-- **Names are replaced in the order in which they are listed.**  Notes of the calls change nothing but
that they are there.  The calls ask for just the names that the hint lists, one after the other, and the
new hint is the old one with every name replaced by the answer of its call.  It lists the answers, if no
head that takes values becomes one that takes none, or the other way round. -/
theorem mapNamesM_asks_names (h : Hint) (s : σ) :
    ∃ (calls : List Call) (renamed : Hint) (s' : σ),
      (mapNamesM f h).run s = (renamed, s') ∧
      (mapNamesM (noting f) h).run (s, []) = (renamed, s', calls) ∧
      calls.map Call.asked = h.names ∧ Answers f s calls s' ∧ Renamed h calls renamed ∧
      (KeepHeads h.heads calls → renamed.names = calls.map Call.answer) := by
  obtain ⟨calls, renamed, s', hasks, hrenamed⟩ := mapNamesM_asks f h s
  exact ⟨calls, renamed, s', hasks.plain_run, hasks.noted_run [], hrenamed.asked, hasks.answers,
    hrenamed, hrenamed.names_eq⟩

/-- A hint with values in it, whose names get another module while they are counted. -/
theorem mapNamesM_asks_names_counted :
    let counted : String → StateM Nat String := fun name n => ("t." ++ name, n + 1)
    let values : List Hint := [.literal "'a'", .name "b"]
    let h : Hint := .subscript "Optional" [.union [.subscript "Literal" values, .name "lines.Line2D"]]
    let calls : List Call := [⟨"Optional", "t.Optional"⟩, ⟨"Literal", "t.Literal"⟩,
      ⟨"lines.Line2D", "t.lines.Line2D"⟩]
    KeepHeads h.heads calls ∧ (mapNamesM (noting counted) h).run (0, []) =
      (.subscript "t.Optional" [.union [.subscript "t.Literal" values, .name "t.lines.Line2D"]],
        3, calls) ∧
      ((mapNamesM counted h).run 0).1.names = calls.map Call.answer := by
  intro counted values h calls
  have hkeep : KeepHeads h.heads calls := by decide +kernel
  have hnoted : (mapNamesM (noting counted) h).run (0, []) =
      (.subscript "t.Optional" [.union [.subscript "t.Literal" values, .name "t.lines.Line2D"]],
        3, calls) := by rfl
  obtain ⟨_, _, _, hrun, hnoting, -, -, -, hnames⟩ := mapNamesM_asks_names counted h 0
  rw [hnoted] at hnoting
  cases hnoting
  exact ⟨hkeep, hnoted, hrun ▸ hnames hkeep⟩

end Run
end TypedStubs.Hint
