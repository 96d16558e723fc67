import TypedStubs.Proofs.Syntax.Expression

/-! # What rules read, step by step

Each way to put rules together has a lemma that says when the result reads something, so that a rule
can be followed through the tokens it is given and a reading can be taken apart.
-/
namespace TypedStubs.Syntax.Rule

variable {α β : Type} {ts rest : List Token}

@[simp] theorem read_pure (a : α) (ts : List Token) :
    (Pure.pure a : Rule α).read ts = some (a, ts) := rfl

theorem read_bind (first : Rule α) (next : α → Rule β) (ts : List Token) :
    (first >>= next).read ts =
      match first.read ts with
      | some (a, mid) => (next a).read mid
      | none => none := by
  exact congrFun (run_bind _ first next) ts

theorem run_bind_eq_some {inner : Entry → Reader Expr} {first : Rule α} {next : α → Rule β} {b : β} :
    (first >>= next).run inner ts = some (b, rest) ↔
      ∃ a mid, first.run inner ts = some (a, mid) ∧ (next a).run inner mid = some (b, rest) := by
  simp only [Bind.bind, run_bind]
  constructor
  · intro h
    split at h
    · next a mid hmid => exact ⟨a, mid, hmid, h⟩
    · cases h
  · rintro ⟨a, mid, hmid, h⟩
    rw [hmid]
    exact h

theorem read_bind_eq_some {first : Rule α} {next : α → Rule β} {b : β} :
    (first >>= next).read ts = some (b, rest) ↔
      ∃ a mid, first.read ts = some (a, mid) ∧ (next a).read mid = some (b, rest) := run_bind_eq_some

theorem read_discard_eq_some {r : Rule α} {u : PUnit} :
    (discard r).read ts = some (u, rest) ↔ ∃ a, r.read ts = some (a, rest) := by
  have h : discard r = r >>= fun _ => Pure.pure PUnit.unit := rfl
  rw [h, read_bind_eq_some]
  constructor
  · rintro ⟨a, mid, hmid, h⟩
    obtain ⟨-, rfl⟩ := Prod.mk.inj (Option.some.inj h)
    exact ⟨a, hmid⟩
  · rintro ⟨a, hmid⟩
    exact ⟨a, rest, hmid, rfl⟩

theorem run_take_eq_some {inner : Entry → Reader Expr} {p : Lexeme → Bool} {l : Lexeme} :
    (Rule.take p).run inner ts = some (l, rest) ↔ ∃ t, ts = t :: rest ∧ t.toLexeme = l ∧ p l = true := by
  cases ts with
  | nil => simp [run]
  | cons t ts =>
    simp only [run, Option.ite_none_right_eq_some, Option.some.injEq, Prod.mk.injEq,
      List.cons.injEq]
    constructor
    · rintro ⟨hp, rfl, rfl⟩
      exact ⟨t, ⟨rfl, rfl⟩, rfl, hp⟩
    · rintro ⟨t', ⟨rfl, rfl⟩, rfl, hp⟩
      exact ⟨hp, rfl, rfl⟩

theorem read_take_eq_some {p : Lexeme → Bool} {l : Lexeme} :
    (Rule.take p).read ts = some (l, rest) ↔ ∃ t, ts = t :: rest ∧ t.toLexeme = l ∧ p l = true :=
  run_take_eq_some

theorem read_symbol_eq_some {s : String} {u : Unit} :
    (symbol s).read ts = some (u, rest) ↔ ∃ t, ts = t :: rest ∧ t.isSymbol s = true := by
  rw [symbol, read_discard_eq_some]
  simp only [read_take_eq_some]
  constructor
  · rintro ⟨l, t, rfl, rfl, hl⟩
    exact ⟨t, rfl, hl⟩
  · rintro ⟨t, rfl, ht⟩
    exact ⟨t.toLexeme, t, rfl, rfl, ht⟩

theorem read_word_eq_some {w : String} {u : Unit} :
    (word w).read ts = some (u, rest) ↔ ∃ t, ts = t :: rest ∧ t.isWord w = true := by
  rw [word, read_discard_eq_some]
  simp only [read_take_eq_some]
  constructor
  · rintro ⟨l, t, rfl, rfl, hl⟩
    exact ⟨t, rfl, hl⟩
  · rintro ⟨t, rfl, ht⟩
    exact ⟨t.toLexeme, t, rfl, rfl, ht⟩

theorem read_anyWord_eq_some {name : String} :
    anyWord.read ts = some (name, rest) ↔ ∃ t, ts = t :: rest ∧ t.kind = .word ∧ t.text = name := by
  rw [anyWord, read_bind_eq_some]
  simp only [read_take_eq_some, beq_iff_eq]
  constructor
  · rintro ⟨l, mid, ⟨t, rfl, rfl, hkind⟩, h⟩
    obtain ⟨rfl, rfl⟩ := Prod.mk.inj (Option.some.inj h)
    exact ⟨t, rfl, hkind, rfl⟩
  · rintro ⟨t, rfl, hkind, rfl⟩
    exact ⟨t.toLexeme, rest, ⟨t, rfl, rfl, hkind⟩, rfl⟩

@[simp] theorem read_ahead (a : Ahead) (ts : List Token) :
    (Rule.ahead a).read ts = some (a.holds ts, ts) := rfl

theorem run_withText_eq_some {inner : Entry → Reader Expr} {r : Rule α} {text : String} {a : α} :
    (Rule.withText r).run inner ts = some ((text, a), rest) ↔
      r.run inner ts = some (a, rest) ∧ text = textSince ts rest := by
  simp only [run]
  constructor
  · intro h
    split at h
    · next b mid hmid =>
      simp only [Option.some.injEq, Prod.mk.injEq] at h
      obtain ⟨⟨rfl, rfl⟩, rfl⟩ := h
      exact ⟨hmid, rfl⟩
    · cases h
  · rintro ⟨h, rfl⟩
    rw [h]

theorem read_withText_eq_some {r : Rule α} {text : String} {a : α} :
    (Rule.withText r).read ts = some ((text, a), rest) ↔
      r.read ts = some (a, rest) ∧ text = textSince ts rest := run_withText_eq_some

/-- What is read once more. -/
theorem read_many_cons {go : Ahead} {r : Rule α} {a : α} {mid : List Token} {more : List α}
    (hgo : go.holds ts = true) (hread : r.read ts = some (a, mid)) (hlt : mid.length < ts.length)
    (hmore : (Rule.many go r).read mid = some (more, rest)) :
    (Rule.many go r).read ts = some (a :: more, rest) := by
  simp only [Rule.read, run] at hread hmore ⊢
  rw [manyFrom, if_pos hgo, hread]
  simp only [if_pos hlt, hmore]

theorem read_many_stop {go : Ahead} (hgo : go.holds ts = false) (r : Rule α) :
    (Rule.many go r).read ts = some ([], ts) := by
  simp only [Rule.read, run]
  rw [manyFrom, if_neg (by simp [hgo])]

/-- What is read as often as the tokens ahead ask for it. -/
theorem read_many_eq_some {go : Ahead} {r : Rule α} {as : List α} :
    (Rule.many go r).read ts = some (as, rest) ↔
      (go.holds ts = false ∧ as = [] ∧ rest = ts) ∨
      (go.holds ts = true ∧ ∃ a mid more, r.read ts = some (a, mid) ∧ mid.length < ts.length ∧
        (Rule.many go r).read mid = some (more, rest) ∧ as = a :: more) := by
  cases hgo : go.holds ts with
  | false =>
    rw [read_many_stop hgo]
    simp [eq_comm]
  | true =>
    simp only [Bool.true_eq_false, false_and, true_and, false_or]
    constructor
    · intro h
      simp only [Rule.read, run] at h ⊢
      rw [manyFrom, if_pos hgo] at h
      split at h
      · next a mid hmid =>
        split at h
        · next hlt =>
          split at h
          · next more after hmore =>
            obtain ⟨rfl, rfl⟩ := Prod.mk.inj (Option.some.inj h)
            exact ⟨a, mid, more, hmid, hlt, hmore, rfl⟩
          · cases h
        · cases h
      · cases h
    · rintro ⟨a, mid, more, hread, hlt, hmore, rfl⟩
      exact read_many_cons hgo hread hlt hmore

/-- What is read once for each of some pieces. -/
theorem read_many_pieces {E : List Token → Prop} {go : Ahead} {r : Rule α} {pieces : List (List Token × α)}
    (hne : ∀ p ∈ pieces, p.1 ≠ []) (hahead : ∀ p ∈ pieces, ∀ g, E (p.1 ++ g) ∧ go.holds (p.1 ++ g) = true)
    (hread : ∀ p ∈ pieces, ∀ g, E g → r.read (p.1 ++ g) = some (p.2, g)) {g : List Token} (hg : E g)
    (hstop : go.holds g = false) :
    (Rule.many go r).read (pieces.flatMap (·.1) ++ g) = some (pieces.map (·.2), g) := by
  induction pieces with
  | nil => exact read_many_stop hstop r
  | cons p pieces ih =>
    have hmore := ih (fun q hq => hne q (List.mem_cons_of_mem _ hq))
      (fun q hq => hahead q (List.mem_cons_of_mem _ hq)) (fun q hq => hread q (List.mem_cons_of_mem _ hq))
    have hrest : E (pieces.flatMap (·.1) ++ g) := by
      cases pieces with
      | nil => exact hg
      | cons q pieces => simpa using (hahead q (by simp) (pieces.flatMap (·.1) ++ g)).1
    have hfirst := hread p List.mem_cons_self _ hrest
    have hlt := List.length_pos_iff.2 (hne p List.mem_cons_self)
    rw [List.flatMap_cons, List.append_assoc]
    refine read_many_cons (hahead p List.mem_cons_self _).2 hfirst ?_ hmore
    simp only [List.length_append]
    omega

theorem read_require {c : Bool} (h : c = true) (ts : List Token) :
    (require c).read ts = some ((), ts) := by
  rw [require, if_pos h]
  rfl

/-- A symbol that is next is taken. -/
theorem read_takeSymbol_cons (s : String) (t : Token) (ts : List Token) :
    (takeSymbol s).read (t :: ts) = some (t.isSymbol s, if t.isSymbol s then ts else t :: ts) := by
  simp only [takeSymbol, atSymbol, atToken, read_bind, read_ahead, Ahead.holds]
  cases h : t.isSymbol s
  · rfl
  · have : (symbol s).read (t :: ts) = some ((), ts) := read_symbol_eq_some.2 ⟨t, rfl, h⟩
    simp only [if_true, read_bind, this]
    rfl

/-- A word that is next is taken. -/
theorem read_takeWord_cons (w : String) (t : Token) (ts : List Token) :
    (takeWord w).read (t :: ts) = some (t.isWord w, if t.isWord w then ts else t :: ts) := by
  simp only [takeWord, atWord, atToken, read_bind, read_ahead, Ahead.holds]
  cases h : t.isWord w
  · rfl
  · have : (word w).read (t :: ts) = some ((), ts) := read_word_eq_some.2 ⟨t, rfl, h⟩
    simp only [if_true, read_bind, this]
    rfl

end TypedStubs.Syntax.Rule
