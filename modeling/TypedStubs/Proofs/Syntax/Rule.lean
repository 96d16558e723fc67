import TypedStubs.Syntax.Expression

/-! # What stands after a rule does not matter

A rule takes tokens off the front, and since it never takes a choice back, it looks at no token that it
leaves except the next one.  So what it reads before `g` it reads before every `g'` that it cannot go
on with either.

`Consumes` says that what is left over is an end of what was there.  `Alike` compares a reader before
`g` with a reader before `g'` as long as tokens before them stay unread; this holds of every rule
(`run_alike`).  `AlikeToEnd` also compares them when all of those tokens are taken; this needs that the
rule asks nothing that the first tokens of `g` and `g'` answer differently, so it is proved rule by
rule (`Stops`).  The gap before the first token does not matter either (`run_gapFree`).
-/
namespace TypedStubs.Syntax

variable {α β : Type}

/-! ## Readers take tokens off the front -/

/-- A reader leaves an end of the tokens it is given. -/
def Consumes (f : Reader α) : Prop := ∀ ⦃ts a rest⦄, f ts = some (a, rest) → rest <:+ ts

theorem weight_cons (t : Token) (ts : List Token) :
    weight (t :: ts) = t.chars.length + weight ts := rfl

theorem weight_append (ts us : List Token) : weight (ts ++ us) = weight ts + weight us := by
  induction ts with
  | nil => simp [weight]
  | cons t ts ih => rw [List.cons_append, weight_cons, weight_cons, ih, Nat.add_assoc]

theorem weight_le_of_suffix {ts us : List Token} (h : us <:+ ts) : weight us ≤ weight ts := by
  obtain ⟨front, rfl⟩ := h
  rw [weight_append]
  omega

namespace Rule

theorem manyFrom_consumes {go : Ahead} {f : Reader α} (hf : Consumes f) :
    Consumes (manyFrom go f) := by
  intro ts as rest h
  fun_induction manyFrom go f ts generalizing as rest with
  | case1 ts _ a mid hmid hlt more after hmore ih =>
    obtain ⟨-, rfl⟩ : a :: more = as ∧ after = rest := by simpa using h
    exact (ih hmore).trans (hf hmid)
  | case5 ts _ =>
    obtain ⟨-, rfl⟩ : [] = as ∧ ts = rest := by simpa using h
    exact List.suffix_refl _
  | _ => simp at h

theorem extendFrom_consumes {start : List Token} {go : Ahead} {f : Reader (ExprKind × List Expr)}
    (hf : Consumes f) (e : Expr) : Consumes (extendFrom start go f e) := by
  intro ts e' rest h
  fun_induction extendFrom start go f e ts with
  | case1 e ts _ kind parts mid hmid hlt ih => exact (ih h).trans (hf hmid)
  | case4 e ts _ =>
    obtain ⟨-, rfl⟩ : e = e' ∧ ts = rest := by simpa using h
    exact List.suffix_refl _
  | _ => simp at h

theorem run_bind (inner : Entry → Reader Expr) (first : Rule α) (next : α → Rule β) :
    (Rule.bind first next).run inner = fun ts =>
      match first.run inner ts with
      | some (a, rest) => (next a).run inner rest
      | none => none := by
  funext ts
  cases h : first.run inner ts <;> simp [run, h]

/-- Every rule takes tokens off the front, if the readers inside it do. -/
theorem run_consumes {inner : Entry → Reader Expr} (hin : ∀ e, Consumes (inner e)) (r : Rule α) :
    Consumes (r.run inner) := by
  induction r with
  | pure a =>
    intro ts a' rest h
    simp only [run, Option.some.injEq, Prod.mk.injEq] at h
    exact h.2 ▸ List.suffix_refl _
  | bind first next ihf ihn =>
    intro ts b rest h
    simp only [run] at h
    split at h
    · next a mid hmid => exact (ihn a h).trans (ihf hmid)
    · simp at h
  | fail => intro ts a rest h; simp [run] at h
  | take p =>
    intro ts l rest h
    cases ts with
    | nil => simp [run] at h
    | cons t ts =>
      simp only [run, Option.ite_none_right_eq_some, Option.some.injEq, Prod.mk.injEq] at h
      rw [← h.2.2]
      exact List.suffix_cons _ _
  | ahead a =>
    intro ts b rest h
    simp only [run, Option.some.injEq, Prod.mk.injEq] at h
    exact h.2 ▸ List.suffix_refl _
  | many go r ih => exact manyFrom_consumes ih
  | withText r ih =>
    intro ts a rest h
    simp only [run] at h
    split at h
    · next a' mid hmid =>
      simp only [Option.some.injEq, Prod.mk.injEq] at h
      rw [← h.2]
      exact ih hmid
    · simp at h
  | extend first go step ihf ihs =>
    intro ts e rest h
    simp only [run] at h
    split at h
    · next e' mid hmid => exact (extendFrom_consumes ihs e' h).trans (ihf hmid)
    · simp at h
  | byName named plain ihn ihp =>
    intro ts a rest h
    simp only [run] at h
    split at h
    · next a' mid hmid =>
      simp only [Option.ite_none_right_eq_some, Option.some.injEq, Prod.mk.injEq] at h
      rw [← h.2.2]
      split at hmid
      · exact ihn hmid
      · exact ihp hmid
    · simp at h
  | string r ih =>
    intro ts a rest h
    simp only [run] at h
    split at h
    · next t ts =>
      split at h
      · simp only [Option.map_eq_some_iff, Prod.mk.injEq] at h
        obtain ⟨as, -, -, rfl⟩ := h
        exact List.suffix_cons _ _
      · simp at h
    · simp at h
  | inner e => exact hin e

theorem manyFrom_congr {go : Ahead} {f f' : Reader α} {ts : List Token} (hf : Consumes f)
    (h : ∀ us, us <:+ ts → f us = f' us) : manyFrom go f ts = manyFrom go f' ts := by
  fun_induction manyFrom go f ts with
  | case1 ts hgo a mid hmid hlt more after hmore ih =>
    have hm := ih fun us hus => h us (hus.trans (hf hmid))
    rw [manyFrom, if_pos hgo, ← h ts (List.suffix_refl _), hmid]
    simp [hlt, ← hm, hmore]
  | case2 ts hgo a mid hmid hlt hmore ih =>
    have hm := ih fun us hus => h us (hus.trans (hf hmid))
    rw [manyFrom, if_pos hgo, ← h ts (List.suffix_refl _), hmid]
    simp [hlt, ← hm, hmore]
  | case3 ts hgo a mid hmid hlt =>
    rw [manyFrom, if_pos hgo, ← h ts (List.suffix_refl _), hmid]
    simp [hlt]
  | case4 ts hgo hnone => rw [manyFrom, if_pos hgo, ← h ts (List.suffix_refl _), hnone]
  | case5 ts hgo => rw [manyFrom, if_neg hgo]

theorem extendFrom_congr {start : List Token} {go : Ahead}
    {f f' : Reader (ExprKind × List Expr)} {e : Expr} {ts : List Token} (hf : Consumes f)
    (h : ∀ us, us <:+ ts → f us = f' us) :
    extendFrom start go f e ts = extendFrom start go f' e ts := by
  fun_induction extendFrom start go f e ts with
  | case1 e ts hgo kind parts mid hmid hlt ih =>
    have hm := ih fun us hus => h us (hus.trans (hf hmid))
    have step : extendFrom start go f' e ts =
        extendFrom start go f' (.node kind (textSince start mid) (e :: parts)) mid := by
      rw [extendFrom, if_pos hgo, ← h ts (List.suffix_refl _), hmid]
      simp [hlt]
    rw [step]
    exact hm
  | case2 e ts hgo kind parts mid hmid hlt =>
    rw [extendFrom, if_pos hgo, ← h ts (List.suffix_refl _), hmid]
    simp [hlt]
  | case3 e ts hgo hnone => rw [extendFrom, if_pos hgo, ← h ts (List.suffix_refl _), hnone]
  | case4 e ts hgo => rw [extendFrom, if_neg hgo]

theorem readSources_congr {f f' : Reader α} {limit : Nat} {sources : List (List Char)}
    (h : ∀ us, weight us < limit → f us = f' us) :
    readSources f limit sources = readSources f' limit sources := by
  induction sources with
  | nil => rfl
  | cons source more ih =>
    simp only [readSources, ih]
    congr 1
    funext tokens
    split
    · next hlt => rw [h tokens hlt]
    · rfl

/-- What a rule reads depends on the readers inside it only as far as they are asked about tokens with
no more characters. -/
theorem run_congr {inner inner' : Entry → Reader Expr} (hin : ∀ e, Consumes (inner e)) (r : Rule α)
    {ts : List Token} (h : ∀ e us, weight us ≤ weight ts → inner e us = inner' e us) :
    r.run inner ts = r.run inner' ts := by
  have sub : ∀ {us ts : List Token}, us <:+ ts →
      (∀ e vs, weight vs ≤ weight ts → inner e vs = inner' e vs) →
      ∀ e vs, weight vs ≤ weight us → inner e vs = inner' e vs :=
    fun hs hts e vs hvs => hts e vs (Nat.le_trans hvs (weight_le_of_suffix hs))
  induction r generalizing ts with
  | pure | fail | take | ahead => rfl
  | bind first next ihf ihn =>
    simp only [run]
    rw [← ihf h]
    split
    · next a mid hmid => exact ihn a (sub (run_consumes hin first hmid) h)
    · rfl
  | many go r ih =>
    exact manyFrom_congr (run_consumes hin r) fun us hus => ih (sub hus h)
  | withText r ih =>
    simp only [run]
    rw [ih h]
  | extend first go step ihf ihs =>
    simp only [run]
    rw [← ihf h]
    split
    · next e mid hmid =>
      have hmid := run_consumes hin first hmid
      exact extendFrom_congr (run_consumes hin step) fun us hus => ihs (sub (hus.trans hmid) h)
    · rfl
  | byName named plain ihn ihp =>
    simp only [run]
    rw [ihn h, ihp h]
  | string r ih =>
    simp only [run]
    split
    · next t ts =>
      split
      · next sources _ =>
        have hs : readSources (r.run inner) t.chars.length sources =
            readSources (r.run inner') t.chars.length sources := by
          refine readSources_congr fun us hus => ih fun e vs hvs => h e vs ?_
          rw [weight_cons]
          omega
        rw [hs]
      · rfl
    · rfl
  | inner e => exact h e ts (Nat.le_refl _)

end Rule

/-! ## Reading before something else -/

/-- Two readers read alike before `g` and `g'`: what the first one reads of tokens before `g`, the
second one reads of the same tokens before `g'`.  The tokens have at most `n` characters, and those
among them that are left satisfy `P`. -/
def Alike (P : List Token → Prop) (n : Nat) (g g' : List Token) (f f' : Reader α) : Prop :=
  ∀ ⦃us a rest⦄, weight us ≤ n → P rest → f (us ++ g) = some (a, rest ++ g) →
    f' (us ++ g') = some (a, rest ++ g')

/-- What holds of tokens that are left holds when more are left. -/
def Upward (P : List Token → Prop) : Prop := ∀ ⦃rest more⦄, rest <:+ more → P rest → P more

theorem upward_ne_nil : Upward (· ≠ []) := by
  intro rest more h hr hm
  rw [hm, List.suffix_nil] at h
  exact hr h

theorem upward_true : Upward fun _ => True := fun _ _ _ _ => trivial

/-- Tokens between a start and an end that share `g` at their end share it too. -/
theorem suffix_between {us g mid rest : List Token} (h : mid <:+ us ++ g) (hr : rest ++ g <:+ mid) :
    ∃ mid', mid = mid' ++ g ∧ mid' <:+ us ∧ rest <:+ mid' := by
  obtain ⟨x, rfl⟩ := hr
  obtain ⟨y, hy⟩ := h
  refine ⟨x ++ rest, by simp, ⟨y, ?_⟩, List.suffix_append _ _⟩
  rw [← List.append_assoc, ← List.append_assoc] at hy
  rw [← List.append_assoc]
  exact List.append_cancel_right hy

theorem textSince_append (us rest g : List Token) :
    textSince (us ++ g) (rest ++ g) = textSince us rest := by
  have hl : (us ++ g).length - (rest ++ g).length = us.length - rest.length := by
    rw [List.length_append, List.length_append]
    omega
  have ht : (us ++ g).take (us.length - rest.length) = us.take (us.length - rest.length) :=
    List.take_append_of_le_length (Nat.sub_le _ _)
  rw [textSince, takenSince, hl, ht]
  rfl

namespace Alike

variable {P : List Token → Prop} {n : Nat} {g g' : List Token}

/-- One reader after another; the second one starts on what the first one leaves. -/
theorem bind (hP : Upward P) {f f' : Reader α} {next next' : α → Reader β} (hf : Consumes f)
    (hn : ∀ a, Consumes (next a)) (h : Alike P n g g' f f')
    (hnext : ∀ a, Alike P n g g' (next a) (next' a)) :
    Alike P n g g' (fun ts => match f ts with | some (a, rest) => next a rest | none => none)
      (fun ts => match f' ts with | some (a, rest) => next' a rest | none => none) := by
  intro us b rest hw hr hrun
  simp only at hrun ⊢
  split at hrun
  · next a mid hmid =>
    obtain ⟨mid', rfl, hus, hrest⟩ := suffix_between (hf hmid) (hn a hrun)
    rw [h hw (hP hrest hr) hmid]
    exact hnext a (Nat.le_trans (weight_le_of_suffix hus) hw) hr hrun
  · simp at hrun

theorem manyFrom (hP : Upward P) {go : Ahead} {f f' : Reader α} (hf : Consumes f)
    (hgo : ∀ us, P us → go.holds (us ++ g) = go.holds (us ++ g')) (h : Alike P n g g' f f') :
    Alike P n g g' (Rule.manyFrom go f) (Rule.manyFrom go f') := by
  intro us as rest hw hr hrun
  generalize hts : us ++ g = ts at hrun
  fun_induction Rule.manyFrom go f ts generalizing us as with
  | case1 ts hyes a mid hmid hlt more after hmore ih =>
    obtain ⟨rfl, rfl⟩ : a :: more = as ∧ after = rest ++ g := by simpa using hrun
    subst hts
    obtain ⟨mid', rfl, hus, hrest⟩ :=
      suffix_between (hf hmid) (Rule.manyFrom_consumes hf hmore)
    have hmid' := h hw (hP hrest hr) hmid
    have hmore' := ih (Nat.le_trans (weight_le_of_suffix hus) hw) rfl hmore
    have hlt' : (mid' ++ g').length < (us ++ g').length := by
      simp only [List.length_append] at hlt ⊢
      omega
    rw [Rule.manyFrom, if_pos (by rw [← hgo us (hP (hrest.trans hus) hr), hyes]), hmid']
    simp only [hmore']
    rw [if_pos hlt']
  | case5 ts hno =>
    obtain ⟨rfl, rfl⟩ : [] = as ∧ ts = rest ++ g := by simpa using hrun
    obtain rfl := List.append_cancel_right hts
    rw [Rule.manyFrom, if_neg (by rw [← hgo us hr]; exact hno)]
  | _ => simp at hrun

theorem extendFrom (hP : Upward P) {start : List Token} {go : Ahead}
    {f f' : Reader (ExprKind × List Expr)} (hf : Consumes f)
    (hgo : ∀ us, P us → go.holds (us ++ g) = go.holds (us ++ g')) (h : Alike P n g g' f f')
    (e : Expr) :
    Alike P n g g' (Rule.extendFrom (start ++ g) go f e) (Rule.extendFrom (start ++ g') go f' e) := by
  intro us e' rest hw hr hrun
  generalize hts : us ++ g = ts at hrun
  fun_induction Rule.extendFrom (start ++ g) go f e ts generalizing us with
  | case1 e ts hyes kind parts mid hmid hlt ih =>
    subst hts
    obtain ⟨mid', rfl, hus, hrest⟩ :=
      suffix_between (hf hmid) (Rule.extendFrom_consumes hf _ hrun)
    have hmid' := h hw (hP hrest hr) hmid
    have hmore' := ih (Nat.le_trans (weight_le_of_suffix hus) hw) rfl hrun
    have hlt' : (mid' ++ g').length < (us ++ g').length := by
      simp only [List.length_append] at hlt ⊢
      omega
    rw [Rule.extendFrom, if_pos (by rw [← hgo us (hP (hrest.trans hus) hr), hyes]), hmid']
    simp only
    rw [if_pos hlt', textSince_append, ← textSince_append start mid' g]
    exact hmore'
  | case4 e ts hno =>
    obtain ⟨rfl, rfl⟩ : e = e' ∧ ts = rest ++ g := by simpa using hrun
    obtain rfl := List.append_cancel_right hts
    rw [Rule.extendFrom, if_neg (by rw [← hgo us hr]; exact hno)]
  | _ => simp at hrun

theorem withText {f f' : Reader α} (h : Alike P n g g' f f') :
    Alike P n g g'
      (fun ts => match f ts with | some (a, rest) => some ((textSince ts rest, a), rest) | none => none)
      (fun ts => match f' ts with
        | some (a, rest) => some ((textSince ts rest, a), rest)
        | none => none) := by
  intro us a rest hw hr hrun
  simp only at hrun ⊢
  split at hrun
  · next a' mid hmid =>
    simp only [Option.some.injEq, Prod.mk.injEq] at hrun
    obtain ⟨rfl, rfl⟩ := hrun
    rw [h hw hr hmid]
    simp only [textSince_append]
  · simp at hrun

end Alike

/-! ## Every rule, as long as tokens are left -/

/-- Tokens that do not start with the word of a loop. -/
def NoLoop (g : List Token) : Prop := g.head?.any (·.isWord "for") = false

/-- Readers of inner expressions that read alike before `g` and `g'`. -/
structure Inners (n : Nat) (g g' : List Token) (inner inner' : Entry → Reader Expr) : Prop where
  /-- They take tokens off the front. -/
  consumes : ∀ e, Consumes (inner e)
  /-- They are the same on fewer characters. -/
  same : ∀ e us, weight us < n → inner e us = inner' e us
  /-- They read alike, also when no token is left. -/
  alike : ∀ e, Alike (fun _ => True) n g g' (inner e) (inner' e)
  /-- What follows starts no loop. -/
  left : NoLoop g
  /-- What follows in the other place starts no loop. -/
  right : NoLoop g'

theorem Ahead.holds_append (a : Ahead) {us g g' : List Token} (hus : us ≠ []) (hg : NoLoop g)
    (hg' : NoLoop g') : a.holds (us ++ g) = a.holds (us ++ g') := by
  cases us with
  | nil => exact absurd rfl hus
  | cons t us =>
    cases a with
    | token p => rfl
    | clause conditions =>
      cases us with
      | nil => simp only [List.cons_append, List.nil_append, Ahead.holds, NoLoop] at hg hg' ⊢; rw [hg, hg']
      | cons u us => rfl

/-- What was left with something before it was not taken. -/
theorem ne_append_cons (t : Token) (ts rest : List Token) : ts ≠ rest ++ t :: ts := by
  intro h
  have := congrArg List.length h
  simp only [List.length_append, List.length_cons] at this
  omega

namespace Rule

variable {n : Nat} {g g' : List Token} {inner inner' : Entry → Reader Expr}

theorem take_alike (P : List Token → Prop) (p : Lexeme → Bool) :
    Alike P n g g' ((Rule.take p).run inner) ((Rule.take p).run inner') := by
  intro us l rest hw hr hrun
  cases us with
  | nil =>
    cases g with
    | nil => simp [run] at hrun
    | cons t g =>
      simp only [run, List.nil_append, Option.ite_none_right_eq_some, Option.some.injEq,
        Prod.mk.injEq] at hrun
      exact absurd hrun.2.2 (ne_append_cons t g rest)
  | cons t us =>
    simp only [run, List.cons_append, Option.ite_none_right_eq_some, Option.some.injEq,
      Prod.mk.injEq] at hrun ⊢
    obtain ⟨hp, rfl, hrest⟩ := hrun
    obtain rfl := List.append_cancel_right hrest
    exact ⟨hp, rfl, rfl⟩

theorem string_alike (hin : Inners n g g' inner inner') (P : List Token → Prop) (r : Rule α) :
    Alike P n g g' ((Rule.string r).run inner) ((Rule.string r).run inner') := by
  intro us a rest hw hr hrun
  cases us with
  | nil =>
    cases g with
    | nil => simp [run] at hrun
    | cons t g =>
      simp only [run, List.nil_append] at hrun
      split at hrun
      · simp only [Option.map_eq_some_iff, Prod.mk.injEq] at hrun
        obtain ⟨as, -, -, hrest⟩ := hrun
        exact absurd hrest (ne_append_cons t g rest)
      · simp at hrun
  | cons t us =>
    simp only [run, List.cons_append] at hrun ⊢
    split at hrun
    · next sources hk =>
      -- what is embedded in a string has fewer characters than the string
      have hs : readSources (r.run inner) t.chars.length sources =
          readSources (r.run inner') t.chars.length sources := by
        refine readSources_congr fun vs hvs => run_congr hin.consumes r fun e ws hws => ?_
        refine hin.same e ws ?_
        rw [weight_cons] at hw
        omega
      simp only [Option.map_eq_some_iff, Prod.mk.injEq] at hrun
      obtain ⟨as, has, rfl, hrest⟩ := hrun
      obtain rfl := List.append_cancel_right hrest
      rw [← hs, has]
      rfl
    · simp at hrun

/-- A rule reads the same before `g` and `g'` as long as it leaves a token before them. -/
theorem run_alike (hin : Inners n g g' inner inner') (r : Rule α) :
    Alike (· ≠ []) n g g' (r.run inner) (r.run inner') := by
  have hcon {γ : Type} (r : Rule γ) := run_consumes hin.consumes r
  have hholds : ∀ (a : Ahead) us, us ≠ [] → a.holds (us ++ g) = a.holds (us ++ g') :=
    fun a us hus => a.holds_append hus hin.left hin.right
  induction r with
  | pure a =>
    intro us a' rest hw hr hrun
    simp only [run, Option.some.injEq, Prod.mk.injEq] at hrun ⊢
    exact ⟨hrun.1, by rw [List.append_cancel_right hrun.2]⟩
  | bind first next ihf ihn =>
    intro us b rest hw hr hrun
    rw [run_bind] at hrun ⊢
    exact Alike.bind upward_ne_nil (hcon first) (fun a => hcon (next a)) ihf ihn hw hr hrun
  | fail => intro us a rest hw hr hrun; simp [run] at hrun
  | take p => exact take_alike _ p
  | ahead a =>
    intro us b rest hw hr hrun
    simp only [run, Option.some.injEq, Prod.mk.injEq] at hrun ⊢
    obtain rfl := List.append_cancel_right hrun.2
    exact ⟨by rw [← hholds a us hr, hrun.1], rfl⟩
  | many go r ih => exact Alike.manyFrom upward_ne_nil (hcon r) (hholds go) ih
  | withText r ih => exact Alike.withText ih
  | extend first go step ihf ihs =>
    intro us e rest hw hr hrun
    simp only [run] at hrun ⊢
    split at hrun
    · next e' mid hmid =>
      obtain ⟨mid', rfl, hus, hrest⟩ :=
        suffix_between (hcon first hmid) (extendFrom_consumes (hcon step) _ hrun)
      rw [ihf hw (upward_ne_nil hrest hr) hmid]
      exact Alike.extendFrom upward_ne_nil (hcon step) (hholds go) ihs e'
        (Nat.le_trans (weight_le_of_suffix hus) hw) hr hrun
    · simp at hrun
  | byName named plain ihn ihp =>
    intro us a rest hw hr hrun
    simp only [run] at hrun ⊢
    split at hrun
    · next a' mid hmid =>
      simp only [Option.ite_none_right_eq_some, Option.some.injEq, Prod.mk.injEq] at hrun
      obtain ⟨hlt, rfl, rfl⟩ := hrun
      have hlt' : rest.length < us.length := by
        simp only [List.length_append] at hlt
        omega
      -- one token is taken and one is left, so the question is about the two
      have h1 : 1 < us.length := by
        have := List.length_pos_iff.2 hr
        omega
      have hsecond : (us ++ g)[1]? = (us ++ g')[1]? := by
        rw [List.getElem?_append_left h1, List.getElem?_append_left h1]
      rw [hsecond] at hmid
      have hread : (if (us ++ g')[1]?.any (·.isSymbol "=") then named.run inner' (us ++ g')
          else plain.run inner' (us ++ g')) = some (a', rest ++ g') := by
        split at hmid
        · next hyes => rw [if_pos hyes]; exact ihn hw hr hmid
        · next hno => rw [if_neg hno]; exact ihp hw hr hmid
      rw [hread]
      simp only [Option.ite_none_right_eq_some, List.length_append, and_true]
      omega
    · simp at hrun
  | string r => exact string_alike hin _ r
  | inner e => exact fun us a rest hw _ hrun => hin.alike e hw trivial hrun

end Rule

/-! ## Rules that stop

What a rule reads when it takes all of the tokens before `g` depends on `g` only by what the rule asks
there.  `Stops E r` says that `r` cannot tell what satisfies `E` apart.  A rule that ends with a token
of its own, such as a closing bracket, is at `g` only when it is done: `Closes E r`. -/

namespace Rule

/-- A choice by a token that is taken is a choice by a look at it. -/
theorem run_takeIf (p : Lexeme → Bool) (yes no : Rule β) (inner : Entry → Reader Expr) :
    ((do if ← atToken p then (do discard (.take p); return true) else return false : Rule Bool) >>=
        fun found => if found then yes else no).run inner =
      (atToken p >>= fun found => if found then discard (.take p) >>= fun _ => yes else no).run inner := by
  funext ts
  simp only [Bind.bind, run]
  cases hb : (Ahead.token p).holds ts
  · simp [atToken, run, hb, Pure.pure]
  · simp only [atToken, run, hb, if_true]
    cases (discard (.take p) : Rule Unit).run inner ts <;> rfl

theorem run_takeSymbol (s : String) (yes no : Rule β) (inner : Entry → Reader Expr) :
    (takeSymbol s >>= fun found => if found then yes else no).run inner =
      (atSymbol s >>= fun found => if found then symbol s >>= fun _ => yes else no).run inner :=
  run_takeIf (·.isSymbol s) yes no inner

theorem run_takeWord (w : String) (yes no : Rule β) (inner : Entry → Reader Expr) :
    (takeWord w >>= fun found => if found then yes else no).run inner =
      (atWord w >>= fun found => if found then word w >>= fun _ => yes else no).run inner :=
  run_takeIf (·.isWord w) yes no inner

/-- A rule reads alike before whatever satisfies `E`. -/
def Stops (E : List Token → Prop) (r : Rule α) : Prop :=
  ∀ ⦃n g g' inner inner'⦄, E g → E g' → Inners n g g' inner inner' →
    Alike (fun _ => True) n g g' (r.run inner) (r.run inner')

/-- A rule takes at least one token. -/
def Takes (r : Rule α) : Prop :=
  ∀ ⦃inner⦄, (∀ e, Consumes (inner e)) →
    ∀ ⦃ts a rest⦄, r.run inner ts = some (a, rest) → rest.length < ts.length

/-- A rule takes at least one token, and from there on reads alike before whatever satisfies `E`. -/
structure Closes (E : List Token → Prop) (r : Rule α) : Prop where
  /-- It takes a token. -/
  takes : r.Takes
  /-- It reads alike before whatever satisfies `E`. -/
  stops : r.Stops E

variable {E : List Token → Prop}

namespace Stops

theorem pure (a : α) : Stops E (Pure.pure a : Rule α) := by
  intro n g g' inner inner' hg hg' hin us a' rest hw hr hrun
  simp only [Pure.pure, run, Option.some.injEq, Prod.mk.injEq] at hrun ⊢
  exact ⟨hrun.1, by rw [List.append_cancel_right hrun.2]⟩

theorem fail : Stops E (Rule.fail : Rule α) := by
  intro n g g' inner inner' hg hg' hin us a rest hw hr hrun
  simp [run] at hrun

theorem take (p : Lexeme → Bool) : Stops E (.take p) := fun _ _ _ _ _ _ _ _ => take_alike _ p

theorem string (r : Rule α) : Stops E (.string r) := fun _ _ _ _ _ _ _ hin => string_alike hin _ r

theorem inner (e : Entry) : Stops E (.inner e) := fun _ _ _ _ _ _ _ hin => hin.alike e

theorem bind {first : Rule α} {next : α → Rule β} (hf : Stops E first)
    (hn : ∀ a, Stops E (next a)) : Stops E (first >>= next) := by
  intro n g g' inner inner' hg hg' hin us b rest hw hr hrun
  simp only [Bind.bind, run_bind] at hrun ⊢
  exact Alike.bind upward_true (run_consumes hin.consumes first)
    (fun a => run_consumes hin.consumes (next a)) (hf hg hg' hin) (fun a => hn a hg hg' hin) hw hr
    hrun

theorem ite {c : Bool} {yes no : Rule α} (hy : Stops E yes) (hn : Stops E no) :
    Stops E (if c then yes else no) := by
  cases c
  · exact hn
  · exact hy

theorem discard {r : Rule α} (h : Stops E r) : Stops E (discard r) := bind h fun _ => pure _

/-- A rule may ask what everything that satisfies `E` answers in the same way. -/
theorem ahead {a : Ahead} (b : Bool) (h : ∀ g, E g → a.holds g = b) : Stops E (.ahead a) := by
  intro n g g' inner inner' hg hg' hin us a' rest hw hr hrun
  simp only [run, Option.some.injEq, Prod.mk.injEq] at hrun ⊢
  obtain rfl := List.append_cancel_right hrun.2
  refine ⟨?_, rfl⟩
  rw [← hrun.1]
  cases us with
  | nil => rw [List.nil_append, List.nil_append, h g hg, h g' hg']
  | cons t us => exact (a.holds_append (List.cons_ne_nil _ _) hin.left hin.right).symm

theorem holds_eq {a : Ahead} {b : Bool} (h : ∀ g, E g → a.holds g = b) {n : Nat}
    {g g' : List Token} {inner inner' : Entry → Reader Expr} (hg : E g) (hg' : E g')
    (hin : Inners n g g' inner inner') (us : List Token) :
    a.holds (us ++ g) = a.holds (us ++ g') := by
  cases us with
  | nil => rw [List.nil_append, List.nil_append, h g hg, h g' hg']
  | cons t us => exact a.holds_append (List.cons_ne_nil _ _) hin.left hin.right

theorem many {go : Ahead} {r : Rule α} (b : Bool) (hgo : ∀ g, E g → go.holds g = b)
    (hr : Stops E r) : Stops E (.many go r) := by
  intro n g g' inner inner' hg hg' hin
  exact Alike.manyFrom upward_true (run_consumes hin.consumes r)
    (fun us _ => holds_eq hgo hg hg' hin us) (hr hg hg' hin)

theorem withText {r : Rule α} (hr : Stops E r) : Stops E (.withText r) :=
  fun _ _ _ _ _ hg hg' hin => Alike.withText (hr hg hg' hin)

theorem extend {first : Rule Expr} {go : Ahead} {step : Rule (ExprKind × List Expr)} (b : Bool)
    (hgo : ∀ g, E g → go.holds g = b) (hf : Stops E first) (hs : Stops E step) :
    Stops E (.extend first go step) := by
  intro n g g' inner inner' hg hg' hin us e rest hw hr hrun
  simp only [run] at hrun ⊢
  split at hrun
  · next e' mid hmid =>
    have hstep := run_consumes hin.consumes step
    obtain ⟨mid', rfl, hus, hrest⟩ :=
      suffix_between (run_consumes hin.consumes first hmid) (extendFrom_consumes hstep _ hrun)
    rw [hf hg hg' hin hw trivial hmid]
    exact Alike.extendFrom upward_true hstep (fun us _ => holds_eq hgo hg hg' hin us)
      (hs hg hg' hin) e' (Nat.le_trans (weight_le_of_suffix hus) hw) hr hrun
  · simp at hrun

theorem byName {named plain : Rule α} (b : Bool)
    (h : ∀ g, E g → g.head?.any (·.isSymbol "=") = b) (hnamed : Stops E named)
    (hplain : Stops E plain) : Stops E (.byName named plain) := by
  intro n g g' inner inner' hg hg' hin us a rest hw hr hrun
  simp only [run] at hrun ⊢
  split at hrun
  · next a' mid hmid =>
    simp only [Option.ite_none_right_eq_some, Option.some.injEq, Prod.mk.injEq] at hrun
    obtain ⟨hlt, rfl, rfl⟩ := hrun
    have hsecond : (us ++ g)[1]?.any (·.isSymbol "=") = (us ++ g')[1]?.any (·.isSymbol "=") := by
      match us with
      | [] => simp only [List.nil_append, List.length_append] at hlt; omega
      | [t] =>
        rw [List.singleton_append, List.singleton_append, List.getElem?_cons_succ,
          List.getElem?_cons_succ, ← List.head?_eq_getElem?, ← List.head?_eq_getElem?, h g hg, h g' hg']
      | t :: u :: us => rfl
    rw [hsecond] at hmid
    have hread : (if (us ++ g')[1]?.any (·.isSymbol "=") then named.run inner' (us ++ g')
        else plain.run inner' (us ++ g')) = some (a', rest ++ g') := by
      split at hmid
      · next hyes => rw [if_pos hyes]; exact hnamed hg hg' hin hw hr hmid
      · next hno => rw [if_neg hno]; exact hplain hg hg' hin hw hr hmid
    rw [hread]
    simp only [Option.ite_none_right_eq_some, List.length_append, and_true] at hlt ⊢
    omega
  · simp at hrun

theorem node {kind : ExprKind} {parts : Rule (List Expr)} (h : Stops E parts) :
    Stops E (node kind parts) := bind (withText h) fun _ => pure _

theorem symbol (s : String) : Stops E (symbol s) := discard (take _)

theorem word (s : String) : Stops E (word s) := discard (take _)

theorem symbolIn (ss : List String) : Stops E (symbolIn ss) := discard (take _)

theorem anyWord : Stops E anyWord := bind (take _) fun _ => pure _

theorem require (c : Bool) : Stops E (require c) := ite (pure _) fail

theorem takeSymbol {s : String} (h : ∀ g, E g → (Ahead.token (·.isSymbol s)).holds g = false) :
    Stops E (takeSymbol s) :=
  bind (ahead false h) fun _ => ite (bind (symbol s) fun _ => pure _) (pure _)

theorem takeWord {s : String} (h : ∀ g, E g → (Ahead.token (·.isWord s)).holds g = false) :
    Stops E (takeWord s) :=
  bind (ahead false h) fun _ => ite (bind (word s) fun _ => pure _) (pure _)

theorem maybe {test : Rule Bool} {r : Rule α} (ht : Stops E test) (hr : Stops E r) :
    Stops E (maybe test r) := bind ht fun _ => ite (bind hr fun _ => pure _) (pure _)

end Stops

namespace Closes

theorem take (p : Lexeme → Bool) : Closes E (.take p) where
  takes := by
    intro inner hin ts l rest h
    cases ts with
    | nil => simp [run] at h
    | cons t ts =>
      simp only [run, Option.ite_none_right_eq_some, Option.some.injEq, Prod.mk.injEq] at h
      simp [← h.2.2]
  stops := .take p

/-- What follows a rule that closes is at the end only when all is done. -/
theorem bind_left {first : Rule α} {next : α → Rule β} (hf : Closes E first)
    (hn : ∀ a, Stops E (next a)) : Closes E (first >>= next) where
  takes := by
    intro inner hin ts b rest h
    simp only [Bind.bind, run_bind] at h
    split at h
    · next a mid hmid =>
      exact Nat.lt_of_le_of_lt (run_consumes hin (next a) h).length_le (hf.takes hin hmid)
    · simp at h
  stops := .bind hf.stops hn

/-- Before a rule that closes, any rule may stand: it leaves a token. -/
theorem bind {first : Rule α} {next : α → Rule β} (hn : ∀ a, Closes E (next a)) :
    Closes E (first >>= next) where
  takes := by
    intro inner hin ts b rest h
    simp only [Bind.bind, run_bind] at h
    split at h
    · next a mid hmid =>
      exact Nat.lt_of_lt_of_le ((hn a).takes hin h) (run_consumes hin first hmid).length_le
    · simp at h
  stops := by
    intro n g g' inner inner' hg hg' hin us b rest hw hr hrun
    simp only [Bind.bind, run_bind] at hrun ⊢
    split at hrun
    · next a mid hmid =>
      obtain ⟨mid', rfl, hus, hrest⟩ := suffix_between (run_consumes hin.consumes first hmid)
        (run_consumes hin.consumes (next a) hrun)
      have hlt := (hn a).takes hin.consumes hrun
      have hmid' : mid' ≠ [] := by
        rintro rfl
        simp only [List.nil_append, List.length_append] at hlt
        omega
      rw [run_alike hin first hw hmid' hmid]
      exact (hn a).stops hg hg' hin (Nat.le_trans (weight_le_of_suffix hus) hw) hr hrun
    · simp at hrun

theorem ite {c : Bool} {yes no : Rule α} (hy : Closes E yes) (hn : Closes E no) :
    Closes E (if c then yes else no) := by
  cases c
  · exact hn
  · exact hy

theorem discard {r : Rule α} (h : Closes E r) : Closes E (discard r) :=
  bind_left h fun _ => .pure _

theorem congr {r r' : Rule α} (h : ∀ inner, r.run inner = r'.run inner) (hr : Closes E r) :
    Closes E r' where
  takes := by
    intro inner hin ts a rest hrun
    rw [← h inner] at hrun
    exact hr.takes hin hrun
  stops := by
    intro n g g' inner inner' hg hg' hin
    rw [← h inner, ← h inner']
    exact hr.stops hg hg' hin

theorem symbol (s : String) : Closes E (symbol s) := .discard (.take _)

theorem word (s : String) : Closes E (word s) := .discard (.take _)

theorem anyWord : Closes E anyWord := bind_left (.take _) fun _ => .pure _

/-- Taking a symbol closes if what is done without it does. -/
theorem takeSymbol {s : String} {yes no : Rule β} (hyes : Stops E yes) (hno : Closes E no) :
    Closes E (takeSymbol s >>= fun found => if found then yes else no) := by
  have h : Closes E (atSymbol s >>= fun found =>
      if found then Rule.symbol s >>= fun _ => yes else no) :=
    bind fun _ => ite (bind_left (symbol s) fun _ => hyes) hno
  exact h.congr fun inner => (run_takeSymbol s yes no inner).symm

theorem commaListUpTo (closing : String) (p : Rule α) : Closes E (commaListUpTo closing p) :=
  takeSymbol (.pure _) (bind fun _ => bind_left (symbol closing) fun _ => .pure _)

end Closes

end Rule

/-! ## The gap before the first token -/

/-- A token behind another gap. -/
def Token.behind (t : Token) (gap : List Char) : Token := { t with before := gap }

@[simp] theorem Token.behind_before (t : Token) (gap : List Char) : (t.behind gap).before = gap := rfl

@[simp] theorem Token.behind_toLexeme (t : Token) (gap : List Char) :
    (t.behind gap).toLexeme = t.toLexeme := rfl

/-- A reader makes the same of tokens when the gap before the first of them is another one. -/
def GapFree (f : Reader α) : Prop :=
  ∀ ⦃t ts a rest⦄ (gap : List Char), f (t :: ts) = some (a, rest) →
    (rest = t :: ts ∧ f (t.behind gap :: ts) = some (a, t.behind gap :: ts)) ∨
      (rest <:+ ts ∧ f (t.behind gap :: ts) = some (a, rest))

theorem Ahead.holds_behind (a : Ahead) (t : Token) (gap : List Char) (ts : List Token) :
    a.holds (t.behind gap :: ts) = a.holds (t :: ts) := by cases a <;> rfl

theorem textSince_self (ts : List Token) : textSince ts ts = "" := by
  simp [textSince, takenSince, spanChars]

theorem textSince_behind {t : Token} {ts rest : List Token} (gap : List Char) (h : rest <:+ ts) :
    textSince (t.behind gap :: ts) rest = textSince (t :: ts) rest := by
  have hl : (t :: ts).length - rest.length = ts.length - rest.length + 1 := by
    have := h.length_le
    rw [List.length_cons]
    omega
  have hl' : (t.behind gap :: ts).length - rest.length = ts.length - rest.length + 1 := hl
  rw [textSince, textSince, takenSince, takenSince, hl, hl']
  rfl

theorem suffix_tail {t : Token} {ts rest : List Token} (h : rest <:+ t :: ts)
    (hl : rest.length < (t :: ts).length) : rest <:+ ts := by
  rcases List.suffix_cons_iff.1 h with rfl | h
  · exact absurd hl (Nat.lt_irrefl _)
  · exact h

namespace Rule

theorem manyFrom_gapFree {go : Ahead} {f : Reader α} (hf : Consumes f) (h : GapFree f) :
    GapFree (manyFrom go f) := by
  intro t ts as rest gap hrun
  rw [manyFrom] at hrun ⊢
  rw [Ahead.holds_behind]
  split at hrun
  · next hyes =>
    rw [if_pos hyes]
    split at hrun
    · next a mid hmid =>
      simp only [Option.ite_none_right_eq_some] at hrun
      obtain ⟨hlt, hrun⟩ := hrun
      have hmidts := suffix_tail (hf hmid) hlt
      rcases h gap hmid with ⟨rfl, -⟩ | ⟨-, hmid'⟩
      · exact absurd hlt (Nat.lt_irrefl _)
      right
      rw [hmid']
      simp only [List.length_cons, Nat.lt_succ_of_le hmidts.length_le, if_true]
      refine ⟨?_, hrun⟩
      split at hrun
      · next more rest' hmore =>
        simp only [Option.some.injEq, Prod.mk.injEq] at hrun
        rw [← hrun.2]
        exact (manyFrom_consumes hf hmore).trans hmidts
      · simp at hrun
    · simp at hrun
  · next hno =>
    rw [if_neg hno]
    simp only [Option.some.injEq, Prod.mk.injEq] at hrun
    exact .inl ⟨hrun.2.symm, by rw [hrun.1]⟩

theorem extendFrom_behind {t : Token} {ts : List Token} (gap : List Char) {go : Ahead}
    {f : Reader (ExprKind × List Expr)} (hf : Consumes f) {e : Expr} {us : List Token}
    (hus : us <:+ ts) :
    extendFrom (t.behind gap :: ts) go f e us = extendFrom (t :: ts) go f e us := by
  fun_induction extendFrom (t :: ts) go f e us with
  | case1 e us hyes kind parts mid hmid hlt ih =>
    have hmidts := (hf hmid).trans hus
    rw [extendFrom, if_pos hyes, hmid]
    simp only
    rw [if_pos hlt, textSince_behind gap hmidts]
    exact ih hmidts
  | case2 e us hyes kind parts mid hmid hlt =>
    rw [extendFrom, if_pos hyes, hmid]
    simp only
    rw [if_neg hlt]
  | case3 e us hyes hnone => rw [extendFrom, if_pos hyes, hnone]
  | case4 e us hno => rw [extendFrom, if_neg hno]

theorem extendFrom_gapFree {t : Token} {ts : List Token} (gap : List Char) {go : Ahead}
    {f : Reader (ExprKind × List Expr)} (hf : Consumes f) (h : GapFree f) {e e' : Expr}
    {rest : List Token} (hrun : extendFrom (t :: ts) go f e (t :: ts) = some (e', rest)) :
    (rest = t :: ts ∧ extendFrom (t.behind gap :: ts) go f e (t.behind gap :: ts) =
        some (e', t.behind gap :: ts)) ∨
      (rest <:+ ts ∧
        extendFrom (t.behind gap :: ts) go f e (t.behind gap :: ts) = some (e', rest)) := by
  rw [extendFrom] at hrun ⊢
  rw [Ahead.holds_behind]
  split at hrun
  · next hyes =>
    rw [if_pos hyes]
    split at hrun
    · next kind parts mid hmid =>
      simp only [Option.ite_none_right_eq_some] at hrun
      obtain ⟨hlt, hrun⟩ := hrun
      have hmidts := suffix_tail (hf hmid) hlt
      rcases h gap hmid with ⟨rfl, -⟩ | ⟨-, hmid'⟩
      · exact absurd hlt (Nat.lt_irrefl _)
      right
      rw [hmid']
      simp only [List.length_cons, Nat.lt_succ_of_le hmidts.length_le, if_true]
      rw [textSince_behind gap hmidts, extendFrom_behind gap hf hmidts]
      exact ⟨(extendFrom_consumes hf _ hrun).trans hmidts, hrun⟩
    · simp at hrun
  · next hno =>
    rw [if_neg hno]
    simp only [Option.some.injEq, Prod.mk.injEq] at hrun
    exact .inl ⟨hrun.2.symm, by rw [hrun.1]⟩

/-- No rule looks at the gap before the first token, if the readers inside it do not. -/
theorem run_gapFree {inner : Entry → Reader Expr} (hin : ∀ e, Consumes (inner e))
    (hgap : ∀ e, GapFree (inner e)) (r : Rule α) : GapFree (r.run inner) := by
  have hcon {γ : Type} (r : Rule γ) := run_consumes hin r
  induction r with
  | pure a =>
    intro t ts a' rest gap hrun
    simp only [run, Option.some.injEq, Prod.mk.injEq] at hrun ⊢
    exact .inl ⟨hrun.2.symm, hrun.1, trivial⟩
  | bind first next ihf ihn =>
    intro t ts b rest gap hrun
    rw [run_bind] at hrun ⊢
    simp only at hrun ⊢
    split at hrun
    · next a mid hmid =>
      rcases ihf gap hmid with ⟨rfl, hmid'⟩ | ⟨hmidts, hmid'⟩
      · rw [hmid']
        exact ihn a gap hrun
      · rw [hmid']
        exact .inr ⟨(hcon (next a) hrun).trans hmidts, hrun⟩
    · simp at hrun
  | fail => intro t ts a rest gap hrun; simp [run] at hrun
  | take p =>
    intro t ts l rest gap hrun
    simp only [run, Option.ite_none_right_eq_some, Option.some.injEq, Prod.mk.injEq] at hrun ⊢
    obtain ⟨hp, rfl, rfl⟩ := hrun
    exact .inr ⟨List.suffix_refl _, hp, rfl, rfl⟩
  | ahead a =>
    intro t ts b rest gap hrun
    simp only [run, Option.some.injEq, Prod.mk.injEq, Ahead.holds_behind] at hrun ⊢
    exact .inl ⟨hrun.2.symm, hrun.1, trivial⟩
  | many go r ih => exact manyFrom_gapFree (hcon r) ih
  | withText r ih =>
    intro t ts a rest gap hrun
    simp only [run] at hrun ⊢
    split at hrun
    · next a' mid hmid =>
      simp only [Option.some.injEq, Prod.mk.injEq] at hrun
      obtain ⟨rfl, rfl⟩ := hrun
      rcases ih gap hmid with ⟨rfl, hmid'⟩ | ⟨hmidts, hmid'⟩
      · rw [hmid']
        simp only [textSince_self]
        exact .inl ⟨trivial, trivial⟩
      · rw [hmid']
        simp only [textSince_behind gap hmidts]
        exact .inr ⟨hmidts, trivial⟩
    · simp at hrun
  | extend first go step ihf ihs =>
    intro t ts e rest gap hrun
    simp only [run] at hrun ⊢
    split at hrun
    · next e' mid hmid =>
      rcases ihf gap hmid with ⟨rfl, hmid'⟩ | ⟨hmidts, hmid'⟩
      · rw [hmid']
        exact extendFrom_gapFree gap (hcon step) ihs hrun
      · rw [hmid']
        simp only [extendFrom_behind gap (hcon step) hmidts]
        exact .inr ⟨(extendFrom_consumes (hcon step) _ hrun).trans hmidts, hrun⟩
    · simp at hrun
  | byName named plain ihn ihp =>
    intro t ts a rest gap hrun
    simp only [run, List.getElem?_cons_succ] at hrun ⊢
    split at hrun
    · next a' mid hmid =>
      simp only [Option.ite_none_right_eq_some, Option.some.injEq, Prod.mk.injEq] at hrun
      obtain ⟨hlt, rfl, rfl⟩ := hrun
      have hread : mid <:+ ts ∧ (if ts[0]?.any (·.isSymbol "=") then
          named.run inner (t.behind gap :: ts)
          else plain.run inner (t.behind gap :: ts)) = some (a', mid) := by
        split at hmid
        · next hyes =>
          rw [if_pos hyes]
          rcases ihn gap hmid with ⟨rfl, -⟩ | h
          · exact absurd hlt (Nat.lt_irrefl _)
          · exact h
        · next hno =>
          rw [if_neg hno]
          rcases ihp gap hmid with ⟨rfl, -⟩ | h
          · exact absurd hlt (Nat.lt_irrefl _)
          · exact h
      rw [hread.2]
      simp only [List.length_cons, Nat.lt_succ_of_le hread.1.length_le, if_true]
      exact .inr ⟨hread.1, trivial⟩
    · simp at hrun
  | string r =>
    intro t ts a rest gap hrun
    simp only [run] at hrun ⊢
    split at hrun
    · next sources hk =>
      simp only [Option.map_eq_some_iff, Prod.mk.injEq] at hrun
      obtain ⟨as, has, rfl, rfl⟩ := hrun
      simp only [Token.behind_toLexeme, hk, has]
      exact .inr ⟨List.suffix_refl _, rfl⟩
    · simp at hrun
  | inner e => exact hgap e

end Rule

end TypedStubs.Syntax
