import TypedStubs.Proofs.Syntax.Path

/-! # Pieces put together

What stands right behind a piece starts with something that goes on with no token (`Tail`): a symbol with a piece
behind it, or square brackets.  A piece and a tail are a piece again (`Piece.append_tail`), and so are pieces with
a symbol between them (`piece_joined`) and pieces in brackets (`piece_bracketed`).
-/
namespace TypedStubs.Syntax

open Rule

variable {depth : Nat} {gap a cs cs' : List Char} {us vs : List Token} {s : String}

/-! ## Tails -/

/-- A text that stands right behind a piece and is scanned as the tokens `us`. -/
structure Tail (depth : Nat) (cs : List Char) (us : List Token) : Prop where
  /-- It is the text of the tokens. -/
  chars : written us = cs
  /-- It goes on with no token. -/
  ends : ∀ n, EndsToken n → EndsToken (cs ++ n)
  /-- It is scanned as the tokens. -/
  scans : Scans EndsToken depth cs us
  /-- As many brackets are open after it as before. -/
  netting : Netting 0 0 us

theorem Netting.depthThrough_eq (h : Netting 0 0 us) (depth : Nat) : depthThrough depth us = depth := by
  simpa using h.level depth

namespace Tail

theorem nil (depth : Nat) : Tail depth [] [] := ⟨rfl, fun _ hn => hn, .nil _ _, .nil 0⟩

theorem append (h : Tail depth cs us) (h' : Tail depth cs' vs) : Tail depth (cs ++ cs') (us ++ vs) where
  chars := by rw [written_append, h.chars, h'.chars]
  ends := fun n hn => List.append_assoc cs cs' n ▸ h.ends _ (h'.ends n hn)
  scans := h.scans.append ((h.netting.depthThrough_eq depth).symm ▸ h'.scans) h'.ends
  netting := h.netting.append h'.netting

end Tail

theorem spanChars_append (hne : us ≠ []) (vs : List Token) :
    spanChars (us ++ vs) = spanChars us ++ written vs := by
  rw [spanChars_eq_written, spanChars_eq_written, fromGap_append hne, written_append]

/-- **A piece with a tail behind it is a piece.** -/
theorem Piece.append_tail (h : Piece depth cs us) (h' : Tail depth cs' vs) :
    Piece depth (cs ++ cs') (us ++ vs) where
  ne_nil := List.append_ne_nil_of_left_ne_nil h.ne_nil vs
  chars := by rw [spanChars_append h.ne_nil, h.chars, h'.chars]
  scans := by
    intro gap hgap
    rw [fromGap_append h.ne_nil]
    exact h.append hgap h'.scans h'.ends
  netting := h.netting.append h'.netting

/-! ## Symbols between pieces -/

theorem written_fromGap (hne : us ≠ []) (gap : List Char) : written (fromGap gap us) = gap ++ spanChars us := by
  obtain ⟨u, us, rfl⟩ := List.exists_cons_of_ne_nil hne
  rw [fromGap, written_cons, spanChars_cons]
  simp

/-- A symbol that separates pieces where a gap `a` stands before it and a blank behind it. -/
structure Separates (s : String) (a : List Char) : Prop where
  /-- It is one token. -/
  lexeme : IsLexeme .symbol s.toList
  /-- It is no bracket and no semicolon. -/
  plain : Nets.IsPlain s
  /-- What stands before it is a gap. -/
  gap : ∀ depth, IsGap depth a
  /-- Nothing goes on with it. -/
  ends : ∀ n, EndsToken (a ++ (s.toList ++ n))

theorem separates_comma : Separates "," [] :=
  ⟨⟨',', [], rfl, rfl, by decide⟩, by decide, isGap_nil, fun n => .cons (by decide) n⟩

theorem separates_colon : Separates ":" [] :=
  ⟨isLexeme_colon, by decide, isGap_nil, fun n => .cons (by decide) n⟩

theorem separates_bar : Separates "|" [' '] :=
  ⟨⟨'|', [], rfl, rfl, by decide⟩, by decide, isGap_space, fun _ => .cons (by decide) _⟩

theorem separates_equals : Separates "=" [' '] :=
  ⟨isLexeme_equals, by decide, isGap_space, fun _ => .cons (by decide) _⟩

/-- A symbol with a piece behind it. -/
theorem Separates.tail (hs : Separates s a) (h : Piece depth cs us) :
    Tail depth (a ++ (s.toList ++ (' ' :: cs))) (sign s a :: fromGap [' '] us) where
  chars := by
    rw [written_cons, written_fromGap h.ne_nil, h.chars, List.append_assoc]
    rfl
  ends := fun n _ => by simpa using hs.ends (' ' :: (cs ++ n))
  scans := by
    have hbehind : Scans EndsToken (depthAfter depth ⟨.symbol, s.toList⟩) (' ' :: cs) (fromGap [' '] us) := by
      have hsame : depthAfter depth ⟨.symbol, s.toList⟩ = depth :=
        (netting_sign hs.plain a 0).depthThrough_eq depth
      exact hsame.symm ▸ h.scans (isGap_space depth)
    exact hs.lexeme.append (hs.gap depth) hbehind fun n _ => .cons (by decide) _
  netting := (netting_sign hs.plain a 0).append (netting_fromGap h.netting _)

/-- Groups of tokens, each behind a symbol. -/
def eachBehind (s : String) (a : List Char) (uss : List (List Token)) : List Token :=
  uss.flatMap fun us => sign s a :: fromGap [' '] us

/-- Groups of tokens with a symbol between them. -/
def joined (s : String) (a : List Char) : List (List Token) → List Token
  | [] => []
  | us :: more => us ++ eachBehind s a more

theorem joined_append (s : String) (a : List Char) {uss vss : List (List Token)} (huss : uss ≠ [])
    (hvss : ∀ vs ∈ vss, vs ≠ []) (hne : vss ≠ []) :
    joined s a (uss ++ vss) = joined s a uss ++ sign s a :: fromGap [' '] (joined s a vss) := by
  obtain ⟨us, uss, rfl⟩ := List.exists_cons_of_ne_nil huss
  obtain ⟨vs, vss, rfl⟩ := List.exists_cons_of_ne_nil hne
  have hvs : vs ≠ [] := hvss vs List.mem_cons_self
  simp [joined, eachBehind, fromGap_append hvs]

theorem Separates.tail_each (hs : Separates s a) {items : List (String × List Token)}
    (h : ∀ p ∈ items, Piece depth p.1.toList p.2) :
    Tail depth (items.flatMap fun p => a ++ (s.toList ++ (' ' :: p.1.toList)))
      (eachBehind s a (items.map (·.2))) := by
  induction items with
  | nil => exact .nil depth
  | cons p items ih =>
    obtain ⟨hp, hitems⟩ := List.forall_mem_cons.1 h
    exact (hs.tail hp).append (ih hitems)

theorem toList_join_cons (sep first : String) (rest : List String) :
    (Text.join sep (first :: rest)).toList = first.toList ++ rest.flatMap fun t => sep.toList ++ t.toList := by
  induction rest generalizing first with
  | nil => simp [Text.join]
  | cons second rest ih =>
    rw [Text.join_cons_cons, String.toList_append, String.toList_append, ih]
    simp

/-- **Pieces with a symbol between them are a piece.** -/
theorem Separates.piece_joined (hs : Separates s a) {sep : String} (hsep : sep.toList = a ++ (s.toList ++ [' ']))
    {items : List (String × List Token)} (hne : items ≠ []) (h : ∀ p ∈ items, Piece depth p.1.toList p.2) :
    Piece depth (Text.join sep (items.map (·.1))).toList (joined s a (items.map (·.2))) := by
  obtain ⟨p, items, rfl⟩ := List.exists_cons_of_ne_nil hne
  obtain ⟨hp, hitems⟩ := List.forall_mem_cons.1 h
  rw [List.map_cons, toList_join_cons]
  have htail := hs.tail_each hitems
  simpa [List.flatMap_map, hsep, joined] using hp.append_tail htail

/-! ## Brackets -/

theorem lexeme_opening (n : List Char) : lexeme '[' n = some (.symbol, n) := by
  refine lexeme_sign (by decide) (by decide) (by decide) (find_symbol (by decide) fun s hs hc => ?_)
  have : ∀ s ∈ symbols, s.head? = some '[' → s = ['['] := by decide
  exact .inl (this s hs hc)

theorem isLexeme_closing : IsLexeme .symbol [']'] := ⟨']', [], rfl, rfl, by decide⟩

theorem scans_bracketed (hgap : IsGap depth gap) (h : Scans EndsToken (depth + 1) cs us) (hnet : Netting 0 0 us) :
    Scans EndsToken depth (gap ++ ('[' :: (cs ++ [']']))) (sign "[" gap :: (us ++ [sign "]" []])) := by
  have hclosing : Scans EndsToken (depthThrough (depth + 1) us) [']'] [sign "]" []] := by
    rw [hnet.depthThrough_eq]
    exact isLexeme_closing.append (isGap_nil _) (.nil EndsToken _) fun n hn => hn
  have hinside := h.append hclosing fun n _ => .cons (by decide) n
  exact scans_lexeme (u := []) (by decide) hgap hinside fun n _ => lexeme_opening _

theorem netting_bracketed (h : Netting 0 0 us) (gap : List Char) :
    Netting 0 0 (sign "[" gap :: (us ++ [sign "]" []])) where
  ordinary := by
    intro t ht
    rcases List.mem_cons.1 ht with rfl | ht
    · rfl
    rcases List.mem_append.1 ht with ht | ht
    · exact h.ordinary t ht
    · obtain rfl := List.mem_singleton.1 ht
      rfl
  level := by
    intro d
    rw [depthThrough_cons, depthThrough_append, h.depthThrough_eq]
    rfl

/-- Nothing in brackets. -/
theorem piece_brackets (depth : Nat) : Piece depth "[]".toList [sign "[" [], sign "]" []] where
  ne_nil := List.cons_ne_nil _ _
  chars := rfl
  scans := fun _ hgap => scans_bracketed hgap (.nil _ _) (.nil 0)
  netting := netting_bracketed (.nil 0) []

/-- A piece is scanned with the closing parenthesis of a definition behind it. -/
theorem Piece.scanned_closed (h : Piece 1 cs us) : Scanned 1 (fromGap [] us ++ [sign ")" []]) := by
  have hclose : Scans EndsToken 1 [')'] [sign ")" []] :=
    isLexeme_close.append (isGap_nil 1) (.nil EndsToken _) fun n hn => hn
  have hline := h.append (isGap_nil 1) hclose (fun n _ => .cons (by decide) n) [] .nil
  rw [List.append_nil, lineTokens_nil] at hline
  exact ⟨_, _, hline, [], by simp [LineRest.behind]⟩

variable (h : Piece (depth + 1) cs us)
include h

/-- **A piece in brackets is a piece.** -/
theorem piece_bracketed :
    Piece depth ('[' :: (cs ++ [']'])) (sign "[" [] :: (fromGap [] us ++ [sign "]" []])) where
  ne_nil := List.cons_ne_nil _ _
  chars := by
    rw [spanChars_cons, written_append, written_fromGap h.ne_nil, h.chars]
    rfl
  scans := fun _ hgap => scans_bracketed hgap (h.scans (isGap_nil _)) (netting_fromGap h.netting _)
  netting := netting_bracketed (netting_fromGap h.netting _) []

/-- Brackets behind a piece. -/
theorem tail_bracketed :
    Tail depth ('[' :: (cs ++ [']'])) (sign "[" [] :: (fromGap [] us ++ [sign "]" []])) where
  chars := by
    rw [written_cons, written_append, written_fromGap h.ne_nil, h.chars]
    rfl
  ends := fun n _ => .cons (by decide) _
  scans := scans_bracketed (isGap_nil depth) (h.scans (isGap_nil _)) (netting_fromGap h.netting _)
  netting := netting_bracketed (netting_fromGap h.netting _) []

end TypedStubs.Syntax
