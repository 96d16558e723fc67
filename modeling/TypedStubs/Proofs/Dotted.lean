import Mathlib.Data.List.TakeWhile
import TypedStubs.Dotted
import TypedStubs.Proofs.Text.Cut

/-! # Dotted names

A dotted name is its head and what follows its first dot (`cons_uncons`), and its head is the one
component in front of it whatever follows (`head_cons`).
-/
namespace TypedStubs.Dotted

/-- A name of one component. -/
def IsSimple (name : String) : Prop := '.' ∉ name.toList

instance (name : String) : Decidable (IsSimple name) :=
  inferInstanceAs (Decidable ('.' ∉ name.toList))

theorem bne_dot_of_not_mem {cs : List Char} (h : '.' ∉ cs) : ∀ c ∈ cs, (c != '.') = true := by
  intro c hc
  have hne : c ≠ '.' := fun heq => h (heq ▸ hc)
  simpa using hne

theorem isSimple_head (path : String) : IsSimple (head path) := by
  intro h
  simp only [head, String.toList_ofList] at h
  simpa using List.mem_takeWhile_imp h

theorem head_of_isSimple {name : String} (h : IsSimple name) : head name = name := by
  rw [head, List.takeWhile_eq_self_iff.2 (bne_dot_of_not_mem h), String.ofList_toList]

/-- The two ways in which a name is taken apart. -/
theorem uncons_cases (path : String) :
    (IsSimple path ∧ uncons path = (path, none)) ∨
      ∃ rest, uncons path = (head path, some rest) ∧ path = head path ++ "." ++ rest := by
  cases hcut : Text.cutChars ['.'] path.toList with
  | none =>
    refine .inl ⟨Text.cutChars_eq_none hcut, ?_⟩
    simp [uncons, Text.cut, hcut]
  | some parts =>
    obtain ⟨before, after⟩ := parts
    obtain ⟨hsplit, hnot⟩ := Text.cutChars_eq_some hcut
    have hhead : head path = String.ofList before := by
      rw [head, hsplit, List.takeWhile_append_of_pos (bne_dot_of_not_mem hnot)]
      simp
    refine .inr ⟨String.ofList after, ?_, ?_⟩
    · simp [uncons, Text.cut, hcut, hhead]
    · rw [hhead, ← String.toList_inj]
      simpa using hsplit

@[simp] theorem uncons_fst (path : String) : (uncons path).1 = head path := by
  rcases uncons_cases path with ⟨hsimple, h⟩ | ⟨rest, h, -⟩
  · rw [h, head_of_isSimple hsimple]
  · rw [h]

theorem uncons_snd_eq_none {path : String} : (uncons path).2 = none ↔ IsSimple path := by
  rcases uncons_cases path with ⟨hsimple, h⟩ | ⟨rest, h, hpath⟩
  · simp [h, hsimple]
  · rw [h, hpath]
    simp [IsSimple]

theorem cons_uncons (path : String) : cons (head path) (uncons path).2 = path := by
  rcases uncons_cases path with ⟨hsimple, h⟩ | ⟨rest, h, hpath⟩
  · rw [h, cons, head_of_isSimple hsimple]
  · rw [h, cons, ← hpath]

theorem head_cons {first : String} (h : IsSimple first) (rest : Option String) :
    head (cons first rest) = first := by
  cases rest with
  | none => exact head_of_isSimple h
  | some rest => simp [cons, head, List.takeWhile_append_of_pos (bne_dot_of_not_mem h)]

/-- A name that is put in front of more keeps its head. -/
theorem head_cons_path (path : String) (rest : Option String) : head (cons path rest) = head path := by
  cases rest with
  | none => rfl
  | some rest =>
    rcases uncons_cases path with ⟨hsimple, -⟩ | ⟨more, -, hpath⟩
    · rw [head_cons hsimple, head_of_isSimple hsimple]
    · have hcons : path ++ "." ++ rest = cons (head path) (some (more ++ "." ++ rest)) := by
        rw [cons, ← String.append_assoc, ← String.append_assoc, ← hpath]
      rw [cons, hcons, head_cons (isSimple_head path)]

theorem uncons_cons {first : String} (h : IsSimple first) (rest : Option String) :
    uncons (cons first rest) = (first, rest) := by
  have hhead := head_cons h rest
  rcases uncons_cases (cons first rest) with ⟨hsimple, huncons⟩ | ⟨more, huncons, hcons⟩
  · cases rest with
    | none => exact huncons
    | some rest => simp [IsSimple, cons] at hsimple
  · rw [hhead] at huncons hcons
    cases rest with
    | none =>
      -- a name of one component holds no dot
      have hdot : '.' ∈ (first ++ "." ++ more).toList := by simp
      exact absurd hdot (hcons ▸ h : IsSimple (first ++ "." ++ more))
    | some rest =>
      have hrest : rest = more := by
        rw [← String.toList_inj] at hcons ⊢
        simpa [cons] using hcons
      rw [huncons, hrest]

end TypedStubs.Dotted
