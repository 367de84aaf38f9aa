import TableQuery.Statement

/-!
# Where a text is cut into statements

A text passes from one place to another if no character of it ends a statement on the way. Every
text either passes as a whole or passes up to its first end of a statement, behind which it goes on
outside quotes. What cutting does with a text follows from these two cases.
-/

namespace TableQuery.Statement

/-- Puts a list in front of the first piece. -/
def glue {α : Type} (u : List α) : List (List α) × List α → List (List α) × List α
  | ([], last) => ([], u ++ last)
  | (piece :: ended, last) => ((u ++ piece) :: ended, last)

/-- The statements of a text, as lists of characters. -/
def statements (s : List Char) : List (List Char) :=
  ((pieces .outside s).1.map (Text.trimBy Text.isBlank)).filter (· ≠ [';']) ++
    [Text.trimBy Text.isBlank (pieces .outside s).2].filter (· ≠ [])

theorem split_eq (text : String) : split text = (statements text.toList).map String.ofList := rfl

/-- No character of the text ends a statement; it starts at the first place, and what follows it
stands at the second. -/
inductive Passes : Place → List Char → Place → Prop where
  | nil (p : Place) : Passes p [] p
  | cons {p q : Place} {c : Char} {s : List Char} (hc : p.isEnd c = false)
      (hs : Passes (p.next c) s q) : Passes p (c :: s) q

/-- Where what follows the text stands. -/
def Place.after (p : Place) (s : List Char) : Place := s.foldl (fun p c => p.next c) p

variable {p q r : Place} {c : Char} {s u v rest : List Char}

theorem glue_nil (cut : List (List Char) × List Char) : glue [] cut = cut := by
  obtain ⟨_ | _, last⟩ := cut <;> rfl

theorem glue_glue (u v : List Char) (cut : List (List Char) × List Char) :
    glue u (glue v cut) = glue (u ++ v) cut := by
  obtain ⟨_ | _, last⟩ := cut <;> simp [glue]

theorem glue_fst_eq_nil_iff {cut : List (List Char) × List Char} :
    (glue u cut).1 = [] ↔ cut.1 = [] := by
  obtain ⟨_ | _, last⟩ := cut <;> simp [glue]

theorem glue_snd {cut : List (List Char) × List Char} (h : cut.1 ≠ []) :
    (glue u cut).2 = cut.2 := by
  obtain ⟨_ | _, last⟩ := cut
  · exact absurd rfl h
  · rfl

theorem Place.after_append (p : Place) (u v : List Char) :
    p.after (u ++ v) = (p.after u).after v :=
  List.foldl_append

theorem pieces_cons_of_not_isEnd (h : p.isEnd c = false) :
    pieces p (c :: s) = glue [c] (pieces (p.next c) s) := by
  rw [pieces]
  obtain ⟨_ | _, last⟩ := pieces (p.next c) s <;> simp [glue, h]

theorem isEnd_iff : p.isEnd c = true ↔ p = .outside ∧ c = ';' := by
  simp [Place.isEnd]

theorem pieces_end : pieces .outside (';' :: rest) =
    ([';'] :: (pieces .outside rest).1, (pieces .outside rest).2) := rfl

section Passing

namespace Passes

theorem append (h : Passes p u q) (h' : Passes q v r) : Passes p (u ++ v) r := by
  induction h with
  | nil => exact h'
  | cons hc _ ih => exact .cons hc (ih h')

theorem of_append (h : Passes p (u ++ v) r) : ∃ q, Passes p u q ∧ Passes q v r := by
  induction u generalizing p with
  | nil => exact ⟨p, .nil p, h⟩
  | cons c u ih =>
      cases h with
      | cons hc h =>
          obtain ⟨q, hu, hv⟩ := ih h
          exact ⟨q, .cons hc hu, hv⟩

theorem after_eq (h : Passes p u q) : p.after u = q := by
  induction h with
  | nil => rfl
  | cons _ _ ih => exact ih

theorem pieces_append (h : Passes p u q) (s : List Char) :
    pieces p (u ++ s) = glue u (pieces q s) := by
  induction h with
  | nil => exact (glue_nil _).symm
  | cons hc _ ih => rw [List.cons_append, pieces_cons_of_not_isEnd hc, ih, glue_glue]; rfl

theorem pieces_eq (h : Passes p u q) : pieces p u = ([], u) := by
  have happend := h.pieces_append []
  rwa [List.append_nil, pieces, glue, List.append_nil] at happend

/-- A text that passes, and the end of a statement behind it. -/
theorem pieces_end (h : Passes p u .outside) (rest : List Char) :
    pieces p (u ++ ';' :: rest) =
      ((u ++ [';']) :: (pieces .outside rest).1, (pieces .outside rest).2) := by
  rw [h.pieces_append, Statement.pieces_end]
  rfl

end Passes

/-- A text has no end of a statement, or a first one. -/
theorem passes_cases (p : Place) (s : List Char) :
    (∃ q, Passes p s q) ∨ ∃ u rest, s = u ++ ';' :: rest ∧ Passes p u .outside := by
  induction s generalizing p with
  | nil => exact .inl ⟨p, .nil p⟩
  | cons c s ih =>
      cases hc : p.isEnd c with
      | true =>
          obtain ⟨rfl, rfl⟩ := isEnd_iff.1 hc
          exact .inr ⟨[], s, rfl, .nil _⟩
      | false =>
          rcases ih (p.next c) with ⟨q, h⟩ | ⟨u, rest, rfl, h⟩
          · exact .inl ⟨q, .cons hc h⟩
          · exact .inr ⟨c :: u, rest, rfl, .cons hc h⟩

theorem passes_of_pieces (h : (pieces p s).1 = []) : Passes p s (p.after s) := by
  rcases passes_cases p s with ⟨q, hs⟩ | ⟨u, rest, rfl, hu⟩
  · rwa [hs.after_eq]
  · rw [hu.pieces_end] at h
    cases h

/-- Induction over the statements of a text. -/
@[elab_as_elim]
theorem cut_induction {motive : List Char → Prop}
    (passes : ∀ s q, Passes .outside s q → motive s)
    (ends : ∀ u rest, Passes .outside u .outside → motive rest → motive (u ++ ';' :: rest))
    (s : List Char) : motive s := by
  induction hn : s.length using Nat.strongRecOn generalizing s with
  | ind n ih =>
      subst hn
      rcases passes_cases .outside s with ⟨q, h⟩ | ⟨u, rest, rfl, h⟩
      · exact passes s q h
      · refine ends u rest h (ih _ ?_ rest rfl)
        rw [List.length_append, List.length_cons]
        omega

/-- A character that stands outside quotes and leaves it so. -/
def isPlain (c : Char) : Bool := !Place.isQuote c && c != ';'

/-- Of the characters of a class that has no quotes and no semicolon, all are plain. -/
theorem isPlain_of_class {class? : Char → Bool}
    (hclass : ['\'', '\x22', '\x60', ';'].any class? = false) (h : class? c = true) :
    isPlain c = true := by
  simp only [List.any_cons, List.any_nil, Bool.or_eq_false_iff] at hclass
  obtain ⟨hsingle, hdouble, hback, hsemicolon, -⟩ := hclass
  have hne : ∀ {d : Char}, class? d = false → c ≠ d := by
    rintro d hd rfl
    rw [h] at hd
    cases hd
  simp [isPlain, Place.isQuote, hne hsingle, hne hdouble, hne hback, hne hsemicolon]

theorem passes_of_isPlain (h : ∀ c ∈ s, isPlain c = true) : Passes .outside s .outside := by
  induction s with
  | nil => exact .nil _
  | cons c s ih =>
      obtain ⟨hc, hs⟩ := List.forall_mem_cons.1 h
      rw [isPlain, Bool.and_eq_true, Bool.not_eq_true', bne_iff_ne] at hc
      have hnext : Place.next c .outside = .outside := by simp [Place.next, hc.1]
      have hend : Place.isEnd c .outside = false := by simp [Place.isEnd, hc.2]
      exact .cons hend (by rw [hnext]; exact ih hs)

theorem passes_of_isBlank (h : ∀ c ∈ s, Text.isBlank c = true) : Passes .outside s .outside :=
  passes_of_isPlain fun c hc => isPlain_of_class (by decide) (h c hc)

end Passing

end TableQuery.Statement
