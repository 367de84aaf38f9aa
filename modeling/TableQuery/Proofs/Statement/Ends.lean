import TableQuery.Proofs.Statement.Pieces
import TableQuery.Proofs.Text.Trimming

/-!
# Texts behind whose last statement nothing follows

Where only white space stands behind the last end of a statement, a text can be cut: its statements
are those of the two parts. Otherwise what stands there is a statement that does not end.
-/

namespace TableQuery.Statement

variable {p q : Place} {s b u rest : List Char}

/-- Nothing but white space stands behind the last end of a statement. -/
def IsWhole (s : List Char) : Prop :=
  ∀ c ∈ (pieces .outside s).2, Text.isBlank c = true

instance : Decidable (IsWhole s) :=
  decidable_of_iff ((pieces .outside s).2.all Text.isBlank = true) List.all_eq_true

theorem isWhole_of_passes (h : Passes .outside s q) :
    IsWhole s ↔ ∀ c ∈ s, Text.isBlank c = true := by
  rw [IsWhole, h.pieces_eq]

theorem isWhole_end (h : Passes .outside u .outside) :
    IsWhole (u ++ ';' :: rest) ↔ IsWhole rest := by
  rw [IsWhole, h.pieces_end, IsWhole]

section Pieces

theorem statements_of_passes (h : Passes .outside s q) :
    statements s = [Text.trimBy Text.isBlank s].filter (· ≠ []) := by
  rw [statements, h.pieces_eq]
  rfl

theorem statements_end (h : Passes .outside u .outside) (rest : List Char) :
    statements (u ++ ';' :: rest) =
      [Text.trimBy Text.isBlank (u ++ [';'])].filter (· ≠ [';']) ++ statements rest := by
  rw [statements, h.pieces_end, statements, List.map_cons, ← List.append_assoc,
    ← List.filter_append, List.singleton_append]

theorem statements_of_isBlank (h : ∀ c ∈ s, Text.isBlank c = true) : statements s = [] := by
  rw [statements_of_passes (passes_of_isBlank h), Text.trimBy_eq_nil_iff.2 h]
  rfl

theorem statements_blank_append (h : ∀ c ∈ b, Text.isBlank c = true) (s : List Char) :
    statements (b ++ s) = statements s := by
  rw [statements, (passes_of_isBlank h).pieces_append, statements]
  obtain ⟨_ | ⟨piece, ended⟩, last⟩ := pieces .outside s
  · simp only [glue, Text.trimBy_append h]
  · simp only [glue, List.map_cons, Text.trimBy_append h]

/-- A text can be cut where nothing is left over. -/
theorem statements_append (h : IsWhole s) (s' : List Char) :
    statements (s ++ s') = statements s ++ statements s' := by
  induction s using cut_induction with
  | passes s q hs =>
      have hblank := (isWhole_of_passes hs).1 h
      rw [statements_blank_append hblank, statements_of_isBlank hblank, List.nil_append]
  | ends u rest hu ih =>
      rw [List.append_assoc, List.cons_append, statements_end hu, statements_end hu,
        ih ((isWhole_end hu).1 h), List.append_assoc]

theorem isWhole_append (h : IsWhole s) {s' : List Char} : IsWhole (s ++ s') ↔ IsWhole s' := by
  induction s using cut_induction with
  | passes s q hs =>
      have hblank := (isWhole_of_passes hs).1 h
      rw [IsWhole, (passes_of_isBlank hblank).pieces_append, IsWhole]
      obtain ⟨_ | ⟨piece, ended⟩, last⟩ := pieces .outside s'
      · simp only [glue, List.forall_mem_append]
        exact and_iff_right hblank
      · rfl
  | ends u rest hu ih =>
      rw [List.append_assoc, List.cons_append, isWhole_end hu, ih ((isWhole_end hu).1 h)]

theorem after_of_isWhole (h : IsWhole s) : Place.outside.after s = .outside := by
  induction s using cut_induction with
  | passes s q hs => exact (passes_of_isBlank ((isWhole_of_passes hs).1 h)).after_eq
  | ends u rest hu ih =>
      have hrest := (isWhole_end hu).1 h
      rw [Place.after_append, hu.after_eq]
      exact ih hrest

end Pieces

section Ended

theorem Passes.drop_blank (h : Passes .outside (b ++ s) q) (hb : ∀ c ∈ b, Text.isBlank c = true) :
    Passes .outside s q := by
  obtain ⟨r, hr, hs⟩ := h.of_append
  rwa [← hr.after_eq, (passes_of_isBlank hb).after_eq] at hs

/-- Trimming a piece that ends a statement leaves one. -/
theorem exists_trimBy_end (h : Passes .outside u .outside) :
    ∃ v, Text.trimBy Text.isBlank (u ++ [';']) = v ++ [';'] ∧ Passes .outside v .outside := by
  refine ⟨_, Text.trimBy_append_singleton (by decide) u, ?_⟩
  rw [← List.takeWhile_append_dropWhile (p := Text.isBlank) (l := u)] at h
  exact h.drop_blank fun c hc => List.mem_takeWhile_imp hc

theorem Passes.exists_trimBy (h : Passes .outside s q) :
    ∃ r, Passes .outside (Text.trimBy Text.isBlank s) r := by
  obtain ⟨b, b', hs, hb, -⟩ := Text.exists_trimBy_append Text.isBlank s
  rw [hs] at h
  obtain ⟨r, htrim, -⟩ := (h.drop_blank hb).of_append
  exact ⟨r, htrim⟩

theorem trimBy_passes (h : Passes .outside s q) :
    (pieces .outside (Text.trimBy Text.isBlank s)).1 = [] := by
  obtain ⟨r, htrim⟩ := h.exists_trimBy
  rw [htrim.pieces_eq]

theorem isComplete_of_mem_statements (h : IsWhole s) :
    ∀ st ∈ statements s, (pieces .outside st).1 ≠ [] := by
  induction s using cut_induction with
  | passes s q hs =>
      rw [statements_of_isBlank ((isWhole_of_passes hs).1 h)]
      nofun
  | ends u rest hu ih =>
      rw [statements_end hu]
      refine List.forall_mem_append.2 ⟨fun st hst => ?_, ih ((isWhole_end hu).1 h)⟩
      obtain ⟨v, hv, hpasses⟩ := exists_trimBy_end hu
      rw [List.mem_singleton.1 (List.mem_filter.1 hst).1, hv, hpasses.pieces_end]
      exact List.cons_ne_nil _ _

theorem exists_incomplete (h : ¬IsWhole s) : ∃ st ∈ statements s, (pieces .outside st).1 = [] := by
  induction s using cut_induction with
  | passes s q hs =>
      refine ⟨_, ?_, trimBy_passes hs⟩
      rw [isWhole_of_passes hs, ← Text.trimBy_eq_nil_iff] at h
      rw [statements_of_passes hs]
      simpa using h
  | ends u rest hu ih =>
      obtain ⟨st, hst, hincomplete⟩ := ih (mt (isWhole_end hu).2 h)
      rw [statements_end hu]
      exact ⟨st, List.mem_append_right _ hst, hincomplete⟩

end Ended

end TableQuery.Statement
