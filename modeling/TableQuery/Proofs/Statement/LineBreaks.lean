import Mathlib.Data.List.Forall2
import TableQuery.Proofs.Statement.Ends

/-!
# Line breaks between the words of a statement

Outside quotes a line may be broken at a space. Texts that differ only in where this is done are
cut into statements that differ only in this.
-/

namespace TableQuery.Statement

/-- The two texts, which start at the place, have the same characters, except that outside quotes
one may have a line feed where the other has a space. -/
inductive Rebroken : Place → List Char → List Char → Prop where
  | nil (p : Place) : Rebroken p [] []
  | same {p : Place} {s s' : List Char} (c : Char) (h : Rebroken (p.next c) s s') :
      Rebroken p (c :: s) (c :: s')
  | exchange {c c' : Char} {s s' : List Char} (hc : c = ' ' ∨ c = '\n') (hc' : c' = ' ' ∨ c' = '\n')
      (h : Rebroken .outside s s') : Rebroken .outside (c :: s) (c' :: s')

variable {p q : Place} {c : Char} {s s' u u' v v' : List Char}

/-- A space or a line feed is white space and leaves the place as it is. -/
theorem blank_of_break (h : c = ' ' ∨ c = '\n') :
    Text.isBlank c = true ∧ Place.next c .outside = .outside ∧ Place.isEnd c .outside = false := by
  rcases h with rfl | rfl <;> exact ⟨by decide, rfl, rfl⟩

namespace Rebroken

theorem refl (p : Place) (s : List Char) : Rebroken p s s := by
  induction s generalizing p with
  | nil => exact .nil p
  | cons c s ih => exact .same c (ih _)

theorem symm (h : Rebroken p s s') : Rebroken p s' s := by
  induction h with
  | nil p => exact .nil p
  | same c _ ih => exact .same c ih
  | exchange hc hc' _ ih => exact .exchange hc' hc ih

theorem of_append (h : Rebroken p (u ++ v) s') :
    ∃ u' v', s' = u' ++ v' ∧ Rebroken p u u' ∧ Rebroken (p.after u) v v' := by
  induction u generalizing p s' with
  | nil => exact ⟨[], s', rfl, .nil p, h⟩
  | cons c u ih =>
      cases h with
      | same _ h =>
          obtain ⟨u', v', rfl, hu, hv⟩ := ih h
          exact ⟨c :: u', v', rfl, .same c hu, hv⟩
      | @exchange _ c' _ _ hc hc' h =>
          obtain ⟨u', v', rfl, hu, hv⟩ := ih h
          refine ⟨c' :: u', v', rfl, .exchange hc hc' hu, ?_⟩
          rwa [Place.after, List.foldl_cons, (blank_of_break hc).2.1]

theorem append (h : Rebroken p u u') (h' : Rebroken (p.after u) v v') :
    Rebroken p (u ++ v) (u' ++ v') := by
  induction h with
  | nil p => exact h'
  | same c _ ih => exact .same c (ih h')
  | exchange hc hc' _ ih =>
      rw [Place.after, List.foldl_cons, (blank_of_break hc).2.1] at h'
      exact .exchange hc hc' (ih h')

theorem passes (h : Rebroken p s s') (hs : Passes p s q) : Passes p s' q := by
  induction h with
  | nil p => exact hs
  | same c _ ih =>
      cases hs with
      | cons hc hs => exact .cons hc (ih hs)
  | exchange hc hc' _ ih =>
      cases hs with
      | cons _ hs =>
          obtain ⟨-, hnext, -⟩ := blank_of_break hc
          obtain ⟨-, hnext', hend⟩ := blank_of_break hc'
          rw [hnext] at hs
          exact .cons hend (hnext'.symm ▸ ih hs)

theorem forall_isBlank (h : Rebroken p s s') (hs : ∀ c ∈ s, Text.isBlank c = true) :
    ∀ c ∈ s', Text.isBlank c = true := by
  induction h with
  | nil p => exact hs
  | same c _ ih =>
      obtain ⟨hc, hs⟩ := List.forall_mem_cons.1 hs
      exact List.forall_mem_cons.2 ⟨hc, ih hs⟩
  | exchange hc hc' _ ih =>
      obtain ⟨-, hs⟩ := List.forall_mem_cons.1 hs
      exact List.forall_mem_cons.2 ⟨(blank_of_break hc').1, ih hs⟩

theorem trimStart (h : Rebroken .outside s s') :
    Rebroken .outside (Text.trimStart Text.isBlank s) (Text.trimStart Text.isBlank s') := by
  have hskip : ∀ {c : Char}, Text.isBlank c = true → ∀ s,
      Text.trimStart Text.isBlank (c :: s) = Text.trimStart Text.isBlank s :=
    fun hc s => Text.trimStart_append (List.forall_mem_singleton.2 hc) s
  induction s generalizing s' with
  | nil =>
      cases h
      exact .nil _
  | cons c s ih =>
      cases h with
      | same _ h =>
          by_cases hc : Text.isBlank c = true
          · have hafter := (passes_of_isBlank (List.forall_mem_singleton.2 hc)).after_eq
            rw [hskip hc, hskip hc]
            exact ih (hafter ▸ h)
          · rw [Bool.not_eq_true] at hc
            rw [Text.trimStart_cons hc, Text.trimStart_cons hc]
            exact .same c h
      | exchange hc hc' h =>
          rw [hskip (blank_of_break hc).1, hskip (blank_of_break hc').1]
          exact ih h

theorem trimEnd_cons {c' : Char} (h : Rebroken p (c :: s) (c' :: s'))
    (hrest : Rebroken p (c :: Text.trimEnd Text.isBlank s) (c' :: Text.trimEnd Text.isBlank s')) :
    Rebroken p (Text.trimEnd Text.isBlank (c :: s)) (Text.trimEnd Text.isBlank (c' :: s')) := by
  by_cases hs : ∀ d ∈ c :: s, Text.isBlank d = true
  · rw [Text.trimEnd_eq_nil_iff.2 hs, Text.trimEnd_eq_nil_iff.2 (h.forall_isBlank hs)]
    exact .nil p
  · have hs' := mt h.symm.forall_isBlank hs
    rw [Text.trimEnd_cons hs, Text.trimEnd_cons hs']
    exact hrest

theorem trimEnd (h : Rebroken p s s') :
    Rebroken p (Text.trimEnd Text.isBlank s) (Text.trimEnd Text.isBlank s') := by
  induction h with
  | nil p => exact .nil p
  | same c h ih => exact trimEnd_cons (.same c h) (.same c ih)
  | exchange hc hc' h ih => exact trimEnd_cons (.exchange hc hc' h) (.exchange hc hc' ih)

theorem trimBy (h : Rebroken .outside s s') :
    Rebroken .outside (Text.trimBy Text.isBlank s) (Text.trimBy Text.isBlank s') :=
  h.trimStart.trimEnd

end Rebroken

theorem rebroken_filter (h : Rebroken .outside s s') {x : List Char}
    (hx : ∀ y, Rebroken .outside x y → y = x) :
    List.Forall₂ (Rebroken .outside) ([s].filter (· ≠ x)) ([s'].filter (· ≠ x)) := by
  by_cases hs : s = x
  · subst hs
    obtain rfl := hx s' h
    simp
  · have hs' : s' ≠ x := by
      rintro rfl
      exact hs (hx s h.symm)
    simpa [hs, hs'] using h

theorem rebroken_statements (h : Rebroken .outside s s') :
    List.Forall₂ (Rebroken .outside) (statements s) (statements s') := by
  induction s using cut_induction generalizing s' with
  | passes s q hs =>
      rw [statements_of_passes hs, statements_of_passes (h.passes hs)]
      exact rebroken_filter h.trimBy fun y hy => by cases hy; rfl
  | ends u rest hu ih =>
      obtain ⟨u', v, rfl, hu', hv⟩ := h.of_append
      rw [hu.after_eq] at hv
      cases hv with
      | exchange hc => exact absurd hc (by decide)
      | same _ hrest =>
          rw [statements_end hu, statements_end (hu'.passes hu)]
          refine List.rel_append (rebroken_filter ?_ ?_) (ih hrest)
          · exact (hu'.append (.same ';' (.nil _))).trimBy
          · intro y hy
            cases hy with
            | exchange hc => exact absurd hc (by decide)
            | same _ hy =>
                cases hy
                rfl

end TableQuery.Statement
