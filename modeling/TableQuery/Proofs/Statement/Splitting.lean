import TableQuery.Proofs.Statement.Ends

/-!
# What splitting leaves of a text

The statements of a text stand in it in their order, and between them nothing but white space and
semicolons that end no statement. A text that consists of such parts has no other statements. So
splitting is determined by what its statements look like, and statements that are put together are
split again.
-/

namespace TableQuery.Statement

/-- A statement that is ended, by its last character. -/
def IsEnded (st : List Char) : Prop :=
  ∃ u, st = u ++ [';'] ∧ Place.outside.after u = .outside

/-- What a statement looks like. -/
structure IsStatement (st : List Char) : Prop where
  ne_nil : st ≠ []
  ne_semicolon : st ≠ [';']
  trimmed : Text.trimBy Text.isBlank st = st
  /-- A semicolon outside quotes can only be the last character. -/
  end_last : ∀ u v, st = u ++ ';' :: v → Place.outside.after u = .outside → v = []

/-- A statement with the characters up to the next one or to the end of the text. -/
structure Part where
  /-- The statement. -/
  statement : List Char
  /-- The characters behind it. -/
  gap : List Char

/-- The text of parts, with `lead` in front of the first. -/
def laid (lead : List Char) (parts : List Part) : List Char :=
  lead ++ parts.flatMap fun part => part.statement ++ part.gap

/-- The parts make up the text, and carry the statements. -/
structure Layout (s : List Char) (sts : List (List Char)) (lead : List Char) (parts : List Part) :
    Prop where
  text : s = laid lead parts
  statements : parts.map Part.statement = sts
  lead : ∀ c ∈ lead, Text.isBlank c = true ∨ c = ';'
  /-- Behind a statement that is not ended there is only white space. -/
  gaps : ∀ part ∈ parts, ∀ c ∈ part.gap,
    Text.isBlank c = true ∨ c = ';' ∧ IsEnded part.statement
  shaped : ∀ st ∈ sts, IsStatement st
  ended : ∀ st ∈ sts.dropLast, IsEnded st

variable {p q : Place} {s st u v b lead rest : List Char} {sts : List (List Char)} {part : Part}
  {parts : List Part}

section Solitary

/-- A text passes exactly if no semicolon in it stands outside quotes. -/
theorem exists_passes_iff :
    (∃ q, Passes p s q) ↔ ∀ u v, s = u ++ ';' :: v → p.after u ≠ .outside := by
  constructor
  · rintro ⟨q, h⟩ u v rfl hu
    obtain ⟨r, hr, hv⟩ := h.of_append
    rw [← hr.after_eq, hu] at hv
    cases hv with
    | cons hc _ => cases hc
  · intro h
    rcases passes_cases p s with hs | ⟨u, v, rfl, hu⟩
    · exact hs
    · exact absurd hu.after_eq (h u v rfl)

theorem IsEnded.exists_passes (h : IsEnded st) (hst : IsStatement st) :
    ∃ u, st = u ++ [';'] ∧ Passes .outside u .outside := by
  obtain ⟨u, rfl, hu⟩ := h
  refine ⟨u, rfl, ?_⟩
  obtain ⟨q, hq⟩ : ∃ q, Passes .outside u q := by
    refine exists_passes_iff.2 fun a c hac ha => ?_
    have hnil := hst.end_last a (c ++ [';']) (by rw [hac, List.append_assoc]; rfl) ha
    exact absurd hnil (by simp)
  rwa [← hq.after_eq, hu] at hq

theorem IsStatement.exists_passes (h : IsStatement st) (hended : ¬IsEnded st) :
    ∃ q, Passes .outside st q := by
  refine exists_passes_iff.2 fun u v hst hu => ?_
  have hv := h.end_last u v hst hu
  exact hended ⟨u, hv ▸ hst, hu⟩

/-- What is left of a piece that is not blank and has no end. -/
theorem isStatement_of_passes (h : Passes .outside s q) (hs : ¬∀ c ∈ s, Text.isBlank c = true) :
    IsStatement (Text.trimBy Text.isBlank s) := by
  have hsemicolon := exists_passes_iff.1 h.exists_trimBy
  refine ⟨mt Text.trimBy_eq_nil_iff.1 hs, ?_, Text.trimBy_trimBy _ s, ?_⟩
  · intro heq
    exact hsemicolon [] [] heq rfl
  · intro u v hst hu
    exact absurd hu (hsemicolon u v hst)

/-- What is left of a piece that has an end, if it is not the end alone. -/
theorem isStatement_end (h : Passes .outside u .outside)
    (hne : Text.trimBy Text.isBlank (u ++ [';']) ≠ [';']) :
    IsStatement (Text.trimBy Text.isBlank (u ++ [';'])) ∧
      IsEnded (Text.trimBy Text.isBlank (u ++ [';'])) := by
  obtain ⟨v, hv, hpasses⟩ := exists_trimBy_end h
  refine ⟨⟨?_, hne, Text.trimBy_trimBy _ _, ?_⟩, v, hv, hpasses.after_eq⟩
  · simp [hv]
  · intro a c hac ha
    rw [hv] at hac
    -- a semicolon in front of the last one would stand in the part that passes
    rcases List.eq_nil_or_concat c with rfl | ⟨c, e, rfl⟩
    · rfl
    · rw [List.concat_eq_append, ← List.cons_append, ← List.append_assoc] at hac
      obtain ⟨hva, -⟩ := List.append_inj' hac rfl
      exact absurd ha (exists_passes_iff.1 ⟨_, hpasses⟩ a c hva)

end Solitary

section Composed

/-- White space and lone semicolons in front of a text hold no statement. -/
theorem statements_gap_append (h : ∀ c ∈ b, Text.isBlank c = true ∨ c = ';') (s : List Char) :
    statements (b ++ s) = statements s := by
  induction b with
  | nil => rfl
  | cons c b ih =>
      obtain ⟨hc, hb⟩ := List.forall_mem_cons.1 h
      rw [List.cons_append]
      rcases hc with hc | rfl
      · have hblank := statements_blank_append (List.forall_mem_singleton.2 hc) (b ++ s)
        exact hblank.trans (ih hb)
      · have hend := statements_end (.nil .outside) (b ++ s)
        exact hend.trans (ih hb)

theorem passes_blank (p : Place) (h : ∀ c ∈ b, Text.isBlank c = true) : ∃ q, Passes p b q := by
  refine exists_passes_iff.2 fun u v hb => ?_
  have hsemicolon := h ';' (hb ▸ List.mem_append_right u List.mem_cons_self)
  exact absurd hsemicolon (by decide)

/-- A statement that is not ended is the only one of a text with white space behind it. -/
theorem statements_open (hst : IsStatement st) (hended : ¬IsEnded st)
    (hb : ∀ c ∈ b, Text.isBlank c = true) : statements (st ++ b) = [st] := by
  obtain ⟨q, hq⟩ := hst.exists_passes hended
  obtain ⟨r, hr⟩ := passes_blank q hb
  rw [statements_of_passes (hq.append hr), Text.trimBy_append_right hb, hst.trimmed]
  simp [hst.ne_nil]

theorem statements_ended (hst : IsStatement st) (hended : IsEnded st) (rest : List Char) :
    statements (st ++ rest) = st :: statements rest := by
  obtain ⟨u, rfl, hu⟩ := hended.exists_passes hst
  rw [List.append_assoc, List.singleton_append, statements_end hu, hst.trimmed]
  simp [hst.ne_semicolon]

theorem laid_cons :
    laid lead (part :: parts) = lead ++ (part.statement ++ laid part.gap parts) := by
  simp [laid]

/-- With one more statement in front, all but the last are ended if that one is, or if it is
the only one. -/
theorem forall_mem_dropLast_cons {P : List Char → Prop} :
    (∀ st' ∈ (st :: sts).dropLast, P st') ↔ (∀ st' ∈ sts.dropLast, P st') ∧ (sts = [] ∨ P st) := by
  cases sts with
  | nil => simp
  | cons st' sts => simp [List.dropLast_cons_cons, and_comm]

/-- What is behind the first statement is made of the other parts. -/
theorem Layout.tail (h : Layout s sts lead (part :: parts)) :
    Layout (laid part.gap parts) sts.tail part.gap parts := by
  obtain ⟨rfl, rfl, -, hgaps, hshaped, hdropLast⟩ := h
  obtain ⟨hgap, hgaps⟩ := List.forall_mem_cons.1 hgaps
  exact ⟨rfl, rfl, fun c hc => (hgap c hc).imp_right And.left, hgaps,
    (List.forall_mem_cons.1 hshaped).2, (forall_mem_dropLast_cons.1 hdropLast).1⟩

/-- A text has the statements that it is made of. -/
theorem Layout.statements_eq (h : Layout s sts lead parts) : Statement.statements s = sts := by
  induction parts generalizing s sts lead with
  | nil =>
      obtain ⟨rfl, rfl, hlead, -, -, -⟩ := h
      exact statements_gap_append hlead []
  | cons part parts ih =>
      have htail := h.tail
      obtain ⟨rfl, rfl, hlead, hgaps, hshaped, hdropLast⟩ := h
      have hst := hshaped _ List.mem_cons_self
      rw [laid_cons, statements_gap_append hlead, List.map_cons]
      by_cases hended : IsEnded part.statement
      · rw [statements_ended hst hended, ih htail]
        rfl
      · obtain rfl : parts = [] := List.map_eq_nil_iff.1
          ((forall_mem_dropLast_cons.1 hdropLast).2.resolve_right hended)
        have hblank : ∀ c ∈ part.gap, Text.isBlank c = true := fun c hc =>
          (hgaps part List.mem_cons_self c hc).resolve_right fun h => hended h.2
        rw [laid, List.flatMap_nil, List.append_nil, statements_open hst hended hblank]
        rfl

theorem after_gap (h : ∀ c ∈ b, Text.isBlank c = true ∨ c = ';') :
    Place.outside.after b = .outside := by
  induction b with
  | nil => rfl
  | cons c b ih =>
      obtain ⟨hc, hb⟩ := List.forall_mem_cons.1 h
      have hnext : Place.outside.after [c] = .outside := by
        rcases hc with hc | rfl
        · exact (passes_of_isBlank (List.forall_mem_singleton.2 hc)).after_eq
        · rfl
      rw [← List.singleton_append, Place.after_append, hnext, ih hb]

/-- Every statement starts outside quotes, so its quotes are those of the text. -/
theorem Layout.after_eq {front back : List Part}
    (h : Layout s sts lead (front ++ part :: back)) :
    Place.outside.after (laid lead front) = .outside := by
  induction front generalizing s sts lead with
  | nil =>
      rw [laid, List.flatMap_nil, List.append_nil]
      exact after_gap h.lead
  | cons first front ih =>
      have hended : IsEnded first.statement := by
        obtain ⟨-, rfl, -, -, -, hdropLast⟩ := h
        exact (forall_mem_dropLast_cons.1 hdropLast).2.resolve_left (by simp)
      have htail := ih h.tail
      obtain ⟨u, hu, hafter⟩ := hended
      rw [laid_cons, Place.after_append, after_gap h.lead, Place.after_append, hu,
        Place.after_append, hafter]
      exact htail

end Composed

section Layout

theorem Layout.gap_append (h : Layout s sts lead parts)
    (hb : ∀ c ∈ b, Text.isBlank c = true ∨ c = ';') : Layout (b ++ s) sts (b ++ lead) parts where
  text := by rw [h.text, laid, laid, List.append_assoc]
  statements := h.statements
  lead := List.forall_mem_append.2 ⟨hb, h.lead⟩
  gaps := h.gaps
  shaped := h.shaped
  ended := h.ended

theorem layout_gap (hb : ∀ c ∈ b, Text.isBlank c = true ∨ c = ';') : Layout b [] b [] where
  text := (List.append_nil b).symm
  statements := rfl
  lead := hb
  gaps := nofun
  shaped := nofun
  ended := nofun

theorem Layout.ended_append (h : Layout s sts lead parts) (hst : IsStatement st)
    (hended : IsEnded st) : Layout (st ++ s) (st :: sts) [] (⟨st, lead⟩ :: parts) where
  text := by rw [laid_cons, List.nil_append, h.text]
  statements := by rw [List.map_cons, h.statements]
  lead := nofun
  gaps := List.forall_mem_cons.2
    ⟨fun c hc => (h.lead c hc).imp_right fun heq => ⟨heq, hended⟩, h.gaps⟩
  shaped := List.forall_mem_cons.2 ⟨hst, h.shaped⟩
  ended := forall_mem_dropLast_cons.2 ⟨h.ended, .inr hended⟩

theorem layout_open (hst : IsStatement st) (hb : ∀ c ∈ b, Text.isBlank c = true) :
    Layout (st ++ b) [st] [] [⟨st, b⟩] where
  text := by simp [laid]
  statements := rfl
  lead := nofun
  gaps := List.forall_mem_singleton.2 fun c hc => .inl (hb c hc)
  shaped := List.forall_mem_singleton.2 hst
  ended := nofun

/-- A piece that has an end is white space and what is left of the piece. -/
theorem exists_blank_append_end (u rest : List Char) :
    ∃ b, (∀ c ∈ b, Text.isBlank c = true) ∧
      u ++ ';' :: rest = b ++ (Text.trimBy Text.isBlank (u ++ [';']) ++ rest) := by
  refine ⟨u.takeWhile Text.isBlank, fun c hc => List.mem_takeWhile_imp hc, ?_⟩
  rw [Text.trimBy_append_singleton (by decide), Text.trimStart, ← List.append_assoc,
    ← List.append_assoc, List.takeWhile_append_dropWhile, List.append_assoc,
    List.singleton_append]

theorem exists_layout (s : List Char) : ∃ lead parts, Layout s (statements s) lead parts := by
  induction s using cut_induction with
  | passes s q hs =>
      rw [statements_of_passes hs]
      by_cases hblank : ∀ c ∈ s, Text.isBlank c = true
      · rw [Text.trimBy_eq_nil_iff.2 hblank]
        exact ⟨s, [], layout_gap fun c hc => .inl (hblank c hc)⟩
      · have hst := isStatement_of_passes hs hblank
        obtain ⟨b, b', hparts, hb, hb'⟩ := Text.exists_trimBy_append Text.isBlank s
        generalize Text.trimBy Text.isBlank s = st at *
        subst hparts
        have hfilter : [st].filter (· ≠ []) = [st] := by simp [hst.ne_nil]
        rw [hfilter]
        exact ⟨_, _, (layout_open hst hb').gap_append fun c hc => .inl (hb c hc)⟩
  | ends u rest hu ih =>
      obtain ⟨lead, parts, h⟩ := ih
      obtain ⟨b, hb, hparts⟩ := exists_blank_append_end u rest
      have hgap : ∀ c ∈ b, Text.isBlank c = true ∨ c = ';' := fun c hc => .inl (hb c hc)
      rw [hparts, statements_blank_append hb]
      by_cases hlone : Text.trimBy Text.isBlank (u ++ [';']) = [';']
      · rw [hlone]
        have hsemicolon : ∀ c ∈ [';'], Text.isBlank c = true ∨ c = ';' :=
          List.forall_mem_singleton.2 (.inr rfl)
        rw [statements_gap_append hsemicolon]
        exact ⟨_, _, (h.gap_append hsemicolon).gap_append hgap⟩
      · obtain ⟨hst, hended⟩ := isStatement_end hu hlone
        rw [statements_ended hst hended]
        exact ⟨_, _, (h.ended_append hst hended).gap_append hgap⟩

/-- The statements are what a text is made of: there are such parts, and they have no other
statements. -/
theorem statements_eq_iff : statements s = sts ↔ ∃ lead parts, Layout s sts lead parts := by
  constructor
  · rintro rfl
    exact exists_layout s
  · rintro ⟨lead, parts, h⟩
    exact h.statements_eq

/-- Statements with nothing between them are made of themselves. -/
theorem Layout.flatten (h : Layout s sts lead parts) :
    Layout sts.flatten sts [] (sts.map fun st => ⟨st, []⟩) where
  text := by simp [laid, List.flatMap_map, List.flatMap_id']
  statements := by simp [Function.comp_def]
  lead := nofun
  gaps := by simp
  shaped := h.shaped
  ended := h.ended

/-- Splitting loses nothing. A text is made of its statements, with nothing but white space and
lone semicolons around them; each starts outside quotes, and they are the statements of the text
that they make up together. -/
theorem split_layout (text : String) :
    (∃ lead parts, Layout text.toList ((split text).map String.toList) lead parts ∧
      ∀ front part back, parts = front ++ part :: back →
        Place.outside.after (laid lead front) = .outside) ∧
    split (String.join (split text)) = split text := by
  have hlists : (split text).map String.toList = statements text.toList := by
    simp [split_eq, Function.comp_def]
  obtain ⟨lead, parts, h⟩ := exists_layout text.toList
  refine ⟨⟨lead, parts, hlists ▸ h, ?_⟩, ?_⟩
  · rintro front part back rfl
    exact h.after_eq
  · have hjoin : (String.join (split text)).toList = (statements text.toList).flatten := by
      rw [String.toList_join, List.flatMap_def, hlists]
    rw [split_eq, hjoin, h.flatten.statements_eq, split_eq]

/-- Quotes that are not closed hold the semicolons behind them. -/
example : split "a; ;'b; c;" = ["a;", "'b; c;"] := by decide +kernel

end Layout

end TableQuery.Statement
