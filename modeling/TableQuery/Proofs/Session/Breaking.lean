import TableQuery.Proofs.Session.Lines
import TableQuery.Proofs.Statement.LineBreaks

/-!
# Where the lines of a script may be broken

A session runs all it has collected as soon as a line ends a statement, also what stands behind
that end. So the lines of a script matter only where a line goes on behind a statement that ends on
it.
-/

namespace TableQuery.Session

open Statement

/-- The statements that a session runs while it takes the lines, none of which is a command. -/
def ran (pending : List Char) : List (List Char) → List (List Char)
  | [] => []
  | line :: lines =>
    if (pieces .outside (pending ++ line)).1 = [] then ran (pending ++ line) lines
    else statements (pending ++ line) ++ ran [] lines

/-- A text without commands whose last statement ends. -/
structure Script (text : String) : Prop where
  /-- No line is a command. -/
  no_commands : ∀ line ∈ Text.lines text.toList,
    Command.isCommand (Text.trim (String.ofList line)) = false
  /-- Only white space stands behind the last end of a statement. -/
  isWhole : IsWhole text.toList

/-- Where a line holds the end of a statement, only white space stands behind the last one on it.
The first line starts at the given place. -/
def EndsLines : Place → List (List Char) → Prop
  | _, [] => True
  | p, line :: lines =>
    ((pieces p line).1 ≠ [] → ∀ c ∈ (pieces p line).2, Text.isBlank c = true) ∧
      EndsLines (p.after line) lines

instance decidableEndsLines :
    (p : Place) → (lines : List (List Char)) → Decidable (EndsLines p lines)
  | _, [] => isTrue trivial
  | p, line :: lines =>
    have := decidableEndsLines (p.after line) lines
    decidable_of_iff (((pieces p line).1 ≠ [] → (pieces p line).2.all Text.isBlank = true) ∧
      EndsLines (p.after line) lines) (and_congr_left' (imp_congr_right fun _ => List.all_eq_true))

variable {format : TableFormat} {pending line : List Char} {lines : List (List Char)} {p q : Place}

theorem actions_eq_ran
    (h : ∀ line ∈ lines, Command.isCommand (Text.trim (String.ofList line)) = false) :
    actions { format, pending := String.ofList pending }
        (lines.map fun line => some (String.ofList line)) =
      (ran pending lines).map fun st => .run format (String.ofList st) := by
  induction lines generalizing pending with
  | nil => rfl
  | cons line lines ih =>
      obtain ⟨hline, hlines⟩ := List.forall_mem_cons.1 h
      rw [List.map_cons, actions, take, hline, Bool.and_false, if_neg Bool.false_ne_true, collect,
        ← String.ofList_append, isComplete, split_eq, String.toList_ofList, ran]
      by_cases hopen : (pieces .outside (pending ++ line)).1 = []
      · simp only [hopen, List.isEmpty_nil, Bool.not_true, Bool.false_eq_true, if_false, if_true,
          List.nil_append]
        exact ih hlines
      · have hends : (pieces .outside (pending ++ line)).1.isEmpty = false :=
          List.isEmpty_eq_false_iff.2 hopen
        simp only [hopen, hends, Bool.not_false, if_true, if_false, List.map_append, List.map_map]
        exact congrArg _ (@ih [] hlines)

/-- A session runs the statements of a script just when no line goes on behind one that ends. -/
theorem ran_eq_statements_iff (hpending : Passes .outside pending p)
    (hwhole : IsWhole (pending ++ lines.flatten)) :
    ran pending lines = statements (pending ++ lines.flatten) ↔ EndsLines p lines := by
  induction lines generalizing pending p with
  | nil =>
      rw [List.flatten_nil, List.append_nil] at hwhole ⊢
      rw [statements_of_isBlank ((isWhole_of_passes hpending).1 hwhole)]
      exact iff_of_true rfl trivial
  | cons line lines ih =>
      rw [List.flatten_cons, ← List.append_assoc] at hwhole ⊢
      rw [ran, EndsLines]
      have hpieces := hpending.pieces_append line
      split
      · next hopen =>
        rw [hpieces, glue_fst_eq_nil_iff] at hopen
        rw [ih (hpending.append (passes_of_pieces hopen)) hwhole]
        exact (and_iff_right fun hends => absurd hopen hends).symm
      · next hends =>
        rw [hpieces, glue_fst_eq_nil_iff] at hends
        have hline : IsWhole (pending ++ line) ↔
            ∀ c ∈ (pieces p line).2, Text.isBlank c = true := by
          rw [IsWhole, hpieces, glue_snd hends]
        by_cases hleft : IsWhole (pending ++ line)
        · have hafter : p.after line = .outside := by
            rw [← after_of_isWhole hleft, Place.after_append, hpending.after_eq]
          rw [isWhole_append hleft] at hwhole
          have hrest := @ih [] .outside (.nil _) hwhole
          rw [List.nil_append] at hrest
          rw [statements_append hleft, List.append_right_inj, hrest, hafter]
          exact (and_iff_right fun _ => hline.1 hleft).symm
        · refine iff_of_false (fun heq => ?_) fun h => hleft (hline.2 (h.1 hends))
          obtain ⟨st, hst, hincomplete⟩ := exists_incomplete hleft
          refine isComplete_of_mem_statements hwhole st ?_ hincomplete
          rw [← heq]
          exact List.mem_append_left _ hst

theorem actionsOf_eq_ran {text : String} (h : Script text) :
    actionsOf { format } (Text.encode text) =
      (ran [] (Text.lines text.toList)).map fun st => .run format (String.ofList st) := by
  rw [actionsOf_encode, ← actions_eq_ran h.no_commands]

theorem actionsOf_eq_split_iff {text : String} (h : Script text) :
    actionsOf { format } (Text.encode text) = (split text).map (.run format) ↔
      EndsLines .outside (Text.lines text.toList) := by
  have hinjective : Function.Injective fun st => Action.run format (String.ofList st) := by
    intro st st' heq
    exact String.ofList_injective (Action.run.inj heq).2
  have hwhole : IsWhole ([] ++ (Text.lines text.toList).flatten) := by
    rw [List.nil_append, Text.flatten_lines]
    exact h.isWhole
  have hran := ran_eq_statements_iff (.nil _) hwhole
  rw [List.nil_append, Text.flatten_lines] at hran
  rw [actionsOf_eq_ran h, split_eq, List.map_map, ← hran]
  exact (List.map_injective_iff.2 hinjective).eq_iff

/-- A session runs the statements of a script, cut as one text, just when no line goes on behind a
statement that ends on it. Where lines are broken otherwise does not matter: between scripts of
this kind an exchange of spaces and line feeds outside quotes is found again in what is run. -/
theorem actionsOf_script (format : TableFormat) {text : String} (h : Script text) :
    (actionsOf { format } (Text.encode text) = (split text).map (.run format) ↔
      EndsLines .outside (Text.lines text.toList)) ∧
    ∀ text', Script text' → EndsLines .outside (Text.lines text.toList) →
      EndsLines .outside (Text.lines text'.toList) → Rebroken .outside text.toList text'.toList →
        ∃ run run' : List String,
          actionsOf { format } (Text.encode text) = run.map (.run format) ∧
          actionsOf { format } (Text.encode text') = run'.map (.run format) ∧
          List.Forall₂ (fun st st' => Rebroken .outside st.toList st'.toList) run run' := by
  refine ⟨actionsOf_eq_split_iff h, fun text' h' hends hends' hbroken => ?_⟩
  refine ⟨split text, split text', (actionsOf_eq_split_iff h).2 hends,
    (actionsOf_eq_split_iff h').2 hends', ?_⟩
  rw [split_eq, split_eq, List.forall₂_map_left_iff, List.forall₂_map_right_iff]
  simpa using rebroken_statements hbroken

/-- A break between the words of a statement does not matter, also behind one in quotes. -/
theorem actionsOf_script_two_statements :
    let text := "SELECT 'p;\nq' FROM 't';\nSELECT a\nFROM 't';\n"
    let text' := "SELECT 'p;\nq' FROM 't';\nSELECT a FROM 't';\n"
    actionsOf {} (Text.encode text) =
        ["SELECT 'p;\nq' FROM 't';", "SELECT a\nFROM 't';"].map (.run {}) ∧
      ∃ run run' : List String, actionsOf {} (Text.encode text) = run.map (.run {}) ∧
        actionsOf {} (Text.encode text') = run'.map (.run {}) ∧
        List.Forall₂ (fun st st' => Rebroken .outside st.toList st'.toList) run run' := by
  intro text text'
  have hscript : Script text := ⟨by decide +kernel, by decide +kernel⟩
  have hscript' : Script text' := ⟨by decide +kernel, by decide +kernel⟩
  have hends : EndsLines .outside (Text.lines text.toList) := by decide +kernel
  have hends' : EndsLines .outside (Text.lines text'.toList) := by decide +kernel
  have hbroken : Rebroken .outside text.toList text'.toList := by
    let front := "SELECT 'p;\nq' FROM 't';\nSELECT a".toList
    let back := "FROM 't';\n".toList
    rw [show text.toList = front ++ '\n' :: back by decide +kernel,
      show text'.toList = front ++ ' ' :: back by decide +kernel]
    exact (Rebroken.refl _ front).append (.exchange (.inr rfl) (.inl rfl) (.refl _ back))
  obtain ⟨hsplit, hexchange⟩ := actionsOf_script {} hscript
  exact ⟨(hsplit.2 hends).trans (by decide +kernel),
    hexchange text' hscript' hends hends' hbroken⟩

/-- Behind a statement that ends on its line, an unfinished one is run as it stands. -/
theorem actionsOf_unfinished_line :
    let text := "SELECT a FROM 't'; SELECT a\nFROM 't';\n"
    Script text ∧
      actionsOf {} (Text.encode text) =
        ["SELECT a FROM 't';", "SELECT a", "FROM 't';"].map (.run {}) ∧
      actionsOf {} (Text.encode text) ≠ (split text).map (.run {}) := by
  intro text
  have hscript : Script text := ⟨by decide +kernel, by decide +kernel⟩
  refine ⟨hscript, ?_, ?_⟩
  · rw [actionsOf_eq_ran hscript]
    decide +kernel
  · rw [ne_eq, actionsOf_eq_split_iff hscript]
    decide +kernel

end TableQuery.Session
