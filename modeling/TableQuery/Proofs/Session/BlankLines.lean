import TableQuery.Proofs.Session.Lines
import TableQuery.Proofs.Statement.Splitting

/-!
# Blank lines between inputs

A session meets commands and statements in its lines. A blank line where nothing is pending changes
nothing as long as the next line is no command: white space in front of a statement is trimmed. But
the blank line is then pending itself, so a command behind it is not seen; it is collected, and
becomes the start of the next statement.

## Implementation notes

What is met does not depend on the format of tables, and what has to be done is found from it by
`replay`. That a command is hidden could not be told from the actions alone, as not every command
leaves an action.
-/

namespace TableQuery.Session

open Statement

/-- Something that a session meets in its lines. -/
inductive Event where
  /-- A command that is obeyed. -/
  | command (c : Command)
  /-- A statement that is run. -/
  | statement (text : String)
  /-- A line that is no text, which ends the session. -/
  | unreadable
deriving DecidableEq

/-- What a session meets in a line. -/
def meets (s : Session) (line : String) : List Event :=
  if s.pending.isEmpty && Command.isCommand (Text.trim line) then
    [.command (.ofText (Text.trim line))]
  else if Statement.isComplete (s.pending ++ line) then
    (Statement.split (s.pending ++ line)).map .statement
  else []

/-- What a session meets in lines, of which those that are no texts are missing. -/
def events (s : Session) : List (Option String) → List Event
  | [] => []
  | none :: _ => [.unreadable]
  | some line :: rest => s.meets line ++ (s.take line).2.elim [] fun s => s.events rest

/-- The session after lines, unless one of them ends it. -/
def after (s : Session) (texts : List (Option String)) : Option Session :=
  texts.foldlM (fun s line => line.bind fun line => (s.take line).2) s

/-- What has to be done for events. -/
def replay (format : TableFormat) : List Event → List Action
  | [] => []
  | .command c :: rest =>
    (obey { format } c).1 ++ (obey { format } c).2.elim [] fun s => replay s.format rest
  | .statement text :: rest => .run format text :: replay format rest
  | .unreadable :: _ => [.complain .unreadable]

variable {s : Session} {line pending : String} {texts rest : List (Option String)}
  {blank : String}

section Encounters

theorem replay_statements (format : TableFormat) (sts : List String) (rest : List Event) :
    replay format (sts.map .statement ++ rest) = sts.map (.run format) ++ replay format rest := by
  induction sts with
  | nil => rfl
  | cons st sts ih => rw [List.map_cons, List.cons_append, replay, ih]; rfl

theorem actions_cons (s : Session) (line : String) (rest : List (Option String)) :
    s.actions (some line :: rest) =
      (s.take line).1 ++ (s.take line).2.elim [] fun s => s.actions rest := by
  rw [actions]
  obtain ⟨now, next | next⟩ := s.take line
  · exact (List.append_nil now).symm
  · rfl

theorem take_of_command (hpending : s.pending = "")
    (hline : Command.isCommand (Text.trim line) = true) :
    s.take line = s.obey (.ofText (Text.trim line)) := by
  rw [take, hpending, hline]
  rfl

theorem take_of_collect
    (h : (s.pending.isEmpty && Command.isCommand (Text.trim line)) = false) :
    s.take line = ((s.collect line).1, some (s.collect line).2) := by
  rw [take, h]
  rfl

theorem actions_eq_replay (s : Session) (texts : List (Option String)) :
    s.actions texts = replay s.format (s.events texts) := by
  induction texts generalizing s with
  | nil => rfl
  | cons line rest ih =>
      cases line with
      | none => rfl
      | some line =>
          rw [actions_cons, events, meets]
          cases hline : s.pending.isEmpty && Command.isCommand (Text.trim line) with
          | true =>
              obtain ⟨hpending, hcommand⟩ := Bool.and_eq_true_iff.1 hline
              have hs : s = { format := s.format } :=
                congrArg (Session.mk s.format) (String.isEmpty_iff.1 hpending)
              rw [take_of_command (String.isEmpty_iff.1 hpending) hcommand, if_pos rfl,
                List.singleton_append, replay, ← hs]
              cases (s.obey (.ofText (Text.trim line))).2 with
              | none => rfl
              | some next => exact congrArg _ (ih next)
          | false =>
              rw [take_of_collect hline, if_neg Bool.false_ne_true, collect]
              cases Statement.isComplete (s.pending ++ line) with
              | true =>
                  rw [if_pos rfl, if_pos rfl, replay_statements]
                  exact congrArg _ (ih _)
              | false => exact ih _

end Encounters

section Lines

theorem events_append (s : Session) (texts rest : List (Option String)) :
    s.events (texts ++ rest) =
      s.events texts ++ (s.after texts).elim [] fun s => s.events rest := by
  induction texts generalizing s with
  | nil => rfl
  | cons line texts ih =>
      cases line with
      | none => rfl
      | some line =>
          rw [List.cons_append, events, events, after, List.foldlM_cons, List.append_assoc]
          refine congrArg _ ?_
          change _ = _ ++ ((s.take line).2.bind fun s => s.after texts).elim [] _
          cases (s.take line).2 with
          | none => rfl
          | some next => exact ih next

theorem events_of_collect (rest : List (Option String))
    (h : (s.pending.isEmpty && Command.isCommand (Text.trim line)) = false) :
    s.events (some line :: rest) =
      if Statement.isComplete (s.pending ++ line) then
        (split (s.pending ++ line)).map .statement ++ events { format := s.format } rest
      else events { format := s.format, pending := s.pending ++ line } rest := by
  rw [events, meets, h, if_neg Bool.false_ne_true, take_of_collect h, collect]
  cases Statement.isComplete (s.pending ++ line) <;> rfl

theorem isComplete_blank_append (hblank : ∀ c ∈ blank.toList, Text.isBlank c = true)
    (text : String) : Statement.isComplete (blank ++ text) = Statement.isComplete text := by
  rw [Statement.isComplete, String.toList_append, (passes_of_isBlank hblank).pieces_append,
    Statement.isComplete, Bool.eq_iff_iff]
  simp only [Bool.not_eq_true', List.isEmpty_eq_false_iff, ne_eq, glue_fst_eq_nil_iff]

theorem split_blank_append (hblank : ∀ c ∈ blank.toList, Text.isBlank c = true)
    (text : String) : split (blank ++ text) = split text := by
  rw [split_eq, String.toList_append, statements_blank_append hblank, split_eq]

/-- White space in front of what is pending does not matter. -/
theorem events_blank_append (hblank : ∀ c ∈ blank.toList, Text.isBlank c = true)
    (format : TableFormat) (hne : pending ≠ "") (texts : List (Option String)) :
    events { format, pending := blank ++ pending } texts = events { format, pending } texts := by
  induction texts generalizing pending with
  | nil => rfl
  | cons line rest ih =>
      cases line with
      | none => rfl
      | some line =>
          have hnext := @ih (pending ++ line) (by simp [hne])
          rw [events_of_collect rest (by simp [hne]), events_of_collect rest (by simp [hne])]
          simp only [String.append_assoc, isComplete_blank_append hblank,
            split_blank_append hblank, hnext]

/-- A blank line where nothing is pending is pending itself. -/
theorem events_blank (hblank : ∀ c ∈ blank.toList, Text.isBlank c = true) (format : TableFormat)
    (texts : List (Option String)) :
    events { format } (some blank :: texts) = events { format, pending := blank } texts := by
  have htrim : Text.trim blank = "" := by
    rw [Text.trim, Text.trimBy_eq_nil_iff.2 hblank, String.ofList_nil]
  have hopen : Statement.isComplete blank = false := by
    rw [← String.append_empty (s := blank), isComplete_blank_append hblank]
    rfl
  rw [events_of_collect texts (by rw [htrim]; rfl), String.empty_append, hopen]
  rfl

/-- The next line is a command. -/
def StartsWithCommand (texts : List (Option String)) : Prop :=
  ∃ line, texts.head? = some (some line) ∧ Command.isCommand (Text.trim line) = true

theorem events_behind_blank (hblank : ∀ c ∈ blank.toList, Text.isBlank c = true)
    (format : TableFormat) (hne : texts.head? ≠ some (some "")) (h : ¬StartsWithCommand texts) :
    events { format, pending := blank } texts = events { format } texts := by
  cases texts with
  | nil => rfl
  | cons line rest =>
      cases line with
      | none => rfl
      | some line =>
          have hline : Command.isCommand (Text.trim line) = false :=
            Bool.eq_false_iff.2 fun hcommand => h ⟨line, rfl, hcommand⟩
          have hline' : line ≠ "" := fun hnil => hne (by rw [hnil]; rfl)
          have hnext := events_blank_append hblank format hline' rest
          rw [events_of_collect rest (by rw [hline, Bool.and_false]),
            events_of_collect rest (by rw [hline, Bool.and_false]), String.empty_append,
            isComplete_blank_append hblank, split_blank_append hblank, hnext]

end Lines

section Commands

/-- A text with a character that is neither white space nor a semicolon has a statement. -/
theorem statements_ne_nil {text : List Char} {c : Char} (hc : c ∈ text)
    (hblank : Text.isBlank c = false) (hne : c ≠ ';') : statements text ≠ [] := by
  intro hnil
  obtain ⟨lead, parts, htext, hparts, hlead, -, -, -⟩ := exists_layout text
  rw [hnil, List.map_eq_nil_iff] at hparts
  rw [htext, hparts, laid, List.flatMap_nil, List.append_nil] at hc
  rcases hlead c hc with h | h
  · rw [hblank] at h
    cases h
  · exact hne h

/-- Where a dot is pending or is collected next, a statement comes before the next command. -/
theorem head?_events_of_dot (hpending : s.pending ≠ "")
    (hdot : '.' ∈ s.pending.toList ∨ ∃ line, texts.head? = some (some line) ∧ '.' ∈ line.toList)
    (c : Command) : (s.events texts).head? ≠ some (.command c) := by
  induction texts generalizing s with
  | nil => nofun
  | cons line rest ih =>
      cases line with
      | none => nofun
      | some line =>
          have hmem : '.' ∈ (s.pending ++ line).toList := by
            rw [String.toList_append, List.mem_append]
            exact hdot.imp_right fun ⟨line', hhead, hline⟩ => by cases hhead; exact hline
          rw [events_of_collect rest (by simp [hpending])]
          -- once the text is complete the dot is part of a statement, until then it stays pending
          split
          · obtain ⟨st, sts, hsts⟩ := List.exists_cons_of_ne_nil
              (statements_ne_nil hmem (by decide) (by decide))
            rw [split_eq, hsts]
            nofun
          · exact ih (by simp [hpending]) (.inl hmem)

theorem dot_mem_of_isCommand (h : Command.isCommand (Text.trim line) = true) :
    '.' ∈ line.toList := by
  rw [Command.isCommand, beq_iff_eq, Text.toList_trim] at h
  obtain ⟨b, b', hline, -, -⟩ := Text.exists_trimBy_append Text.isBlank line.toList
  rw [hline]
  exact List.mem_append_right _ (List.mem_append_left _ (List.mem_of_head? h))

/-- Behind a blank line a command is not obeyed. -/
theorem events_behind_blank_ne (hne : blank ≠ "") (format : TableFormat)
    (h : StartsWithCommand texts) :
    events { format, pending := blank } texts ≠ events { format } texts := by
  obtain ⟨line, hhead, hcommand⟩ := h
  have hdot := dot_mem_of_isCommand hcommand
  intro heq
  refine head?_events_of_dot (s := { format, pending := blank }) hne
    (.inr ⟨line, hhead, hdot⟩) (.ofText (Text.trim line)) ?_
  obtain ⟨rest, rfl⟩ := List.head?_eq_some_iff.1 hhead
  rw [heq, events, meets, hcommand]
  rfl

end Commands

section Inputs

theorem actionsOf_eq_replay (s : Session) (input : List UInt8) :
    s.actionsOf input = replay s.format (s.events (lineTexts input)) :=
  s.actions_eq_replay _

theorem lines_append_of_whole {before : List UInt8} (h : ∀ b ∈ before.getLast?, b = 10)
    (rest : List UInt8) : lines (before ++ rest) = lines before ++ lines rest := by
  induction before with
  | nil => rfl
  | cons b before ih =>
      rw [List.cons_append, lines, lines]
      cases before with
      | nil =>
          obtain rfl : b = 10 := h b rfl
          rfl
      | cons b' before =>
          rw [ih (by simpa using h)]
          split
          · rfl
          · have hne : lines (b' :: before) ≠ [] := by
              intro hnil
              have hflatten := flatten_lines (b' :: before)
              rw [hnil] at hflatten
              cases hflatten
            cases hlines : lines (b' :: before) with
            | nil => exact absurd hlines hne
            | cons line others => rfl

theorem lineTexts_append {before : List UInt8} (h : ∀ b ∈ before.getLast?, b = 10)
    (rest : List UInt8) : lineTexts (before ++ rest) = lineTexts before ++ lineTexts rest := by
  rw [lineTexts, lines_append_of_whole h, List.map_append, lineTexts, lineTexts]

theorem getLast?_encode_line (line : String) :
    ∀ b ∈ (Text.encode (line ++ "\n")).getLast?, b = 10 := by
  intro b hb
  have hlast : Text.encode (line ++ "\n") = Text.encode line ++ [10] := by
    rw [Text.encode, String.toList_append, List.flatMap_append, Text.encode]
    rfl
  rw [hlast, List.getLast?_concat] at hb
  exact (Option.some.inj hb).symm

theorem lines_line {line : List Char} (h : '\n' ∉ line) :
    Text.lines (line ++ ['\n']) = [line ++ ['\n']] := by
  induction line with
  | nil => rfl
  | cons c line ih =>
      rw [List.mem_cons, not_or] at h
      rw [List.cons_append, Text.lines, if_neg (Ne.symm h.1), ih h.2]

theorem toByteArray_of_decode {bytes : List UInt8} {text : String}
    (h : Text.decode bytes = .ok text) : text.toByteArray = bytes.toByteArray := by
  rw [Text.decode, String.fromUTF8?] at h
  split at h
  · next heq =>
    cases h
    split at heq
    · cases heq
      rfl
    · cases heq
  · cases h

theorem head?_lineTexts_ne (input : List UInt8) : (lineTexts input).head? ≠ some (some "") := by
  cases input with
  | nil => nofun
  | cons b rest =>
      obtain ⟨line, others, hlines⟩ : ∃ line others, lines (b :: rest) = (b :: line) :: others := by
        rw [lines]
        split
        · exact ⟨_, _, rfl⟩
        · split <;> exact ⟨_, _, rfl⟩
      rw [lineTexts, hlines, List.map_cons, List.head?_cons]
      intro h
      have hempty : Text.decode (b :: line) = .ok "" := by
        cases hdecode : Text.decode (b :: line) with
        | error valid => rw [hdecode] at h; cases h
        | ok text => rw [hdecode] at h; cases h; rfl
      have hsize := congrArg ByteArray.size (toByteArray_of_decode hempty)
      simp at hsize

/-- The input so far is whole lines, and behind them no statement is pending. -/
structure AtRest (s : Session) (before : List UInt8) : Prop where
  whole : ∀ b ∈ before.getLast?, b = 10
  nothing_pending : ∀ s', s.after (lineTexts before) = some s' → s'.pending = ""

/-- The next line is a command, and the session is not over. -/
def ObeysNext (s : Session) (before rest : List UInt8) : Prop :=
  s.after (lineTexts before) ≠ none ∧ StartsWithCommand (lineTexts rest)

/-- A blank line where nothing is pending leaves what is met as it is, commands and statements in
their order, just when the next line is not a command to be obeyed; and then the same has to be
done. -/
theorem events_blank_line_iff (s : Session) {before : List UInt8} (h : s.AtRest before)
    (rest : List UInt8) {blank : String}
    (hblank : ∀ c ∈ blank.toList, Text.isBlank c = true ∧ c ≠ '\n') :
    let line := Text.encode (blank ++ "\n")
    (s.events (lineTexts (before ++ (line ++ rest))) = s.events (lineTexts (before ++ rest)) ↔
      ¬s.ObeysNext before rest) ∧
    (¬s.ObeysNext before rest →
      s.actionsOf (before ++ (line ++ rest)) = s.actionsOf (before ++ rest)) := by
  intro line
  have hall : ∀ c ∈ (blank ++ "\n").toList, Text.isBlank c = true := by
    rw [String.toList_append]
    have hend : ∀ c ∈ "\n".toList, Text.isBlank c = true := List.forall_mem_singleton.2 (by decide)
    exact List.forall_mem_append.2 ⟨fun c hc => (hblank c hc).1, hend⟩
  have hnewline : '\n' ∉ blank.toList := fun hmem => (hblank _ hmem).2 rfl
  have hline : lineTexts line = [some (blank ++ "\n")] := by
    rw [lineTexts_encode, String.toList_append]
    exact (congrArg _ (lines_line hnewline)).trans (by simp)
  have hiff : s.events (lineTexts (before ++ (line ++ rest))) =
      s.events (lineTexts (before ++ rest)) ↔ ¬s.ObeysNext before rest := by
    rw [lineTexts_append h.whole, lineTexts_append (getLast?_encode_line blank),
      lineTexts_append h.whole, events_append, events_append, List.append_right_inj, hline,
      ObeysNext, List.singleton_append]
    cases hafter : s.after (lineTexts before) with
    | none => simp
    | some s' =>
        have hs' : s' = { format := s'.format } :=
          congrArg (Session.mk s'.format) (h.nothing_pending s' hafter)
        -- from here on the two sessions differ in the white space that is pending
        rw [Option.elim_some, Option.elim_some, hs', events_blank hall, not_and]
        constructor
        · intro heq _ hcommand
          exact events_behind_blank_ne (by simp) _ hcommand heq
        · intro hnext
          exact events_behind_blank hall _ (head?_lineTexts_ne rest) (hnext (by simp))
  refine ⟨hiff, fun hobeys => ?_⟩
  rw [actionsOf_eq_replay, hiff.2 hobeys, actionsOf_eq_replay]

/-- A blank line between a command and a statement that goes on over two lines. -/
theorem events_blank_line_behind_command :
    let before := Text.encode ".headers off\n"
    let rest := Text.encode "SELECT a\nFROM 't';\n"
    let line := Text.encode (" \t" ++ "\n")
    AtRest {} before ∧ ¬ObeysNext {} before rest ∧
      actionsOf {} (before ++ (line ++ rest)) = actionsOf {} (before ++ rest) ∧
      actionsOf {} (before ++ rest) = [.run { header := false } "SELECT a\nFROM 't';"] := by
  intro before rest line
  have hbefore : lineTexts before = [some ".headers off\n"] := by
    rw [lineTexts_encode]
    decide +kernel
  have hafter : after {} (lineTexts before) = some { format := { header := false } } := by
    rw [hbefore]
    decide +kernel
  have hrest : AtRest {} before := by
    refine ⟨getLast?_encode_line ".headers off", fun s' hs' => ?_⟩
    rw [hafter] at hs'
    cases hs'
    rfl
  have hnext : ¬ObeysNext {} before rest := by
    rintro ⟨-, text, hhead, hcommand⟩
    rw [lineTexts_encode] at hhead
    cases hhead
    revert hcommand
    decide +kernel
  have hactions : actionsOf {} (before ++ rest) =
      [.run { header := false } "SELECT a\nFROM 't';"] := by
    rw [show before ++ rest = Text.encode ".headers off\nSELECT a\nFROM 't';\n" by decide +kernel,
      actionsOf_encode]
    decide +kernel
  have hblank : ∀ c ∈ " \t".toList, Text.isBlank c = true ∧ c ≠ '\n' :=
    List.forall_mem_cons.2 ⟨by decide, List.forall_mem_singleton.2 (by decide)⟩
  exact ⟨hrest, hnext, (events_blank_line_iff {} hrest rest hblank).2 hnext, hactions⟩

/-- A blank line in front of a command, where nothing is pending: the command is not obeyed, and is
run as a part of the statement behind it. -/
theorem actionsOf_hidden_command :
    let text := ".headers off\nSELECT a FROM 't';\n"
    AtRest {} [] ∧
      actionsOf {} (Text.encode text) = [.run { header := false } "SELECT a FROM 't';"] ∧
      actionsOf {} (Text.encode ("\n" ++ text)) =
        [.run {} ".headers off\nSELECT a FROM 't';"] := by
  intro text
  rw [actionsOf_encode, actionsOf_encode]
  refine ⟨⟨nofun, fun s' hs' => ?_⟩, by decide +kernel, by decide +kernel⟩
  cases hs'
  rfl

end Inputs

end TableQuery.Session
