import TableQuery.Proofs.Token.Cursor

/-!
# Calls of the lexer, failures passed over

A lexer can be called again after a failure. Each call leaves an end of what it was given, so the
cursor goes forward from character to character; it stays where it is only at the end of the text
and where no token starts, and there every further call has the same answer.
-/

namespace TableQuery.Token

open Text

/-- What is left of a text after a number of calls. -/
def restAfter (s : List Char) : Nat → List Char
  | 0 => s
  | calls + 1 => (next (restAfter s calls)).rest

/-- An answer after which the cursor stands still: the text is over, or no token starts. -/
def IsFinal (answer : Except LexicalError (Option Token)) : Prop :=
  answer = .ok none ∨ ∃ found, answer = .error (.stray found)

/-- What a call does to the cursor: it goes from the start of a character to the start of a
character, past whatever is read, and a token covers all that lies behind the white space. -/
structure Call (bytes : List UInt8) (pos : Nat) (step : Step) : Prop where
  read : nextAt bytes pos = some step
  boundary : isCharBoundary bytes pos = true ∧ isCharBoundary bytes step.pos = true
  le : pos ≤ step.pos ∧ step.pos ≤ bytes.length
  lt : (∃ t, step.answer = .ok (some t)) ∨ step.answer = .error .openLiteral → pos < step.pos
  covers : ∀ t, step.answer = .ok (some t) → ∃ start w, skipBlank bytes pos = some start ∧
    slice bytes start step.pos = some w ∧ t.Spelled w

variable {s u w : List Char} {c : Char} {t : Token}

section OneCall

theorem next_cases (s : List Char) : s.dropWhile isBlank = [] ∧ next s = ⟨.ok none, []⟩ ∨
    ∃ c rest, s.dropWhile isBlank = c :: rest ∧ isBlank c = false ∧ next s = readToken c rest := by
  rw [next]
  cases h : s.dropWhile isBlank with
  | nil => exact .inl ⟨rfl, rfl⟩
  | cons c rest => exact .inr ⟨c, rest, rfl, head?_dropWhile c (by rw [h]; rfl), rfl⟩

/-- A call gives a final answer, a token, or an open literal. -/
theorem isFinal_or (s : List Char) : IsFinal (next s).answer ∨
    (∃ t, (next s).answer = .ok (some t)) ∨ (next s).answer = .error .openLiteral := by
  rcases next_cases s with ⟨-, hnext⟩ | ⟨c, rest, -, -, hnext⟩
  · exact .inl (.inl (by rw [hnext]))
  · rw [hnext]
    cases hanswer : (readToken c rest).answer with
    | error e =>
        rcases readToken_eq_error hanswer with ⟨_, -, -, hread⟩ | ⟨-, -, hread⟩
        · rw [hread] at hanswer
          exact .inr (.inr hanswer.symm)
        · rw [hread] at hanswer
          exact .inl (.inr ⟨_, hanswer.symm⟩)
    | ok found =>
        cases found with
        | none => exact absurd hanswer answer_readToken
        | some t => exact .inr (.inl ⟨t, rfl⟩)

/-- A final answer is given once more on what is left. -/
theorem next_rest_of_isFinal (h : IsFinal (next s).answer) : next (next s).rest = next s := by
  rcases next_cases s with ⟨-, hnext⟩ | ⟨c, rest, -, hc, hnext⟩
  · rw [hnext]
    rfl
  · rw [hnext] at h ⊢
    rcases h with h | ⟨found, h⟩
    · exact absurd h answer_readToken
    · rcases readToken_eq_error h with ⟨_, -, -, hread⟩ | ⟨-, -, hread⟩
      · rw [hread] at h
        cases h
      · rw [hread]
        exact (next_cons hc).trans hread

/-- A token is the lexeme that the call consumes behind the white space. -/
theorem lexeme_of_next (h : (next s).answer = .ok (some t))
    (hw : s.dropWhile isBlank = w ++ (next s).rest) : Lexeme w (next s).rest t := by
  rcases next_cases s with ⟨-, hnext⟩ | ⟨c, rest, hdrop, -, hnext⟩
  · rw [hnext] at h
    cases h
  · rw [hnext] at h hw ⊢
    obtain ⟨w', hw', hlexeme⟩ := exists_lexeme (t := t)
      (show readToken c rest = ⟨_, (readToken c rest).rest⟩ by rw [← h])
    obtain rfl := List.append_cancel_right (hw'.symm.trans (hdrop.symm.trans hw))
    exact hlexeme

/-- The delimiter of an open literal is consumed. -/
theorem ne_nil_of_openLiteral (h : (next s).answer = .error .openLiteral)
    (hw : s.dropWhile isBlank = w ++ (next s).rest) : w ≠ [] := by
  rintro rfl
  rcases next_cases s with ⟨-, hnext⟩ | ⟨c, rest, hdrop, -, hnext⟩
  · rw [hnext] at h
    cases h
  · rw [hnext] at h hw
    rcases readToken_eq_error h with ⟨_, -, -, hread⟩ | ⟨-, -, hread⟩
    · rw [hread, hdrop] at hw
      exact List.cons_ne_self c rest hw
    · rw [hread] at h
      cases h

theorem width_pos (h : w ≠ []) : 0 < width w := by
  obtain ⟨c, w, rfl⟩ := List.exists_cons_of_ne_nil h
  rw [width_cons]
  exact Nat.add_pos_left c.utf8Size_pos _

/-- A call at a character consumes the front of what is left there. -/
theorem exists_call (u s : List Char) :
    ∃ w, s = w ++ (next s).rest ∧
      Call (utf8 (u ++ s)) (width u) ⟨(next s).answer, width (u ++ w)⟩ := by
  obtain ⟨w, hw, hread⟩ := nextAt_eq u s
  have hs : u ++ s = u ++ s.takeWhile isBlank ++ (w ++ (next s).rest) := by
    rw [← hw, List.append_assoc, List.takeWhile_append_dropWhile]
  have hmoves : w ≠ [] → width u < width (u ++ s.takeWhile isBlank) + width w := fun hne => by
    have := width_pos hne
    rw [width_append]
    omega
  refine ⟨s.takeWhile isBlank ++ w, ?_, ?_⟩
  · rw [List.append_assoc, ← hw, List.takeWhile_append_dropWhile]
  rw [← List.append_assoc, width_append]
  refine ⟨hread, ⟨isCharBoundary_width u s, ?_⟩, ⟨?_, ?_⟩, ?_, fun t ht => ?_⟩
  · have hboundary := isCharBoundary_width (u ++ s.takeWhile isBlank ++ w) (next s).rest
    rwa [width_append, List.append_assoc, ← hs] at hboundary
  · change width u ≤ width (u ++ s.takeWhile isBlank) + width w
    rw [width_append]
    omega
  · change width (u ++ s.takeWhile isBlank) + width w ≤ width (u ++ s)
    rw [hs]
    simp only [width_append]
    omega
  · rintro (⟨t, ht⟩ | hopen)
    · exact hmoves (lexeme_of_next ht hw).ne_nil
    · exact hmoves (ne_nil_of_openLiteral hopen hw)
  · refine ⟨_, w, skipBlank_eq u s, ?_, (lexeme_of_next ht hw).spelled⟩
    rw [hs]
    exact slice_eq _ w _

end OneCall

section AllCalls

theorem restAfter_add (s : List Char) (calls : Nat) (h : IsFinal (next (restAfter s calls)).answer)
    (more : Nat) : next (restAfter s (calls + more)) = next (restAfter s calls) := by
  induction more with
  | zero => rfl
  | succ more ih =>
      rw [← ih] at h
      rw [← Nat.add_assoc, restAfter, next_rest_of_isFinal h, ih]

theorem exists_front (s : List Char) (k : Nat) : ∃ u, s = u ++ restAfter s k := by
  induction k with
  | zero => exact ⟨[], rfl⟩
  | succ k ih =>
      obtain ⟨u, hu⟩ := ih
      obtain ⟨w, hw, -⟩ := exists_call u (restAfter s k)
      exact ⟨u ++ w, by rw [List.append_assoc, restAfter, ← hw, ← hu]⟩

/-- Where the cursor stands after a number of calls. -/
def cursorAfter (s : List Char) (calls : Nat) : Nat := width s - width (restAfter s calls)

theorem cursorAfter_eq {k : Nat} (h : s = u ++ restAfter s k) : cursorAfter s k = width u := by
  have hwidth := congrArg width h
  rw [width_append] at hwidth
  rw [cursorAfter]
  omega

theorem call_cursorAfter (s : List Char) (k : Nat) :
    Call (utf8 s) (cursorAfter s k)
      ⟨(next (restAfter s k)).answer, cursorAfter s (k + 1)⟩ := by
  obtain ⟨u, hu⟩ := exists_front s k
  obtain ⟨w, hw, hcall⟩ := exists_call u (restAfter s k)
  have hnext : s = u ++ w ++ restAfter s (k + 1) := by
    rw [List.append_assoc, restAfter, ← hw, ← hu]
  rw [← hu] at hcall
  rwa [cursorAfter_eq hu, cursorAfter_eq hnext]

/-- Without a final answer each call takes a byte at least. -/
theorem le_cursorAfter (s : List Char) {k : Nat}
    (h : ∀ i < k, ¬IsFinal (next (restAfter s i)).answer) : k ≤ cursorAfter s k := by
  induction k with
  | zero => exact Nat.zero_le _
  | succ k ih =>
      have hle := ih fun i hi => h i (Nat.lt_succ_of_lt hi)
      have hlt := (call_cursorAfter s k).lt
        ((isFinal_or _).resolve_left (h k (Nat.lt_succ_self k)))
      exact Nat.lt_of_le_of_lt hle hlt

theorem isFinal_of_width_le (s : List Char) :
    ∃ k ≤ width s, IsFinal (next (restAfter s k)).answer := by
  by_contra hnone
  push Not at hnone
  have hle := le_cursorAfter s (k := width s) fun i hi => hnone i hi.le
  have hrest : restAfter s (width s) = [] := by
    by_contra hne
    have hpos := width_pos hne
    obtain ⟨u, hu⟩ := exists_front s (width s)
    have hwidth := congrArg width hu
    rw [cursorAfter_eq hu] at hle
    rw [width_append] at hwidth
    omega
  exact hnone (width s) le_rfl (.inl (by rw [hrest]; rfl))

/-- Calls of the lexer on one text, whatever they answer. The cursor never leaves the characters of
the text nor moves back; the text over or no token in front of it, the same answer is given for
good, and no later than after as many calls as the text has bytes. -/
theorem calls_advance_or_repeat (text : String) :
    ∃ (pos : Nat → Nat) (answer : Nat → Except LexicalError (Option Token)),
      pos 0 = 0 ∧
      (∀ k, answer k = (next (restAfter text.toList k)).answer ∧
        Call (encode text) (pos k) ⟨answer k, pos (k + 1)⟩) ∧
      (∀ k, IsFinal (answer k) → ∀ j ≥ k, answer j = answer k) ∧
      ∀ j ≥ (encode text).length, answer j = answer (encode text).length := by
  have hfinal : ∀ k, IsFinal (next (restAfter text.toList k)).answer → ∀ j ≥ k,
      (next (restAfter text.toList j)).answer = (next (restAfter text.toList k)).answer := by
    intro k hk j hj
    obtain ⟨more, rfl⟩ := Nat.exists_eq_add_of_le hj
    rw [restAfter_add text.toList k hk]
  refine ⟨cursorAfter text.toList, fun k => (next (restAfter text.toList k)).answer,
    Nat.sub_self _, fun k => ⟨rfl, call_cursorAfter text.toList k⟩, hfinal, fun j hj => ?_⟩
  obtain ⟨k, hk, hanswer⟩ := isFinal_of_width_le text.toList
  exact (hfinal k hanswer j (hk.trans hj)).trans (hfinal k hanswer _ hk).symm

/-- White space of three bytes and an open quote, then a word, then a letter that starts none. -/
example : (List.range 5).map (cursorAfter "\u2003'a é".toList) = [0, 4, 5, 6, 6] := by decide

end AllCalls

end TableQuery.Token
