import Mathlib.Data.List.Induction
import TableQuery.Proofs.Token.Lexeme

/-!
# Quoted literals and their spellings

Between its delimiters a text may be spelled in many ways: a backslash stands before every
delimiter and every backslash, and may stand before any other character. A literal is read
exactly if it is such a spelling. It is found to be open exactly if no delimiter behind the opening
one is free of a backslash that escapes it, where a backslash that is escaped itself escapes
nothing.
-/

namespace TableQuery.Token

variable {d c : Char} {s : List (Char × Bool)} {u w rest contents : List Char}

/-- A text between delimiters. A character comes with whether it has a backslash before it; one
that needs it has it anyway. -/
def spell (d : Char) (s : List (Char × Bool)) : List Char :=
  s.flatMap fun (c, slash) => if slash || c = d || c = '\\' then ['\\', c] else [c]

/-- The kind of the literals between two copies of the delimiter. -/
def quotedKind (d : Char) : Kind := if d = '\x60' then .identifier else .string

/-- The token of a literal: its text is the literal as it is spelled, its value what it spells. -/
def ofSpelling (d : Char) (s : List (Char × Bool)) : Token :=
  ⟨quotedKind d, String.ofList (d :: spell d s ++ [d]),
    some (.text (String.ofList (s.map Prod.fst)))⟩

/-- How many backslashes a text ends with. -/
def finalSlashes (u : List Char) : Nat := (u.reverse.takeWhile (· == '\\')).length

/-- Somewhere in the text a delimiter stands that is not escaped: the backslashes right before it,
if there are any, escape one another. -/
def Closes (d : Char) (rest : List Char) : Prop :=
  ∃ u v, rest = u ++ d :: v ∧ finalSlashes u % 2 = 0

section Spellings

/-- The literal that an identifier or a text is rendered as has no backslash but those needed. -/
theorem spell_eq_escapeQuoted (d : Char) (contents : List Char) :
    spell d (contents.map (·, false)) = Text.escapeQuoted d contents := by
  simp [spell, Text.escapeQuoted, List.flatMap_map]

theorem quoted_spell (d : Char) (s : List (Char × Bool)) :
    Quoted d (spell d s ++ [d]) (s.map Prod.fst) := by
  induction s with
  | nil => exact .close
  | cons p s ih =>
      obtain ⟨c, slash⟩ := p
      have hcons : spell d ((c, slash) :: s) =
          (if slash || c = d || c = '\\' then ['\\', c] else [c]) ++ spell d s := rfl
      rw [hcons]
      split
      · exact .escaped c ih
      · next hc =>
        simp only [Bool.or_eq_true, decide_eq_true_eq, not_or] at hc
        exact .plain hc.1.2 hc.2 ih

theorem Quoted.exists_spell (h : Quoted d w contents) :
    ∃ s, w = spell d s ++ [d] ∧ contents = s.map Prod.fst := by
  induction h with
  | close => exact ⟨[], rfl, rfl⟩
  | escaped c _ ih =>
      obtain ⟨s, rfl, rfl⟩ := ih
      exact ⟨(c, true) :: s, rfl, rfl⟩
  | @plain c _ _ hc hc' _ ih =>
      obtain ⟨s, rfl, rfl⟩ := ih
      refine ⟨(c, false) :: s, ?_, rfl⟩
      simp [spell, hc, hc']

end Spellings

section Escapes

/-- Whether the character behind the text is escaped, found in one pass from the front. -/
def escapes (u : List Char) (escaped : Bool) : Bool :=
  u.foldl (fun escaped c => !escaped && c == '\\') escaped

theorem finalSlashes_append_singleton (u : List Char) (c : Char) :
    finalSlashes (u ++ [c]) = if c = '\\' then finalSlashes u + 1 else 0 := by
  rw [finalSlashes, List.reverse_append, List.reverse_singleton, List.singleton_append,
    List.takeWhile_cons]
  by_cases hc : c = '\\'
  · simp [hc, finalSlashes]
  · simp [hc]

/-- The last backslashes escape in pairs, from the first of them on. -/
theorem escapes_false_iff (u : List Char) : escapes u false = false ↔ finalSlashes u % 2 = 0 := by
  induction u using List.reverseRecOn with
  | nil => simp [escapes, finalSlashes]
  | append_singleton u c ih =>
      have hlast : escapes (u ++ [c]) false = (!escapes u false && c == '\\') := by
        simp [escapes]
      rw [hlast, finalSlashes_append_singleton]
      by_cases hc : c = '\\'
      · rw [if_pos hc, hc, beq_self_eq_true, Bool.and_true, Bool.not_eq_eq_eq_not, Bool.not_false,
          ← Bool.not_eq_false, ih]
        omega
      · simp [hc]

/-- The closing delimiter by the state that the pass from the front is in before it. -/
theorem closes_iff : Closes d rest ↔ ∃ u v, rest = u ++ d :: v ∧ escapes u false = false := by
  simp only [Closes, escapes_false_iff]

theorem not_closes_nil : ¬Closes d [] := by
  rintro ⟨u, v, h, -⟩
  simp at h

theorem closes_delimiter : Closes d (d :: rest) := ⟨[], rest, rfl, rfl⟩

/-- A character that neither closes nor escapes makes no difference. -/
theorem closes_plain (hc : c ≠ d) (hc' : c ≠ '\\') : Closes d (c :: rest) ↔ Closes d rest := by
  have hstep : ∀ u, escapes (c :: u) false = escapes u false := by
    simp [escapes, beq_eq_false_iff_ne.2 hc']
  rw [closes_iff, closes_iff]
  constructor
  · rintro ⟨u, v, h, hu⟩
    cases u with
    | nil => exact absurd (List.cons.inj h).1 hc
    | cons e u =>
        obtain ⟨rfl, rfl⟩ := List.cons.inj h
        exact ⟨u, v, rfl, hstep u ▸ hu⟩
  · rintro ⟨u, v, rfl, hu⟩
    exact ⟨c :: u, v, rfl, (hstep u).trans hu⟩

theorem not_closes_slash (hd : d ≠ '\\') : ¬Closes d ['\\'] := by
  rw [closes_iff]
  rintro ⟨u, v, h, -⟩
  have hmem : d ∈ ['\\'] := h ▸ List.mem_append_right u List.mem_cons_self
  exact hd (List.mem_singleton.1 hmem)

/-- A backslash takes the character behind it along, also a delimiter or a backslash. -/
theorem closes_escaped (hd : d ≠ '\\') : Closes d ('\\' :: c :: rest) ↔ Closes d rest := by
  have hstep : ∀ u, escapes ('\\' :: c :: u) false = escapes u false := by simp [escapes]
  rw [closes_iff, closes_iff]
  constructor
  · rintro ⟨u, v, h, hu⟩
    match u with
    | [] => exact absurd (List.cons.inj h).1.symm hd
    | [e] =>
        -- the delimiter stands right behind the backslash, so it is escaped
        obtain ⟨rfl, -⟩ := List.cons.inj h
        simp [escapes] at hu
    | e :: f :: u =>
        obtain ⟨rfl, htail⟩ := List.cons.inj h
        obtain ⟨rfl, rfl⟩ := List.cons.inj htail
        exact ⟨u, v, rfl, hstep u ▸ hu⟩
  · rintro ⟨u, v, rfl, hu⟩
    exact ⟨'\\' :: c :: u, v, rfl, (hstep u).trans hu⟩

/-- Decoding fails where no delimiter closes, and only there. -/
theorem decodeQuoted_eq_none_iff (hd : d ≠ '\\') :
    Text.decodeQuoted d rest = none ↔ ¬Closes d rest := by
  fun_induction Text.decodeQuoted d rest with
  | case1 => simp [not_closes_nil]
  | case2 => simp [closes_delimiter]
  | case3 => simp [not_closes_slash hd]
  | case4 c rest _ ih => rw [Option.map_eq_none_iff, ih, closes_escaped hd]
  | case5 c rest hc hc' ih => rw [Option.map_eq_none_iff, ih, closes_plain hc hc']

end Escapes

section Reading

theorem literalKind?_eq_quotedKind (hd : d ∈ ['\x22', '\x27', '\x60']) :
    literalKind? d = some (quotedKind d) := by
  simp only [List.mem_cons, List.not_mem_nil, or_false] at hd
  rcases hd with rfl | rfl | rfl <;> rfl

theorem next_literal (hd : d ∈ ['\x22', '\x27', '\x60']) :
    next (d :: rest) = readLiteral (quotedKind d) d rest := by
  have hkind := literalKind?_eq_quotedKind hd
  rw [next_cons (isBlank_of_literalKind? hkind), readToken_literal hkind]

theorem readLiteral_spell (hd : d ≠ '\\') (s : List (Char × Bool)) (rest : List Char) :
    readLiteral (quotedKind d) d (spell d s ++ d :: rest) = .token (ofSpelling d s) rest := by
  have hread := (quoted_spell d s).readLiteral_append hd (quotedKind d) rest
  rwa [List.append_assoc, List.singleton_append] at hread

theorem exists_spell_of_readLiteral {t : Token} {after : List Char} (hd : d ≠ '\\')
    (h : readLiteral (quotedKind d) d rest = .token t after) :
    ∃ s, rest = spell d s ++ d :: after ∧ t = ofSpelling d s := by
  obtain ⟨w, contents, rfl, hw, rfl⟩ := exists_quoted_of_readLiteral hd h
  obtain ⟨s, rfl, rfl⟩ := hw.exists_spell
  exact ⟨s, by rw [List.append_assoc, List.singleton_append], rfl⟩

/-- A literal is read or found to be open. -/
theorem readLiteral_cases (kind : Kind) (d : Char) (rest : List Char) :
    (∃ t after, readLiteral kind d rest = .token t after) ∨
      readLiteral kind d rest = ⟨.error .openLiteral, rest⟩ := by
  rw [readLiteral]
  split
  · exact .inl ⟨_, _, rfl⟩
  · exact .inr rfl

theorem readLiteral_open_iff (hd : d ≠ '\\') (kind : Kind) :
    readLiteral kind d rest = ⟨.error .openLiteral, rest⟩ ↔ ¬Closes d rest := by
  rw [← decodeQuoted_eq_none_iff hd]
  cases hdecode : Text.decodeQuoted d rest with
  | none => simp [readLiteral, hdecode]
  | some p => simp [readLiteral, hdecode, Reading.token]

/-- What is read from an opening delimiter on. Every spelling of a text gives a token with this
text as its value, and what is left starts right behind the closing delimiter; nothing else gives
a token. If no delimiter closes, and only then, there is an error, and what is left starts right
behind the opening delimiter. -/
theorem next_quoted (hd : d ∈ ['\x22', '\x27', '\x60']) (rest : List Char) :
    (∀ t after, next (d :: rest) = .token t after ↔
      ∃ s, rest = spell d s ++ d :: after ∧ t = ofSpelling d s) ∧
    (Closes d rest ↔ ∃ t after, next (d :: rest) = .token t after) ∧
    (¬Closes d rest ↔ ∃ e, (next (d :: rest)).answer = .error e) ∧
    (¬Closes d rest → next (d :: rest) = ⟨.error .openLiteral, rest⟩) := by
  have hslash : d ≠ '\\' := ne_of_literalKind? (literalKind?_eq_quotedKind hd)
  have hopen := @readLiteral_open_iff d rest hslash (quotedKind d)
  rw [next_literal hd]
  refine ⟨fun t after => ⟨exists_spell_of_readLiteral hslash, ?_⟩, ?_, ?_, hopen.2⟩
  · rintro ⟨s, rfl, rfl⟩
    exact readLiteral_spell hslash s after
  · constructor
    · intro hcloses
      exact (readLiteral_cases _ d rest).resolve_right fun h => hopen.1 h hcloses
    · rintro ⟨t, after, h⟩
      by_contra hcloses
      cases h.symm.trans (hopen.2 hcloses)
  · constructor
    · intro hcloses
      exact ⟨.openLiteral, congrArg Reading.answer (hopen.2 hcloses)⟩
    · rintro ⟨e, h⟩
      rcases readLiteral_cases (quotedKind d) d rest with ⟨t, after, htoken⟩ | herror
      · cases htoken ▸ h
      · exact hopen.1 herror

/-- Two backslashes are one and leave the delimiter behind them to close; a third one escapes
it. -/
theorem next_quoted_slashes :
    next ['\x22', '\\', '\\', '\x22', 'a'] = .token (ofSpelling '\x22' [('\\', false)]) ['a'] ∧
    next ['\x22', '\\', '\\', '\\', '\x22', 'a'] =
      ⟨.error .openLiteral, ['\\', '\\', '\\', '\x22', 'a']⟩ := by
  obtain ⟨htoken, -, -, -⟩ :=
    next_quoted (d := '\x22') (by decide) ['\\', '\\', '\x22', 'a']
  obtain ⟨-, -, -, hopen⟩ :=
    next_quoted (d := '\x22') (by decide) ['\\', '\\', '\\', '\x22', 'a']
  refine ⟨(htoken _ _).2 ⟨[('\\', false)], rfl, rfl⟩, hopen fun hcloses => ?_⟩
  rw [closes_escaped (by decide), closes_escaped (by decide)] at hcloses
  obtain ⟨u, v, h, -⟩ := hcloses
  have hmem : '\x22' ∈ ['a'] := h ▸ List.mem_append_right u List.mem_cons_self
  exact absurd hmem (by decide)

end Reading

end TableQuery.Token
