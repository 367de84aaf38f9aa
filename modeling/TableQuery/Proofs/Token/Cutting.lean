import Mathlib.Data.List.TakeWhile
import TableQuery.Operator
import TableQuery.Token.Lexer

/-!
# Cutting a text that is written token by token

A token is read as far as it goes, so what it is depends on the characters behind it. The text
of an expression sets a boundary behind every word, numeral and operator: a space, a comma or a
parenthesis. Pieces of text that are followed by a boundary are cut independently.
-/

namespace TableQuery.Token

/-- The text is cut into the tokens. -/
def Cuts (s : List Char) (tokens : List Token) : Prop :=
  ∀ bound, s.length ≤ bound → readAll bound s = .ok tokens

/-- A character that no word, numeral or operator goes on with. -/
def isBoundary (c : Char) : Bool := c == ' ' || c == ',' || c == '(' || c == ')'

/-- The text is over or goes on with a boundary. -/
def AtBoundary (s : List Char) : Prop := ∀ c ∈ s.head?, isBoundary c = true

/-- In front of a boundary the characters are cut into the tokens. -/
def Lexes (s : List Char) (tokens : List Token) : Prop :=
  ∀ rest ts, AtBoundary rest → Cuts rest ts → Cuts (s ++ rest) (tokens ++ ts)

variable {s s' rest : List Char} {t : Token} {ts ts' : List Token} {c : Char}

section Characters

theorem isDigit_iff : c.isDigit = true ↔ 48 ≤ c.toNat ∧ c.toNat ≤ 57 := by
  simp only [Char.isDigit, Bool.and_eq_true, decide_eq_true_eq, ge_iff_le, UInt32.le_iff_toNat_le]
  rfl

theorem isWordStart_iff : isWordStart c = true ↔
    65 ≤ c.toNat ∧ c.toNat ≤ 90 ∨ 97 ≤ c.toNat ∧ c.toNat ≤ 122 ∨ c = '_' := by
  have halpha : c.isAlpha = (decide (c.val ≥ 'A'.val ∧ c.val ≤ 'Z'.val) ||
      decide (c.val ≥ 'a'.val) && decide (c.val ≤ 'z'.val)) := rfl
  simp only [isWordStart, halpha, Bool.or_eq_true, Bool.and_eq_true, decide_eq_true_eq,
    ge_iff_le, beq_iff_eq, UInt32.le_iff_toNat_le, or_assoc]
  rfl

theorem isBlank_of_toNat (h : 33 ≤ c.toNat) (h' : c.toNat ≤ 132) : Text.isBlank c = false := by
  simp only [Text.isBlank, Text.CodeRanges.contains, Text.blankRanges, List.any_cons,
    List.any_nil, Bool.or_false, Bool.or_eq_false_iff, Bool.and_eq_false_iff,
    decide_eq_false_iff_not]
  omega

theorem isBlank_of_isWordStart (h : isWordStart c = true) : Text.isBlank c = false := by
  rcases isWordStart_iff.mp h with h | h | rfl
  · exact isBlank_of_toNat (by omega) (by omega)
  · exact isBlank_of_toNat (by omega) (by omega)
  · decide

theorem isBlank_of_isDigit (h : c.isDigit = true) : Text.isBlank c = false := by
  have := isDigit_iff.mp h
  exact isBlank_of_toNat (by omega) (by omega)

theorem isWordStart_of_isDigit (h : c.isDigit = true) : isWordStart c = false := by
  rw [Bool.eq_false_iff]
  intro hstart
  have := isDigit_iff.mp h
  rcases isWordStart_iff.mp hstart with h' | h' | rfl
  · omega
  · omega
  · exact absurd h (by decide)

theorem isWordPart_of_isBoundary (h : isBoundary c = true) : isWordPart c = false := by
  simp only [isBoundary, Bool.or_eq_true, beq_iff_eq] at h
  rcases h with ((rfl | rfl) | rfl) | rfl <;> decide

theorem isDigit_of_isBoundary (h : isBoundary c = true) : c.isDigit = false := by
  simp only [isBoundary, Bool.or_eq_true, beq_iff_eq] at h
  rcases h with ((rfl | rfl) | rfl) | rfl <;> decide

end Characters

section Cutting

theorem cuts_nil : Cuts [] [] := by
  intro bound _
  cases bound <;> rfl

theorem Cuts.token (h : Cuts rest ts) (hnext : next s = .token t rest)
    (hlength : rest.length < s.length) : Cuts s (t :: ts) := by
  intro bound hbound
  obtain ⟨bound, rfl⟩ : ∃ n, bound = n + 1 := ⟨bound - 1, by omega⟩
  have hrest := h bound (by omega)
  simp [readAll, hnext, Reading.token, hrest, Except.map]

theorem Cuts.space (h : Cuts s ts) : Cuts (' ' :: s) ts := by
  intro bound hbound
  rw [List.length_cons] at hbound
  obtain ⟨bound, rfl⟩ : ∃ n, bound = n + 1 := ⟨bound - 1, by omega⟩
  have hspace : next (' ' :: s) = next s := rfl
  have hread := h (bound + 1) (by omega)
  rw [readAll] at hread ⊢
  rw [hspace]
  exact hread

/-- A text that is cut into tokens, at least one of them, has these tokens. -/
theorem Cuts.ofText_eq {text : String} (h : Cuts text.toList (t :: ts)) :
    ofText text = .ok (t :: ts) := by
  have hblank : ¬text.toList.all Text.isBlank = true := by
    intro hblank
    have hnone : next text.toList = ⟨.ok none, []⟩ := by
      have hdrop : text.toList.dropWhile Text.isBlank = [] :=
        List.dropWhile_eq_nil_iff.mpr (List.all_eq_true.mp hblank)
      rw [next, hdrop]
    have hread := h (text.toList.length + 1) (by omega)
    simp [readAll, hnone] at hread
  rw [ofText, if_neg hblank]
  exact h _ (Nat.le_refl _)

end Cutting

section Pieces

theorem atBoundary_nil : AtBoundary [] := by simp [AtBoundary]

theorem AtBoundary.append (h : AtBoundary s) (hrest : AtBoundary rest) :
    AtBoundary (s ++ rest) := by
  cases s with
  | nil => exact hrest
  | cons c s => exact h

theorem lexes_nil : Lexes [] [] := fun _ _ _ h => h

/-- Two pieces with a boundary between them. -/
theorem Lexes.append (h : Lexes s ts) (h' : Lexes s' ts') (hs' : AtBoundary s') :
    Lexes (s ++ s') (ts ++ ts') := by
  intro rest us hrest hcuts
  rw [List.append_assoc, List.append_assoc]
  exact h _ _ (hs'.append hrest) (h' rest us hrest hcuts)

theorem Lexes.space (h : Lexes s ts) : Lexes (' ' :: s) ts :=
  fun rest us hrest hcuts => (h rest us hrest hcuts).space

/-- A token of a single character ends by itself. -/
theorem Lexes.char {kind : Kind} (h : Lexes s ts) (hc : ofChar? c = some kind) :
    Lexes (c :: s) (⟨kind, c.toString, none⟩ :: ts) := by
  intro rest us hrest hcuts
  refine (h rest us hrest hcuts).token ?_ (by simp)
  unfold ofChar? at hc
  split at hc <;> cases hc <;> rfl

theorem next_cons (h : Text.isBlank c = false) : next (c :: s) = readToken c s := by
  simp [next, h]

/-- A word ends in front of a boundary. -/
theorem lexes_word {word : String} (hword : word.toList = c :: s) (hc : isWordStart c = true)
    (hs : s.all isWordPart = true) : Lexes word.toList [ofWord word] := by
  intro rest us hrest hcuts
  have hs : ∀ d ∈ s, isWordPart d = true := List.all_eq_true.mp hs
  have htake : (s ++ rest).takeWhile isWordPart = s := by
    rw [List.takeWhile_append_of_pos hs]
    cases rest with
    | nil => simp
    | cons d rest => simp [isWordPart_of_isBoundary (hrest d rfl)]
  have hdrop : (s ++ rest).dropWhile isWordPart = rest := by
    rw [List.dropWhile_append_of_pos hs]
    cases rest with
    | nil => simp
    | cons d rest => simp [isWordPart_of_isBoundary (hrest d rfl)]
  refine hcuts.token ?_ (by rw [List.length_append, hword, List.length_cons]; omega)
  rw [hword, List.cons_append, next_cons (isBlank_of_isWordStart hc), readToken, if_pos hc, htake,
    hdrop, ← hword, String.ofList_toList]

/-- Digits, with a point between two of them or none. -/
inductive Numeral : List Char → Prop where
  | whole {w : List Char} (hne : w ≠ []) (h : ∀ c ∈ w, c.isDigit = true) : Numeral w
  | decimal {w f : List Char} (hne : w ≠ []) (h : ∀ c ∈ w, c.isDigit = true) (hne' : f ≠ [])
      (h' : ∀ c ∈ f, c.isDigit = true) : Numeral (w ++ '.' :: f)

/-- The token of a numeral. -/
def ofNumeral (s : List Char) : Token :=
  ⟨.number, String.ofList s, some (.number (Number.ofDecimalText s))⟩

theorem splitDigits_append {w : List Char} (h : ∀ c ∈ w, c.isDigit = true)
    (hrest : ∀ c ∈ rest.head?, c.isDigit = false) : Number.splitDigits (w ++ rest) = (w, rest) := by
  rw [Number.splitDigits, List.takeWhile_append_of_pos h, List.dropWhile_append_of_pos h]
  cases rest with
  | nil => simp
  | cons d rest => simp [hrest d rfl]

theorem splitNumeral_whole {w : List Char} (h : ∀ c ∈ w, c.isDigit = true)
    (hrest : ∀ c ∈ rest.head?, c.isDigit = false)
    (hpoint : ∀ d after, rest = '.' :: d :: after → d.isDigit = false) :
    splitNumeral (w ++ rest) = (w, rest) := by
  rw [splitNumeral, splitDigits_append h hrest]
  simp only
  split
  · next d after => rw [if_neg (by simp [hpoint d after rfl])]
  · rfl

theorem splitNumeral_decimal {w f : List Char} (h : ∀ c ∈ w, c.isDigit = true) (hne : f ≠ [])
    (hf : ∀ c ∈ f, c.isDigit = true) (hrest : ∀ c ∈ rest.head?, c.isDigit = false) :
    splitNumeral (w ++ '.' :: f ++ rest) = (w ++ '.' :: f, rest) := by
  obtain ⟨d, f, rfl⟩ := List.exists_cons_of_ne_nil hne
  have hfraction := splitDigits_append hf hrest
  rw [List.cons_append] at hfraction
  rw [List.append_assoc, splitNumeral, List.cons_append, splitDigits_append h (by simp)]
  simp [hf d List.mem_cons_self, hfraction]

theorem splitNumeral_append (h : Numeral s) (hrest : AtBoundary rest) :
    splitNumeral (s ++ rest) = (s, rest) := by
  have hdigit : ∀ c ∈ rest.head?, c.isDigit = false := fun c hc =>
    isDigit_of_isBoundary (hrest c hc)
  cases h with
  | whole _ h =>
      refine splitNumeral_whole h hdigit ?_
      rintro d after rfl
      exact absurd (hrest '.' rfl) (by decide)
  | decimal _ h hne' h' => exact splitNumeral_decimal h hne' h' hdigit

theorem Numeral.exists_cons (h : Numeral s) : ∃ c s', s = c :: s' ∧ c.isDigit = true := by
  cases h with
  | whole hne h =>
      obtain ⟨c, s', rfl⟩ := List.exists_cons_of_ne_nil hne
      exact ⟨c, s', rfl, h c List.mem_cons_self⟩
  | decimal hne h =>
      obtain ⟨c, s', rfl⟩ := List.exists_cons_of_ne_nil hne
      exact ⟨c, _, rfl, h c List.mem_cons_self⟩

/-- A numeral ends in front of a boundary. -/
theorem lexes_numeral (h : Numeral s) : Lexes s [ofNumeral s] := by
  intro rest us hrest hcuts
  have hsplit := splitNumeral_append h hrest
  obtain ⟨c, s, rfl, hc⟩ := h.exists_cons
  refine hcuts.token ?_ (by rw [List.length_append, List.length_cons]; omega)
  rw [List.cons_append] at hsplit ⊢
  rw [next_cons (isBlank_of_isDigit hc), readToken, if_neg (by simp [isWordStart_of_isDigit hc]),
    if_pos hc, hsplit]
  rfl

end Pieces

section Literals

variable {d : Char}

theorem decodeQuoted_delimiter : Text.decodeQuoted d (d :: rest) = some ([], rest) := by
  rw [Text.decodeQuoted.eq_def]
  simp

theorem decodeQuoted_escaped (hd : d ≠ '\\') : Text.decodeQuoted d ('\\' :: c :: rest) =
    (Text.decodeQuoted d rest).map fun (s, after) => (c :: s, after) := by
  rw [Text.decodeQuoted.eq_def]
  simp [hd.symm]

theorem decodeQuoted_plain (h : c ≠ d) (h' : c ≠ '\\') : Text.decodeQuoted d (c :: rest) =
    (Text.decodeQuoted d rest).map fun (s, after) => (c :: s, after) := by
  rw [Text.decodeQuoted.eq_def]
  simp [h, h']

theorem decodeQuoted_escapeQuoted (hd : d ≠ '\\') (s rest : List Char) :
    Text.decodeQuoted d (Text.escapeQuoted d s ++ d :: rest) = some (s, rest) := by
  induction s with
  | nil => exact decodeQuoted_delimiter
  | cons c s ih =>
      have hcons : Text.escapeQuoted d (c :: s) =
          (if c = d || c = '\\' then ['\\', c] else [c]) ++ Text.escapeQuoted d s := rfl
      rw [hcons]
      split
      · rw [List.append_assoc, List.cons_append, List.cons_append, List.nil_append,
          decodeQuoted_escaped hd, ih]
        rfl
      · next hc =>
        simp only [Bool.or_eq_true, decide_eq_true_eq, not_or] at hc
        rw [List.append_assoc, List.cons_append, List.nil_append, decodeQuoted_plain hc.1 hc.2, ih]
        rfl

/-- A literal ends by itself. -/
theorem lexes_literal {kind : Kind} (hd : literalKind? d = some kind) (name : String) :
    Lexes (Text.encodeQuoted d name).toList
      [⟨kind, Text.encodeQuoted d name, some (.text name)⟩] := by
  intro rest us hrest hcuts
  have hslash : d ≠ '\\' := by
    rintro rfl
    simp [literalKind?] at hd
  have hread : readLiteral kind d (Text.escapeQuoted d name.toList ++ d :: rest) =
      .token ⟨kind, Text.encodeQuoted d name, some (.text name)⟩ rest := by
    have hwritten : (Text.escapeQuoted d name.toList ++ d :: rest).take
        ((Text.escapeQuoted d name.toList ++ d :: rest).length - rest.length) =
        Text.escapeQuoted d name.toList ++ [d] := by
      have hlength : (Text.escapeQuoted d name.toList ++ d :: rest).length - rest.length =
          (Text.escapeQuoted d name.toList ++ [d]).length := by
        simp only [List.length_append, List.length_cons, List.length_nil]
        omega
      rw [hlength, List.append_cons _ d rest, List.take_left]
    simp only [readLiteral, decodeQuoted_escapeQuoted hslash, hwritten, String.ofList_toList]
    rfl
  refine hcuts.token ?_ (by simp [Text.encodeQuoted]; omega)
  have htext : (Text.encodeQuoted d name).toList ++ rest =
      d :: (Text.escapeQuoted d name.toList ++ d :: rest) := by simp [Text.encodeQuoted]
  rw [htext, ← hread]
  unfold literalKind? at hd
  split at hd <;> cases hd <;> rfl

end Literals

section Operators

/-- The token that the symbol of an operator is cut into. -/
def ofOperator : Operator → Token
  | .multiply => ⟨.star, "*", none⟩
  | op => operator op.symbol

/-- A symbol ends in front of a boundary, where it cannot become a longer one. -/
theorem next_symbol {op : Operator} (hop : op.symbol ∉ wordOperators) (hrest : AtBoundary rest) :
    next (op.symbol.toList ++ rest) = .token (ofOperator op) rest := by
  cases rest with
  | nil => cases op <;> first | exact absurd hop (by decide) | rfl
  | cons c rest =>
      have hc := hrest c rfl
      simp only [isBoundary, Bool.or_eq_true, beq_iff_eq] at hc
      rcases hc with ((rfl | rfl) | rfl) | rfl <;>
        cases op <;> first | exact absurd hop (by decide) | rfl

theorem lexes_operator (op : Operator) : Lexes op.symbol.toList [ofOperator op] := by
  by_cases hop : op.symbol ∈ wordOperators
  · have hword : ofWord op.symbol = ofOperator op := by
      cases op <;> first | exact absurd hop (by decide) | rfl
    rw [← hword]
    cases op <;>
      first | exact absurd hop (by decide) | exact lexes_word rfl (by decide) (by decide)
  · intro rest us hrest hcuts
    refine hcuts.token (next_symbol hop hrest) ?_
    have hpos : 0 < op.symbol.toList.length := by cases op <;> decide
    rw [List.length_append]
    omega

end Operators

section Numerals

/-- The tokens of numerals denote what the numerals say. -/
def NumeralsRead (tokens : List Token) : Prop :=
  ∀ t ∈ tokens, t.kind = .number → ∃ s, Numeral s ∧ t = ofNumeral s

theorem NumeralsRead.mono (h : NumeralsRead ts) (hsub : ∀ t ∈ ts', t ∈ ts) : NumeralsRead ts' :=
  fun t ht => h t (hsub t ht)

end Numerals

end TableQuery.Token
