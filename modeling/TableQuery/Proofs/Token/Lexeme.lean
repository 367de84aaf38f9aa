import TableQuery.Proofs.Token.Cutting

/-!
# How a token is written

A token is a word, a numeral, a literal, a symbol of one character or an operator, and white space
may stand in front of it. Where it ends depends on one or two characters behind it, and only on
their being there: a text that ends earlier is read alike.
-/

namespace TableQuery.Token

variable {s u w rest tail contents : List Char} {t : Token} {c : Char}

/-- What stands behind the opening delimiter of a literal, up to the closing one. -/
inductive Quoted (d : Char) : List Char → List Char → Prop where
  | close : Quoted d [d] []
  | escaped {w contents : List Char} (c : Char) (h : Quoted d w contents) :
      Quoted d ('\\' :: c :: w) (c :: contents)
  | plain {c : Char} {w contents : List Char} (hc : c ≠ d) (hc' : c ≠ '\\')
      (h : Quoted d w contents) : Quoted d (c :: w) (c :: contents)

/-- The text is the written form of the token, which ends in front of `rest`. -/
inductive Lexeme : List Char → List Char → Token → Prop where
  | word {c : Char} {w rest : List Char} (hc : isWordStart c = true)
      (hw : ∀ d ∈ w, isWordPart d = true) (hrest : ∀ d ∈ rest.head?, isWordPart d = false) :
      Lexeme (c :: w) rest (ofWord (String.ofList (c :: w)))
  | whole {w rest : List Char} (hne : w ≠ []) (hw : ∀ d ∈ w, d.isDigit = true)
      (hrest : ∀ d ∈ rest.head?, d.isDigit = false)
      (hpoint : ∀ d after, rest = '.' :: d :: after → d.isDigit = false) :
      Lexeme w rest (ofNumeral w)
  | decimal {w f rest : List Char} (hne : w ≠ []) (hw : ∀ d ∈ w, d.isDigit = true) (hne' : f ≠ [])
      (hf : ∀ d ∈ f, d.isDigit = true) (hrest : ∀ d ∈ rest.head?, d.isDigit = false) :
      Lexeme (w ++ '.' :: f) rest (ofNumeral (w ++ '.' :: f))
  | char {c : Char} {kind : Kind} {rest : List Char} (hc : ofChar? c = some kind) :
      Lexeme [c] rest ⟨kind, c.toString, none⟩
  | literal {c : Char} {kind : Kind} {w contents rest : List Char}
      (hc : literalKind? c = some kind) (hw : Quoted c w contents) :
      Lexeme (c :: w) rest ⟨kind, String.ofList (c :: w), some (.text (String.ofList contents))⟩
  | symbol {w rest : List Char} (h : splitOperator? (w ++ rest) = some (w, rest)) :
      Lexeme w rest (operator (String.ofList w))

section Reading

theorem span_append {p : Char → Bool} (hw : ∀ d ∈ w, p d = true)
    (hrest : ∀ d ∈ rest.head?, p d = false) :
    (w ++ rest).takeWhile p = w ∧ (w ++ rest).dropWhile p = rest := by
  rw [List.takeWhile_append_of_pos hw, List.dropWhile_append_of_pos hw]
  cases rest with
  | nil => simp
  | cons d rest => simp [hrest d rfl]

theorem head?_dropWhile {p : Char → Bool} : ∀ d ∈ (s.dropWhile p).head?, p d = false := by
  intro d hd
  have hhead := List.head?_dropWhile_not p s
  rw [Option.mem_def.1 hd] at hhead
  simpa using hhead

theorem Quoted.decodeQuoted_append {d : Char} (hd : d ≠ '\\') (h : Quoted d w contents)
    (rest : List Char) : Text.decodeQuoted d (w ++ rest) = some (contents, rest) := by
  induction h with
  | close => exact decodeQuoted_delimiter
  | escaped c _ ih =>
      rw [List.cons_append, List.cons_append, decodeQuoted_escaped hd, ih]
      rfl
  | plain hc hc' _ ih =>
      rw [List.cons_append, decodeQuoted_plain hc hc', ih]
      rfl

theorem exists_quoted {d : Char} (h : Text.decodeQuoted d s = some (contents, rest)) :
    ∃ w, s = w ++ rest ∧ Quoted d w contents := by
  fun_induction Text.decodeQuoted d s generalizing contents with
  | case1 => cases h
  | case2 after =>
      cases h
      exact ⟨[d], rfl, .close⟩
  | case3 => cases h
  | case4 e after hc ih =>
      obtain ⟨⟨contents, _⟩, hafter, heq⟩ := Option.map_eq_some_iff.1 h
      cases heq
      obtain ⟨w, rfl, hw⟩ := ih hafter
      exact ⟨'\\' :: e :: w, rfl, .escaped e hw⟩
  | case5 c after hc hc' ih =>
      obtain ⟨⟨contents, _⟩, hafter, heq⟩ := Option.map_eq_some_iff.1 h
      cases heq
      obtain ⟨w, rfl, hw⟩ := ih hafter
      exact ⟨c :: w, rfl, .plain hc hc' hw⟩

theorem Reading.token_inj {u : Token} {after : List Char}
    (h : Reading.token t rest = .token u after) : t = u ∧ rest = after := by
  rw [Reading.token, Reading.token, Reading.mk.injEq, Except.ok.injEq, Option.some.injEq] at h
  exact h

theorem Quoted.readLiteral_append {d : Char} (hd : d ≠ '\\') (h : Quoted d w contents)
    (kind : Kind) (rest : List Char) : readLiteral kind d (w ++ rest) =
      .token ⟨kind, String.ofList (d :: w), some (.text (String.ofList contents))⟩ rest := by
  have hwritten : (w ++ rest).take ((w ++ rest).length - rest.length) = w := by simp
  simp only [readLiteral, h.decodeQuoted_append hd, hwritten]

theorem exists_quoted_of_readLiteral {d : Char} {kind : Kind} (hd : d ≠ '\\')
    (h : readLiteral kind d s = .token t rest) :
    ∃ w contents, s = w ++ rest ∧ Quoted d w contents ∧
      t = ⟨kind, String.ofList (d :: w), some (.text (String.ofList contents))⟩ := by
  cases hdecode : Text.decodeQuoted d s with
  | none =>
      simp only [readLiteral, hdecode] at h
      cases h
  | some p =>
      obtain ⟨contents, after⟩ := p
      obtain ⟨w, rfl, hw⟩ := exists_quoted hdecode
      rw [hw.readLiteral_append hd] at h
      obtain ⟨rfl, rfl⟩ := Reading.token_inj h
      exact ⟨w, contents, rfl, hw, rfl⟩

theorem readToken_digit (hc : c.isDigit = true) {numeral after : List Char}
    (h : splitNumeral (c :: s) = (numeral, after)) :
    readToken c s = .token (ofNumeral numeral) after := by
  rw [readToken, if_neg (by simp [isWordStart_of_isDigit hc]), if_pos hc, h]
  rfl

theorem readToken_char {kind : Kind} (hc : ofChar? c = some kind) :
    readToken c s = .token ⟨kind, c.toString, none⟩ s := by
  unfold ofChar? at hc
  split at hc <;> cases hc <;> rfl

theorem readToken_literal {kind : Kind} (hc : literalKind? c = some kind) :
    readToken c s = readLiteral kind c s := by
  unfold literalKind? at hc
  split at hc <;> cases hc <;> rfl

theorem isBlank_of_ofChar? {kind : Kind} (hc : ofChar? c = some kind) :
    Text.isBlank c = false := by
  unfold ofChar? at hc
  split at hc <;> first | decide | cases hc

theorem isBlank_of_literalKind? {kind : Kind} (hc : literalKind? c = some kind) :
    Text.isBlank c = false := by
  unfold literalKind? at hc
  split at hc <;> first | decide | cases hc

theorem ne_of_literalKind? {kind : Kind} (hc : literalKind? c = some kind) : c ≠ '\\' := by
  rintro rfl
  cases hc

/-- The written forms of the operators that are no words. -/
def symbols : List (List Char) :=
  [['<', '='], ['<', '>'], ['>', '='], ['!', '=']] ++
    ['=', '<', '>', '+', '-', '/', '%', '^'].map ([·])

theorem splitOperator?_eq_some (h : splitOperator? s = some (w, rest)) :
    s = w ++ rest ∧ w ∈ symbols := by
  unfold splitOperator? at h
  split at h
  case h_5 =>
    split at h
    · next c _ _ _ _ _ hc =>
      cases h
      exact ⟨rfl, List.mem_append_right _ (List.mem_map_of_mem (List.contains_iff_mem.1 hc))⟩
    · cases h
  case h_6 => cases h
  all_goals
    cases h
    exact ⟨rfl, List.mem_append_left _ (by simp)⟩

/-- No other token starts like an operator. -/
theorem exists_cons_of_mem_symbols (h : w ∈ symbols) : ∃ c u, w = c :: u ∧
    Text.isBlank c = false ∧ isWordStart c = false ∧ c.isDigit = false ∧ ofChar? c = none ∧
      literalKind? c = none := by
  have hall : ∀ w ∈ symbols, ∃ c u, w = c :: u ∧ Text.isBlank c = false ∧ isWordStart c = false ∧
      c.isDigit = false ∧ ofChar? c = none ∧ literalKind? c = none := by
    simp [symbols]
    decide
  exact hall w h

/-- Only `<`, `>` and `!` go on to a longer operator. -/
theorem append_mem_symbols (hw : w ≠ []) (h : w ++ [c] ∈ symbols) :
    w = ['<'] ∧ c = '=' ∨ w = ['<'] ∧ c = '>' ∨ w = ['>'] ∧ c = '=' ∨ w = ['!'] ∧ c = '=' := by
  obtain ⟨d, u, rfl⟩ := List.exists_cons_of_ne_nil hw
  cases u with
  | nil => simpa [symbols] using h
  | cons e u => simp [symbols] at h

/-- An operator is read where the next character does not make a longer one of it. -/
theorem splitOperator?_eq_some_iff : splitOperator? (w ++ rest) = some (w, rest) ↔
    w ∈ symbols ∧ ∀ c ∈ rest.head?, w ++ [c] ∉ symbols := by
  constructor
  · intro h
    obtain ⟨-, hw⟩ := splitOperator?_eq_some h
    obtain ⟨_, _, rfl, -⟩ := exists_cons_of_mem_symbols hw
    refine ⟨hw, fun c hc hlonger => ?_⟩
    obtain ⟨tail, rfl⟩ := List.head?_eq_some_iff.1 hc
    rcases append_mem_symbols (List.cons_ne_nil _ _) hlonger with h' | h' | h' | h'
    all_goals
      obtain ⟨hcons, rfl⟩ := h'
      rw [hcons] at h
      cases h
  · rintro ⟨hw, hlonger⟩
    rcases List.mem_append.1 hw with hpair | hsingle
    · simp only [List.mem_cons, List.not_mem_nil, or_false] at hpair
      rcases hpair with rfl | rfl | rfl | rfl <;> rfl
    · obtain ⟨c, hc, rfl⟩ := List.mem_map.1 hsingle
      rw [List.singleton_append]
      unfold splitOperator?
      split
      case h_5 heq =>
        cases heq
        rw [if_pos (List.contains_iff_mem.2 hc)]
      case h_6 heq => cases heq
      -- with a longer operator in front, the text is cut behind that one
      all_goals
        next heq =>
        cases heq
        exact absurd (by simp [symbols]) (hlonger _ rfl)

theorem readToken_symbol (h : splitOperator? (c :: s) = some (w, rest)) :
    readToken c s = .token (operator (String.ofList w)) rest := by
  obtain ⟨hw, hmem⟩ := splitOperator?_eq_some h
  obtain ⟨d, u, rfl, -, hstart, hdigit, hchar, hliteral⟩ := exists_cons_of_mem_symbols hmem
  obtain ⟨rfl, -⟩ := List.cons.inj hw
  rw [readToken, hstart, hdigit, hchar, hliteral]
  simp [h]

/-- The written form of a token is read as this token. -/
theorem Lexeme.readToken (h : Lexeme w rest t) :
    ∃ c u, w = c :: u ∧ Text.isBlank c = false ∧
      Token.readToken c (u ++ rest) = .token t rest := by
  cases h with
  | @word c u _ hc hw hrest =>
      obtain ⟨htake, hdrop⟩ := span_append hw hrest
      refine ⟨c, u, rfl, isBlank_of_isWordStart hc, ?_⟩
      rw [Token.readToken, if_pos hc, htake, hdrop]
  | whole hne hw hrest hpoint =>
      obtain ⟨c, u, rfl⟩ := List.exists_cons_of_ne_nil hne
      have hc := hw c List.mem_cons_self
      refine ⟨c, u, rfl, isBlank_of_isDigit hc, readToken_digit hc ?_⟩
      exact splitNumeral_whole hw hrest hpoint
  | @decimal u f _ hne hw hne' hf hrest =>
      obtain ⟨c, u, rfl⟩ := List.exists_cons_of_ne_nil hne
      have hc := hw c List.mem_cons_self
      refine ⟨c, _, rfl, isBlank_of_isDigit hc, readToken_digit hc ?_⟩
      exact splitNumeral_decimal hw hne' hf hrest
  | char hc => exact ⟨_, [], rfl, isBlank_of_ofChar? hc, readToken_char hc⟩
  | literal hc hw =>
      refine ⟨_, _, rfl, isBlank_of_literalKind? hc, ?_⟩
      rw [readToken_literal hc, hw.readLiteral_append (ne_of_literalKind? hc)]
  | symbol h =>
      obtain ⟨-, hmem⟩ := splitOperator?_eq_some h
      obtain ⟨c, u, rfl, hc, -⟩ := exists_cons_of_mem_symbols hmem
      exact ⟨c, u, rfl, hc, readToken_symbol h⟩

end Reading

section Finding

theorem lexeme_of_splitNumeral (hc : c.isDigit = true) (h : splitNumeral (c :: s) = (w, rest)) :
    c :: s = w ++ rest ∧ Lexeme w rest (ofNumeral w) := by
  have hwhole : ∀ d ∈ (c :: s).takeWhile Char.isDigit, d.isDigit = true :=
    fun d hd => List.mem_takeWhile_imp hd
  have hne : (c :: s).takeWhile Char.isDigit ≠ [] := by simp [hc]
  have hparts : c :: s = (c :: s).takeWhile Char.isDigit ++ (c :: s).dropWhile Char.isDigit :=
    List.takeWhile_append_dropWhile.symm
  have hend : ∀ d ∈ ((c :: s).dropWhile Char.isDigit).head?, d.isDigit = false := head?_dropWhile
  rw [splitNumeral, Number.splitDigits] at h
  generalize (c :: s).takeWhile Char.isDigit = whole at *
  generalize (c :: s).dropWhile Char.isDigit = after at *
  simp only at h
  split at h
  · next d tail =>
    split at h
    · next hd =>
      cases h
      have hfraction : (d :: tail).takeWhile Char.isDigit ≠ [] := by simp [hd]
      refine ⟨?_, .decimal hne hwhole hfraction (fun d hd => List.mem_takeWhile_imp hd)
        head?_dropWhile⟩
      rw [hparts, List.append_assoc, List.cons_append, Number.splitDigits,
        List.takeWhile_append_dropWhile]
    · next hd =>
      cases h
      refine ⟨hparts, .whole hne hwhole hend ?_⟩
      rintro e tail' ⟨⟩
      simpa using hd
  · next hpoint =>
    cases h
    exact ⟨hparts, .whole hne hwhole hend fun d tail h => absurd h (hpoint d tail)⟩

/-- What is read is written at the front. -/
theorem exists_lexeme (h : readToken c s = .token t rest) :
    ∃ w, c :: s = w ++ rest ∧ Lexeme w rest t := by
  rw [readToken] at h
  split at h
  · next hc =>
    obtain ⟨rfl, rfl⟩ := Reading.token_inj h
    exact ⟨c :: s.takeWhile isWordPart, by simp, .word hc (fun d hd => List.mem_takeWhile_imp hd)
      head?_dropWhile⟩
  split at h
  · next hc =>
    obtain ⟨rfl, rfl⟩ := Reading.token_inj h
    exact ⟨_, lexeme_of_splitNumeral hc rfl⟩
  split at h
  · next hc =>
    obtain ⟨rfl, rfl⟩ := Reading.token_inj h
    exact ⟨[c], rfl, .char hc⟩
  · next hc =>
    obtain ⟨w, contents, rfl, hw, rfl⟩ := exists_quoted_of_readLiteral (ne_of_literalKind? hc) h
    exact ⟨c :: w, rfl, .literal hc hw⟩
  · split at h
    · next hsymbol =>
      obtain ⟨rfl, rfl⟩ := Reading.token_inj h
      obtain ⟨hs, -⟩ := splitOperator?_eq_some hsymbol
      exact ⟨_, hs, .symbol (hs ▸ hsymbol)⟩
    · cases h

theorem answer_token_ne : (Reading.token t rest).answer ≠ .ok none :=
  fun h => Option.some_ne_none t (Except.ok.inj h)

theorem answer_readToken : (readToken c s).answer ≠ .ok none := by
  rw [readToken]
  split
  · exact answer_token_ne
  split
  · exact answer_token_ne
  split
  · exact answer_token_ne
  · rw [readLiteral]
    split
    · exact answer_token_ne
    · intro h
      cases h
  · split
    · exact answer_token_ne
    · intro h
      cases h

theorem kind_ofWord_ne (word : String) {kind : Kind}
    (h : kind ∉ [Kind.keyword, .operator, .identifier]) : (ofWord word).kind ≠ kind := by
  rintro rfl
  refine h ?_
  rw [ofWord]
  split
  · simp [keyword]
  · split <;> simp [operator, identifier]

end Finding

section Ends

theorem Quoted.getLast? {d : Char} (h : Quoted d w contents) : w.getLast? = some d := by
  induction h with
  | close => rfl
  | escaped _ _ ih => simp [List.getLast?_cons, ih]
  | plain _ _ _ ih => simp [List.getLast?_cons, ih]

theorem isBlank_of_isWordPart (h : isWordPart c = true) : Text.isBlank c = false := by
  by_cases hdigit : c.isDigit = true
  · exact isBlank_of_isDigit hdigit
  · refine isBlank_of_isWordStart ?_
    simpa [isWordStart, isWordPart, Char.isAlphanum, hdigit] using h

/-- The last character of a token is no white space. -/
theorem Lexeme.exists_getLast? (h : Lexeme w rest t) :
    ∃ c ∈ w.getLast?, Text.isBlank c = false := by
  have hlast : ∀ {w : List Char}, w ≠ [] → (∀ c ∈ w, Text.isBlank c = false) →
      ∃ c ∈ w.getLast?, Text.isBlank c = false := fun hne hall =>
    ⟨_, List.getLast?_eq_some_getLast hne, hall _ (List.getLast_mem hne)⟩
  cases h with
  | word hc hw =>
      exact hlast (by simp) (List.forall_mem_cons.2
        ⟨isBlank_of_isWordStart hc, fun d hd => isBlank_of_isWordPart (hw d hd)⟩)
  | whole hne hw => exact hlast hne fun d hd => isBlank_of_isDigit (hw d hd)
  | decimal hne hw hne' hf =>
      obtain ⟨c, hc, hblank⟩ := hlast hne' fun d hd => isBlank_of_isDigit (hf d hd)
      refine ⟨c, ?_, hblank⟩
      rw [List.getLast?_append, List.getLast?_cons, Option.mem_def.1 hc]
      rfl
  | char hc => exact ⟨_, rfl, isBlank_of_ofChar? hc⟩
  | literal hc hw =>
      refine ⟨_, ?_, isBlank_of_literalKind? hc⟩
      rw [List.getLast?_cons, hw.getLast?]
      rfl
  | symbol h =>
      have hall : ∀ w ∈ symbols, ∃ c ∈ w.getLast?, Text.isBlank c = false := by
        simp [symbols]
        decide
      exact hall w (splitOperator?_eq_some h).2

theorem forall_head?_of_append {P : Char → Prop} (h : ∀ d ∈ (rest ++ tail).head?, P d) :
    ∀ d ∈ rest.head?, P d := by
  cases rest with
  | nil => nofun
  | cons c rest => exact h

/-- A token ends where it ends also if less of the text follows. -/
theorem Lexeme.of_append (h : Lexeme w (rest ++ tail) t) : Lexeme w rest t := by
  cases h with
  | word hc hw hrest => exact .word hc hw (forall_head?_of_append hrest)
  | whole hne hw hrest hpoint =>
      refine .whole hne hw (forall_head?_of_append hrest) ?_
      rintro d after rfl
      exact hpoint d (after ++ tail) rfl
  | decimal hne hw hne' hf hrest =>
      exact .decimal hne hw hne' hf (forall_head?_of_append hrest)
  | char hc => exact .char hc
  | literal hc hw => exact .literal hc hw
  | symbol h =>
      obtain ⟨hw, hlonger⟩ := splitOperator?_eq_some_iff.1 h
      exact .symbol (splitOperator?_eq_some_iff.2 ⟨hw, forall_head?_of_append hlonger⟩)

end Ends

end TableQuery.Token
