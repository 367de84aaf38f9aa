import TableQuery.Proofs.Token.Tiling
import TableQuery.Query.Parser

/-!
# Tokens laid out anew

The texts of tokens, written one behind the other, have the same tokens again, whatever white space
stands between them: only where white space keeps two tokens apart, some has to stay. So neither the
case of the words of the language nor the white space between tokens belongs to a query.
-/

namespace TableQuery.Token

/-- The texts of tokens, each with white space behind it, and `lead` in front of the first. -/
def spaced (lead : List Char) (ts : List Token) (gaps : List (List Char)) : List Char :=
  lead ++ (List.zipWith (fun t gap => t.text.toList ++ gap) ts gaps).flatten

/-- White space for each tile. Between two tiles that stand apart there is some. -/
inductive KeepsApart : List Tile → List (List Char) → Prop where
  | nil : KeepsApart [] []
  | cons {tile : Tile} {tiles : List Tile} {gap : List Char} {gaps : List (List Char)}
      (hblank : ∀ c ∈ gap, Text.isBlank c = true)
      (happart : tiles ≠ [] → tile.gap ≠ [] → gap ≠ []) (hrest : KeepsApart tiles gaps) :
      KeepsApart (tile :: tiles) (gap :: gaps)

variable {s w rest rest' lead : List Char} {t : Token} {ts : List Token} {tile : Tile}
  {tiles : List Tile} {gaps : List (List Char)} {c : Char}

section Texts

theorem isWordStart_toUpper (h : isWordStart c = true) : isWordStart c.toUpper = true := by
  rcases Text.toUpper_cases c with hsame | ⟨hlow, hhigh, hupper⟩
  · rw [hsame, h]
  · exact isWordStart_iff.2 (.inl (by omega))

theorem isWordPart_of_isWordStart (h : isWordStart c = true) : isWordPart c = true := by
  rw [isWordStart, Bool.or_eq_true] at h
  rw [isWordPart, Char.isAlphanum, Bool.or_eq_true, Bool.or_eq_true]
  exact h.imp_left .inl

theorem isWordPart_toUpper (h : isWordPart c = true) : isWordPart c.toUpper = true := by
  rcases Text.toUpper_cases c with hsame | ⟨hlow, hhigh, hupper⟩
  · rw [hsame, h]
  · exact isWordPart_of_isWordStart (isWordStart_iff.2 (.inl (by omega)))

/-- Written in uppercase a word of the language is the same token. Every other word shows its
text. -/
theorem ofWord_text (word : String) : ofWord (ofWord word).text = ofWord word := by
  have hupper := Text.asciiUpper_asciiUpper word
  by_cases hkeyword : keywords.contains (Text.asciiUpper word) = true
  · have hword : ofWord word = keyword word := by rw [ofWord, if_pos hkeyword]
    rw [hword]
    change ofWord (Text.asciiUpper word) = _
    rw [ofWord, hupper, if_pos hkeyword, keyword, hupper, keyword]
  · by_cases hoperator : wordOperators.contains (Text.asciiUpper word) = true
    · have hword : ofWord word = operator word := by
        rw [ofWord, if_neg hkeyword, if_pos hoperator]
      rw [hword]
      change ofWord (Text.asciiUpper word) = _
      rw [ofWord, hupper, if_neg hkeyword, if_pos hoperator, operator, hupper, operator]
    · have hword : ofWord word = identifier word := by
        rw [ofWord, if_neg hkeyword, if_neg hoperator]
      rw [hword]
      exact hword

/-- The text of a word is the word, or the word in uppercase. -/
theorem text_ofWord (word : String) :
    (ofWord word).text = word ∨ (ofWord word).text = Text.asciiUpper word := by
  rw [ofWord]
  split
  · exact .inr rfl
  · split
    · exact .inr rfl
    · exact .inl rfl

theorem isWord_text (h : IsWord w) : IsWord (ofWord (String.ofList w)).text.toList := by
  obtain ⟨c, u, rfl, hc, hu⟩ := h
  rcases text_ofWord (String.ofList (c :: u)) with htext | htext
  · rw [htext, String.toList_ofList]
    exact ⟨c, u, rfl, hc, hu⟩
  · rw [htext, Text.toList_asciiUpper, String.toList_ofList]
    exact ⟨c.toUpper, u.map Char.toUpper, rfl, isWordStart_toUpper hc,
      List.forall_mem_map.2 fun d hd => isWordPart_toUpper (hu d hd)⟩

/-- The text of a token starts with the character that the token is written with, unless both start
like a word. It starts with no point. -/
theorem Lexeme.head_text (h : Lexeme w rest t) : ∃ c ∈ w.head?, ∃ d v, t.text.toList = d :: v ∧
    Text.isBlank d = false ∧ d ≠ '.' ∧ (d = c ∨ isWordStart c = true ∧ isWordStart d = true) := by
  rcases h.word_or_shown with ⟨hw, rfl⟩ | ⟨-, htext, c, u, rfl, -, hpoint⟩
  · obtain ⟨d, v, hdv, hd, -⟩ := isWord_text hw
    obtain ⟨c, u, rfl, hc, -⟩ := hw
    refine ⟨c, rfl, d, v, hdv, isBlank_of_isWordStart hd, ?_, .inr ⟨hc, hd⟩⟩
    rintro rfl
    cases hd
  · obtain ⟨_, _, hcons, hblank, -⟩ := h.readToken
    obtain ⟨rfl, -⟩ := List.cons.inj hcons
    exact ⟨c, rfl, c, u, by rw [htext, String.toList_ofList], hblank, hpoint, .inl rfl⟩

end Texts

section Following

/-- The second text is over, or it goes on with white space, or with the start of a token as the
first text does. -/
def GoesOnLike (rest rest' : List Char) : Prop :=
  ∀ d ∈ rest'.head?, Text.isBlank d = true ∨
    d ≠ '.' ∧ ∃ c ∈ rest.head?, d = c ∨ isWordStart c = true ∧ isWordStart d = true

theorem GoesOnLike.head_not {P : Char → Prop} (h : GoesOnLike rest rest')
    (hblank : ∀ d, P d → Text.isBlank d = false)
    (hword : ∀ c d, isWordStart c = true → isWordStart d = true → P d → P c)
    (hrest : ∀ d ∈ rest.head?, ¬P d) : ∀ d ∈ rest'.head?, ¬P d := by
  intro d hd hP
  rcases h d hd with hb | ⟨-, c, hc, rfl | ⟨hstart, hstart'⟩⟩
  · rw [hblank d hP] at hb
    cases hb
  · exact hrest d hc hP
  · exact hrest c hc (hword c d hstart hstart' hP)

theorem GoesOnLike.not_isWordPart (h : GoesOnLike rest rest')
    (hrest : ∀ d ∈ rest.head?, isWordPart d = false) :
    ∀ d ∈ rest'.head?, isWordPart d = false := by
  simp only [← Bool.not_eq_true] at hrest ⊢
  exact h.head_not (fun d => isBlank_of_isWordPart)
    (fun c _ hc _ _ => isWordPart_of_isWordStart hc) hrest

theorem GoesOnLike.not_isDigit (h : GoesOnLike rest rest')
    (hrest : ∀ d ∈ rest.head?, d.isDigit = false) : ∀ d ∈ rest'.head?, d.isDigit = false := by
  simp only [← Bool.not_eq_true] at hrest ⊢
  refine h.head_not (fun d => isBlank_of_isDigit) (fun c d _ hd hdigit => ?_) hrest
  rw [isWordStart_of_isDigit hdigit] at hd
  cases hd

theorem GoesOnLike.not_longer (h : GoesOnLike rest rest') (hw : w ≠ [])
    (hrest : ∀ d ∈ rest.head?, w ++ [d] ∉ symbols) : ∀ d ∈ rest'.head?, w ++ [d] ∉ symbols := by
  have hsign : ∀ d, w ++ [d] ∈ symbols → d = '=' ∨ d = '>' := fun d hd => by
    rcases append_mem_symbols hw hd with ⟨-, h⟩ | ⟨-, h⟩ | ⟨-, h⟩ | ⟨-, h⟩ <;> simp [h]
  refine h.head_not (fun d hd => ?_) (fun c d _ hd hlonger => ?_) hrest
  · rcases hsign d hd with rfl | rfl <;> decide
  · rcases hsign d hlonger with rfl | rfl <;> cases hd

/-- The text of a token is a lexeme of it wherever what follows starts like what followed. -/
theorem Lexeme.text_of_goesOnLike (h : Lexeme w rest t) (hlike : GoesOnLike rest rest') :
    Lexeme t.text.toList rest' t := by
  have hpoint : ∀ d after, rest' = '.' :: d :: after → d.isDigit = false := by
    rintro d after rfl
    rcases hlike '.' rfl with hblank | ⟨hne, -⟩
    · cases hblank
    · exact absurd rfl hne
  cases h with
  | @word c u _ hc hu hrest =>
      obtain ⟨d, v, hdv, hd, hv⟩ := isWord_text ⟨c, u, rfl, hc, hu⟩
      have hlexeme := Lexeme.word hd hv (hlike.not_isWordPart hrest)
      rwa [← hdv, String.ofList_toList, ofWord_text] at hlexeme
  | whole hne hw hrest =>
      rw [ofNumeral, String.toList_ofList]
      exact .whole hne hw (hlike.not_isDigit hrest) hpoint
  | decimal hne hw hne' hf hrest =>
      rw [ofNumeral, String.toList_ofList]
      exact .decimal hne hw hne' hf (hlike.not_isDigit hrest)
  | char hc =>
      rw [Char.toString_eq_singleton, String.toList_singleton]
      exact .char hc
  | literal hc hw =>
      rw [String.toList_ofList]
      exact .literal hc hw
  | symbol h =>
      obtain ⟨hw, hlonger⟩ := splitOperator?_eq_some_iff.1 h
      obtain ⟨_, _, rfl, -⟩ := exists_cons_of_mem_symbols hw
      rw [(operator_of_mem_symbols hw).2, String.toList_ofList]
      exact .symbol (splitOperator?_eq_some_iff.2
        ⟨hw, hlike.not_longer (List.cons_ne_nil _ _) hlonger⟩)

end Following

section Layouts

/-- A token is spelled in as many characters as its text has. -/
theorem Spelled.length_eq (h : t.Spelled w) : w.length = t.text.toList.length := by
  rw [h.text]
  split
  · rw [Text.toList_asciiUpper, List.length_map, String.toList_ofList]
  · rw [String.toList_ofList]

/-- Where the text of a token starts with no white space, no way of spelling the token does. -/
theorem Spelled.head_not_blank (h : t.Spelled w)
    (htext : ∀ d ∈ t.text.toList.head?, Text.isBlank d = false) :
    ∀ c ∈ w.head?, Text.isBlank c = false := by
  intro c hc
  obtain ⟨u, rfl⟩ := List.head?_eq_some_iff.1 hc
  rw [h.text] at htext
  split at htext
  · have hupper := htext c.toUpper (by simp)
    rcases Text.toUpper_cases c with hsame | ⟨hlow, hhigh, -⟩
    · rw [hsame] at hupper
      exact hupper
    · exact isBlank_of_toNat (by omega) (by omega)
  · exact htext c (by simp)

/-- White space in front of something else is where it is. -/
theorem blank_append_inj {b b' s s' : List Char} (hb : ∀ c ∈ b, Text.isBlank c = true)
    (hb' : ∀ c ∈ b', Text.isBlank c = true) (hs : ∀ c ∈ s.head?, Text.isBlank c = false)
    (hs' : ∀ c ∈ s'.head?, Text.isBlank c = false) (h : b ++ s = b' ++ s') : b = b' ∧ s = s' := by
  have hfirst := span_append hb hs
  have hsecond := span_append hb' hs'
  rw [h] at hfirst
  exact ⟨hfirst.1.symm.trans hsecond.1, hfirst.2.symm.trans hsecond.2⟩

/-- A text of tokens is laid out in one way only: its first tile is the first lexeme. -/
theorem Tiling.lexeme (h : Tiling s ts lead (tile :: tiles)) (hs : Writes s ts) :
    Lexeme tile.lexeme (laid tile.gap tiles) tile.token ∧
      Tiling (laid tile.gap tiles) (tiles.map Tile.token) tile.gap tiles ∧
      Writes (laid tile.gap tiles) (tiles.map Tile.token) := by
  obtain ⟨hgap, hgaps⟩ := List.forall_mem_cons.1 h.gaps
  obtain ⟨hspelled, hlexemes⟩ := List.forall_mem_cons.1 h.lexemes
  have htext := h.text
  obtain rfl := h.tokens
  rw [laid_cons] at htext
  cases hs with
  | @token b w rest t _ hb hw hrest =>
      obtain ⟨c, u, rfl, hc, -⟩ := hw.readToken
      obtain ⟨_, _, d, v, hdv, hd, -⟩ := hw.head_text
      have hhead : ∀ e ∈ (tile.lexeme ++ laid tile.gap tiles).head?, Text.isBlank e = false := by
        obtain ⟨e, v', he⟩ := List.exists_cons_of_ne_nil hspelled.ne_nil
        rw [he, List.cons_append]
        rintro _ ⟨⟩
        refine hspelled.head_not_blank ?_ e (by rw [he]; rfl)
        rw [hdv]
        rintro _ ⟨⟩
        exact hd
      have hfirst : ∀ e ∈ (c :: u ++ rest).head?, Text.isBlank e = false := by
        rintro _ ⟨⟩
        exact hc
      obtain ⟨-, hsame⟩ := blank_append_inj hb h.lead hfirst hhead htext
      have hlength := hw.spelled.length_eq.trans hspelled.length_eq.symm
      obtain ⟨hlexeme, hafter⟩ := List.append_inj hsame hlength
      rw [← hlexeme, ← hafter]
      exact ⟨hw, ⟨hafter, rfl, hgap, hgaps, hlexemes⟩, hrest⟩

/-- Where tokens are kept apart, what follows one of them starts like what followed it. -/
theorem goesOnLike_spaced (h : Tiling (laid tile.gap tiles) ts tile.gap tiles)
    (hs : Writes (laid tile.gap tiles) ts) (hgaps : KeepsApart tiles gaps) {gap : List Char}
    (hblank : ∀ c ∈ gap, Text.isBlank c = true)
    (happart : tiles ≠ [] → tile.gap ≠ [] → gap ≠ []) :
    GoesOnLike (laid tile.gap tiles) (spaced gap ts gaps) := by
  intro d hd
  cases gap with
  | cons b gap =>
      obtain rfl : b = d := Option.some.inj hd
      exact .inl (hblank b List.mem_cons_self)
  | nil =>
      obtain rfl := h.tokens
      cases hgaps with
      | nil => cases hd
      | @cons next tiles' gap' gaps' =>
          have hgap : tile.gap = [] :=
            Decidable.byContradiction fun hne => happart (List.cons_ne_nil _ _) hne rfl
          obtain ⟨c, hc, d', v, hdv, -, hpoint, hstart⟩ := (h.lexeme hs).1.head_text
          obtain ⟨u, hcu⟩ := List.head?_eq_some_iff.1 hc
          rw [spaced, List.map_cons, List.zipWith_cons_cons, hdv] at hd
          obtain rfl : d' = d := Option.some.inj hd
          refine .inr ⟨hpoint, c, ?_, hstart⟩
          rw [hgap, laid_cons, hcu]
          rfl

theorem writes_spaced (h : Tiling s ts lead tiles) (hs : Writes s ts)
    (hgaps : KeepsApart tiles gaps) {lead' : List Char}
    (hlead : ∀ c ∈ lead', Text.isBlank c = true) :
    Writes (spaced lead' ts gaps) ts := by
  induction hgaps generalizing s ts lead lead' with
  | nil =>
      obtain rfl := h.tokens
      rw [spaced, List.map_nil, List.zipWith_nil_left, List.flatten_nil, List.append_nil]
      exact .blank hlead
  | @cons tile tiles gap gaps hblank happart hgaps ih =>
      obtain ⟨hlexeme, htiling, hwrites⟩ := h.lexeme hs
      obtain rfl := h.tokens
      have hlike := goesOnLike_spaced htiling hwrites hgaps hblank happart
      have htext : spaced lead' ((tile :: tiles).map Tile.token) (gap :: gaps) =
          lead' ++ (tile.token.text.toList ++ spaced gap (tiles.map Tile.token) gaps) := by
        rw [spaced, spaced, List.map_cons, List.zipWith_cons_cons, List.flatten_cons,
          List.append_assoc]
      rw [htext]
      exact .token hlead (hlexeme.text_of_goesOnLike hlike) (ih htiling hwrites hblank)

/-- The tokens of a text are laid out in it. However they are, their texts have these tokens again,
and form the same query, with any white space in front of them, between them and behind them, as
long as there is some wherever two of them stood apart. -/
theorem ofText_spaced {text : String} (h : ofText text = .ok ts) :
    (∃ lead tiles, Tiling text.toList ts lead tiles) ∧
      ∀ lead tiles gaps, Tiling text.toList ts lead tiles → KeepsApart tiles gaps →
        ∀ lead' : List Char, (∀ c ∈ lead', Text.isBlank c = true) →
          ofText (String.ofList (spaced lead' ts gaps)) = .ok ts ∧
            Query.ofText (String.ofList (spaced lead' ts gaps)) = Query.ofText text := by
  obtain ⟨hne, hwrites⟩ := ofText_eq_ok_iff.1 h
  obtain ⟨lead, tiles, htiling, -⟩ := hwrites.exists_tiling
  refine ⟨⟨lead, tiles, htiling⟩, fun lead tiles gaps htiling hgaps lead' hlead => ?_⟩
  have hspaced : ofText (String.ofList (spaced lead' ts gaps)) = .ok ts := by
    rw [ofText_eq_ok_iff, String.toList_ofList]
    exact ⟨hne, writes_spaced htiling hwrites hgaps hlead⟩
  refine ⟨hspaced, ?_⟩
  rw [Query.ofText, Query.ofText, hspaced, h]

/-- Words are put in uppercase and white space is exchanged. Two tokens go on to touch, and two
others are taken apart. -/
theorem ofText_spaced_touching :
    let text := "select 12Is a from't'"
    let ts : List Token := [.keyword "SELECT", ofNumeral ['1', '2'], .operator "IS",
      .identifier "a", .keyword "FROM", ⟨.string, "'t'", some (.text "t")⟩]
    let lexemes := ["select", "12", "Is", "a", "from", "'t'"]
    let tiles := List.zipWith (fun (t, lexeme) gap => Tile.mk t lexeme gap)
      (ts.zip (lexemes.map String.toList)) [[' '], [], [' '], [' '], [], []]
    let gaps := [['\n'], [], ['\u00a0', '\u00a0'], ['\t'], [' '], ['\n']]
    ofText text = .ok ts ∧ Tiling text.toList ts [] tiles ∧ KeepsApart tiles gaps ∧
      ofText "SELECT\n12IS\u00a0\u00a0a\tFROM 't'\n" = .ok ts ∧
      Query.ofText "SELECT\n12IS\u00a0\u00a0a\tFROM 't'\n" = Query.ofText text := by
  intro text ts lexemes tiles gaps
  have h : ofText text = .ok ts := by decide +kernel
  have hdecided : ∀ tile ∈ tiles, tile.lexeme ≠ [] ∧
      tile.token.isLanguageWord = isReserved (String.ofList tile.lexeme) ∧
      tile.token.text = if tile.token.isLanguageWord
        then Text.asciiUpper (String.ofList tile.lexeme) else String.ofList tile.lexeme := by
    decide +kernel
  have hspelled : ∀ tile ∈ tiles, tile.token.Spelled tile.lexeme := by
    intro tile htile
    obtain ⟨hne, hreserved, htext⟩ := hdecided tile htile
    exact ⟨hne, hreserved, htext⟩
  have hblank : ∀ tile ∈ tiles, tile.gap.all Text.isBlank = true := by decide
  have htiling : Tiling text.toList ts [] tiles :=
    ⟨by decide +kernel, rfl, List.forall_mem_nil _,
      fun tile htile => List.all_eq_true.1 (hblank tile htile), hspelled⟩
  have hgaps : KeepsApart tiles gaps := by
    refine .cons (List.all_eq_true.1 ?_) ?_ (.cons (List.all_eq_true.1 ?_) ?_
      (.cons (List.all_eq_true.1 ?_) ?_ (.cons (List.all_eq_true.1 ?_) ?_
      (.cons (List.all_eq_true.1 ?_) ?_ (.cons (List.all_eq_true.1 ?_) ?_ .nil))))) <;> decide
  have htext : String.ofList (spaced [] ts gaps) =
      "SELECT\n12IS\u00a0\u00a0a\tFROM 't'\n" := by
    decide +kernel
  have hspaced := (ofText_spaced h).2 [] tiles gaps htiling hgaps [] (List.forall_mem_nil _)
  rw [htext] at hspaced
  exact ⟨h, htiling, hgaps, hspaced⟩

end Layouts

end TableQuery.Token
