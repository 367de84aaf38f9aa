import TableQuery.Proofs.Text.LetterCase
import TableQuery.Proofs.Token.Written

/-!
# How tokens lie in a text

A text that is cut into tokens consists of lexemes and white space, by turns and without a
remainder. The words of the language may be written in any case; every other token shows its lexeme
as it stands. Words, numerals and operators are as long as the text allows.
-/

namespace TableQuery.Token

/-- A token with the characters that it is written as, and the white space behind them. -/
structure Tile where
  /-- The token. -/
  token : Token
  /-- What it is written as. -/
  lexeme : List Char
  /-- The white space up to the next token or the end. -/
  gap : List Char

/-- The text of tiles, with `lead` in front of the first. -/
def laid (lead : List Char) (tiles : List Tile) : List Char :=
  lead ++ tiles.flatMap fun tile => tile.lexeme ++ tile.gap

/-- Whether the token is a keyword or an operator that is a word. -/
def isLanguageWord (t : Token) : Bool :=
  t.kind == .keyword || t.kind == .operator && wordOperators.contains t.text

/-- Whether a word belongs to the language, in any case of its letters. -/
def isReserved (word : String) : Bool :=
  (keywords ++ wordOperators).contains (Text.asciiUpper word)

/-- The token can be written as `w`: a word of the language in any case of its letters, every other
token in one way only. -/
structure Spelled (t : Token) (w : List Char) : Prop where
  ne_nil : w ≠ []
  reserved : t.isLanguageWord = isReserved (String.ofList w)
  text : t.text = if t.isLanguageWord then Text.asciiUpper (String.ofList w) else String.ofList w

/-- The tiles make up the text, and carry the tokens. -/
structure Tiling (s : List Char) (ts : List Token) (lead : List Char) (tiles : List Tile) :
    Prop where
  text : s = laid lead tiles
  tokens : tiles.map Tile.token = ts
  lead : ∀ c ∈ lead, Text.isBlank c = true
  gaps : ∀ tile ∈ tiles, ∀ c ∈ tile.gap, Text.isBlank c = true
  lexemes : ∀ tile ∈ tiles, tile.token.Spelled tile.lexeme

/-- A letter or an underscore, then letters, digits and underscores. -/
def IsWord (w : List Char) : Prop :=
  ∃ c u, w = c :: u ∧ isWordStart c = true ∧ ∀ d ∈ u, isWordPart d = true

/-- A lexeme of the class, which characters behind it do not make a longer one. -/
def Longest (P : List Char → Prop) (w rest : List Char) : Prop :=
  P w ∧ ∀ more, more ≠ [] → more <+: rest → ¬P (w ++ more)

/-- The lexeme of a token in front of `rest` is a longest one of its class. Literals and tokens of
one character have no longer ones. -/
def IsLongest (t : Token) (w rest : List Char) : Prop :=
  match t.kind with
  | .keyword => Longest IsWord w rest
  | .identifier => Longest IsWord w rest ∨ w.head? = some '\x60'
  | .operator => Longest IsWord w rest ∨ Longest (· ∈ symbols) w rest
  | .number => Longest Numeral w rest
  | _ => True

variable {s w rest lead : List Char} {t : Token} {ts : List Token} {tile : Tile}
  {tiles front back : List Tile}

section LongestLexemes

theorem longest_word {c : Char} (hc : isWordStart c = true) (hw : ∀ d ∈ w, isWordPart d = true)
    (hrest : ∀ d ∈ rest.head?, isWordPart d = false) : Longest IsWord (c :: w) rest := by
  refine ⟨⟨c, w, rfl, hc, hw⟩, ?_⟩
  rintro more hne ⟨tail, rfl⟩ ⟨_, _, hword, -, hparts⟩
  obtain ⟨d, more, rfl⟩ := List.exists_cons_of_ne_nil hne
  obtain ⟨-, rfl⟩ := List.cons.inj hword
  have hd := hparts d (List.mem_append_right _ List.mem_cons_self)
  rw [hrest d rfl] at hd
  cases hd

theorem longest_whole (hne : w ≠ []) (hw : ∀ d ∈ w, d.isDigit = true)
    (hrest : ∀ d ∈ rest.head?, d.isDigit = false)
    (hpoint : ∀ d after, rest = '.' :: d :: after → d.isDigit = false) :
    Longest Numeral w rest := by
  refine ⟨.whole hne hw, ?_⟩
  rintro more hmore ⟨tail, rfl⟩ hnumeral
  obtain ⟨d, more, rfl⟩ := List.exists_cons_of_ne_nil hmore
  have hd : d.isDigit = false := hrest d rfl
  have hstop : ∀ e ∈ (d :: more).head?, e.isDigit = false := by
    rintro e ⟨⟩
    exact hd
  generalize hlonger : w ++ d :: more = longer at hnumeral
  cases hnumeral with
  | whole _ hall =>
      have hdigit := hall d (hlonger ▸ List.mem_append_right _ List.mem_cons_self)
      rw [hd] at hdigit
      cases hdigit
  | @decimal whole f _ hwhole hne' hf =>
      -- both numerals have the same digits up to the first other character, which is the point
      have hshort := splitDigits_append hw hstop
      have hlong : Number.splitDigits (whole ++ '.' :: f) = (whole, '.' :: f) :=
        splitDigits_append hwhole (by simp)
      rw [hlonger, hlong] at hshort
      obtain ⟨-, hsame⟩ := Prod.mk.inj hshort
      obtain ⟨rfl, rfl⟩ := List.cons.inj hsame
      obtain ⟨e, f, rfl⟩ := List.exists_cons_of_ne_nil hne'
      have he := hf e List.mem_cons_self
      rw [hpoint e (f ++ tail) rfl] at he
      cases he

theorem longest_decimal {f : List Char} (hne : w ≠ []) (hw : ∀ d ∈ w, d.isDigit = true)
    (hne' : f ≠ []) (hf : ∀ d ∈ f, d.isDigit = true)
    (hrest : ∀ d ∈ rest.head?, d.isDigit = false) : Longest Numeral (w ++ '.' :: f) rest := by
  refine ⟨.decimal hne hw hne' hf, ?_⟩
  rintro more hmore ⟨tail, rfl⟩ hnumeral
  obtain ⟨d, more, rfl⟩ := List.exists_cons_of_ne_nil hmore
  have hd : d.isDigit = false := hrest d rfl
  generalize hlonger : w ++ '.' :: f ++ d :: more = longer at hnumeral
  rw [List.append_assoc, List.cons_append] at hlonger
  cases hnumeral with
  | whole _ hall =>
      have hpoint := hall '.' (hlonger ▸ List.mem_append_right _ List.mem_cons_self)
      exact absurd hpoint (by decide)
  | @decimal whole fraction _ hwhole _ hfraction =>
      have hshort : Number.splitDigits (w ++ '.' :: (f ++ d :: more)) =
          (w, '.' :: (f ++ d :: more)) := splitDigits_append hw (by simp)
      have hlong : Number.splitDigits (whole ++ '.' :: fraction) = (whole, '.' :: fraction) :=
        splitDigits_append hwhole (by simp)
      rw [hlonger, hlong] at hshort
      obtain ⟨-, hsame⟩ := Prod.mk.inj hshort
      obtain ⟨-, rfl⟩ := List.cons.inj hsame
      have hdigit := hfraction d (List.mem_append_right _ List.mem_cons_self)
      rw [hd] at hdigit
      cases hdigit

theorem longest_symbol (h : splitOperator? (w ++ rest) = some (w, rest)) :
    Longest (· ∈ symbols) w rest := by
  obtain ⟨hw, hlonger⟩ := splitOperator?_eq_some_iff.1 h
  refine ⟨hw, ?_⟩
  rintro more hne ⟨tail, rfl⟩ hmem
  obtain ⟨c, more, rfl⟩ := List.exists_cons_of_ne_nil hne
  have hlengths : ∀ v ∈ symbols, 1 ≤ v.length ∧ v.length ≤ 2 := by decide
  have hlow := (hlengths _ hw).1
  have hhigh := (hlengths _ hmem).2
  rw [List.length_append, List.length_cons] at hhigh
  obtain rfl : more = [] := List.length_eq_zero_iff.1 (by omega)
  exact hlonger c rfl hmem

/-- The lexeme of a token is a longest one. -/
theorem Lexeme.isLongest (h : Lexeme w rest t) : t.IsLongest w rest := by
  cases h with
  | @word c u _ hc hu hrest =>
      have hlongest := longest_word hc hu hrest
      rw [ofWord]
      split
      · exact hlongest
      · split
        · exact .inl hlongest
        · exact .inl hlongest
  | whole hne hw hrest hpoint => exact longest_whole hne hw hrest hpoint
  | decimal hne hw hne' hf hrest => exact longest_decimal hne hw hne' hf hrest
  | char hc =>
      unfold ofChar? at hc
      split at hc <;> cases hc <;> trivial
  | literal hc =>
      unfold literalKind? at hc
      split at hc <;> cases hc
      · trivial
      · trivial
      · exact .inr rfl
  | symbol h => exact .inr (longest_symbol h)

end LongestLexemes

section Spelling

/-- The words of the language are words. -/
theorem isWordStart_of_isReserved {c : Char} (h : isReserved (String.ofList (c :: w)) = true) :
    isWordStart c = true := by
  have hwords : ∀ word ∈ keywords ++ wordOperators,
      word.toList.head?.all (fun d => 65 ≤ d.toNat ∧ d.toNat ≤ 90) = true := by decide
  have hupper : 65 ≤ c.toUpper.toNat ∧ c.toUpper.toNat ≤ 90 := by
    simpa using hwords _ (List.contains_iff_mem.1 h)
  rw [isWordStart_iff]
  rcases Text.toUpper_cases c with hsame | ⟨hlow, hhigh, -⟩
  · rw [hsame] at hupper
    exact .inl hupper
  · exact .inr (.inl ⟨hlow, hhigh⟩)

theorem isReserved_eq (word : String) :
    isReserved word = (keywords.contains (Text.asciiUpper word) ||
      wordOperators.contains (Text.asciiUpper word)) := by
  rw [Bool.eq_iff_iff, isReserved, Bool.or_eq_true, List.contains_iff_mem, List.contains_iff_mem,
    List.contains_iff_mem, List.mem_append]

theorem spelled_ofWord (hne : w ≠ []) : (ofWord (String.ofList w)).Spelled w := by
  have hreserved := isReserved_eq (String.ofList w)
  rw [ofWord]
  split
  · next hkeyword =>
    rw [hkeyword, Bool.true_or] at hreserved
    exact ⟨hne, hreserved.symm, rfl⟩
  · next hkeyword =>
    rw [Bool.eq_false_iff.2 hkeyword, Bool.false_or] at hreserved
    split
    · next hoperator =>
      have hword : (operator (String.ofList w)).isLanguageWord = true := hoperator
      rw [hoperator] at hreserved
      exact ⟨hne, hword.trans hreserved.symm, by rw [if_pos hword]; rfl⟩
    · next hoperator =>
      rw [Bool.eq_false_iff.2 hoperator] at hreserved
      exact ⟨hne, hreserved.symm, rfl⟩

/-- What is no word is spelled in one way. -/
theorem spelled_of_not_isWordStart {c : Char} (hc : isWordStart c = false)
    (ht : t.isLanguageWord = false) (htext : t.text = String.ofList (c :: w)) :
    t.Spelled (c :: w) where
  ne_nil := List.cons_ne_nil c w
  reserved := by
    rw [ht, eq_comm, Bool.eq_false_iff]
    intro hreserved
    rw [isWordStart_of_isReserved hreserved] at hc
    cases hc
  text := by rw [ht, htext]; rfl

theorem operator_of_mem_symbols (h : w ∈ symbols) :
    (operator (String.ofList w)).isLanguageWord = false ∧
      (operator (String.ofList w)).text = String.ofList w := by
  have hall : ∀ v ∈ symbols, (operator (String.ofList v)).isLanguageWord = false ∧
      (operator (String.ofList v)).text = String.ofList v := by
    simp [symbols]
    decide
  exact hall w h

/-- A lexeme is a word, or it starts like none and its token shows it as it stands. -/
theorem Lexeme.word_or_shown (h : Lexeme w rest t) :
    IsWord w ∧ t = ofWord (String.ofList w) ∨
      t.isLanguageWord = false ∧ t.text = String.ofList w ∧
        ∃ c u, w = c :: u ∧ isWordStart c = false ∧ c ≠ '.' := by
  have hpoint : ∀ {c : Char}, c.isDigit = true → c ≠ '.' := by
    rintro c hc rfl
    cases hc
  cases h with
  | @word c u _ hc hu => exact .inl ⟨⟨c, u, rfl, hc, hu⟩, rfl⟩
  | whole hne hw =>
      obtain ⟨c, u, rfl⟩ := List.exists_cons_of_ne_nil hne
      have hc := hw c List.mem_cons_self
      exact .inr ⟨rfl, rfl, c, u, rfl, isWordStart_of_isDigit hc, hpoint hc⟩
  | decimal hne hw =>
      obtain ⟨c, u, rfl⟩ := List.exists_cons_of_ne_nil hne
      have hc := hw c List.mem_cons_self
      exact .inr ⟨rfl, rfl, c, _, rfl, isWordStart_of_isDigit hc, hpoint hc⟩
  | char hc =>
      unfold ofChar? at hc
      split at hc <;> cases hc <;> exact .inr ⟨rfl, rfl, _, [], rfl, by decide⟩
  | literal hc =>
      unfold literalKind? at hc
      split at hc <;> cases hc <;> exact .inr ⟨rfl, rfl, _, _, rfl, by decide⟩
  | symbol h =>
      have hstarts : ∀ v ∈ symbols, ∀ c u, v = c :: u → c ≠ '.' := by
        rintro v hv c u rfl rfl
        simp [symbols] at hv
      obtain ⟨-, hw⟩ := splitOperator?_eq_some h
      obtain ⟨hword, htext⟩ := operator_of_mem_symbols hw
      obtain ⟨c, u, rfl, -, hc, -⟩ := exists_cons_of_mem_symbols hw
      exact .inr ⟨hword, htext, c, u, rfl, hc, hstarts _ hw c u rfl⟩

theorem Lexeme.spelled (h : Lexeme w rest t) : t.Spelled w := by
  rcases h.word_or_shown with ⟨-, rfl⟩ | ⟨hword, htext, c, u, rfl, hc, -⟩
  · exact spelled_ofWord h.ne_nil
  · exact spelled_of_not_isWordStart hc hword htext

end Spelling

section Tilings

theorem laid_cons (lead : List Char) (tile : Tile) (tiles : List Tile) :
    laid lead (tile :: tiles) = lead ++ (tile.lexeme ++ laid tile.gap tiles) := by
  rw [laid, laid, List.flatMap_cons, List.append_assoc]

theorem Writes.exists_tiling (h : Writes s ts) :
    ∃ lead tiles, Tiling s ts lead tiles ∧ ∀ front tile back, tiles = front ++ tile :: back →
      tile.token.IsLongest tile.lexeme (laid tile.gap back) := by
  induction h with
  | @blank s hs =>
      refine ⟨s, [], ⟨by simp [laid], rfl, hs, by simp, by simp⟩, fun front tile back h => ?_⟩
      simp at h
  | @token b w rest t ts hb hw _ ih =>
      obtain ⟨lead, tiles, htiling, hlongest⟩ := ih
      refine ⟨b, ⟨t, w, lead⟩ :: tiles, ⟨?_, ?_, hb, ?_, ?_⟩, ?_⟩
      · rw [laid_cons, htiling.text]
      · rw [List.map_cons, htiling.tokens]
      · exact List.forall_mem_cons.2 ⟨htiling.lead, htiling.gaps⟩
      · exact List.forall_mem_cons.2 ⟨hw.spelled, htiling.lexemes⟩
      · intro front tile back hsplit
        cases front with
        | nil =>
            obtain ⟨rfl, rfl⟩ := List.cons.inj hsplit
            have hrest := htiling.text
            subst hrest
            exact hw.isLongest
        | cons _ front => exact hlongest front tile back (List.cons.inj hsplit).2

/-- A text that is cut into tokens consists of the lexemes of these tokens and of white space in
front of them, between them and behind them. Each lexeme spells its token, and it is a longest one
of its class in front of what follows it. -/
theorem ofText_tiling {text : String} (h : ofText text = .ok ts) :
    ∃ lead tiles, Tiling text.toList ts lead tiles ∧
      ∀ front tile back, tiles = front ++ tile :: back →
        tile.token.IsLongest tile.lexeme (laid tile.gap back) :=
  (ofText_eq_ok_iff.1 h).2.exists_tiling

/-- A word in mixed case, white space that is not ASCII, and tokens that touch. -/
theorem ofText_tiling_touching :
    let text := "sElect\u2003`a b`,12abc<=1.5>'it\\'s';"
    let ts : List Token := [.keyword "SELECT", ⟨.identifier, "`a b`", some (.text "a b")⟩,
      ⟨.comma, ",", none⟩, ofNumeral ['1', '2'], .identifier "abc", .operator "<=",
      ofNumeral ['1', '.', '5'], .operator ">", ⟨.string, "'it\\'s'", some (.text "it's")⟩,
      ⟨.semicolon, ";", none⟩]
    ofText text = .ok ts ∧ ∃ lead tiles, Tiling text.toList ts lead tiles ∧
      ∀ front tile back, tiles = front ++ tile :: back →
        tile.token.IsLongest tile.lexeme (laid tile.gap back) := by
  intro text ts
  have h : ofText text = .ok ts := by decide +kernel
  exact ⟨h, ofText_tiling h⟩

end Tilings

end TableQuery.Token
