import TableQuery.Proofs.Expr.Readable
import TableQuery.Proofs.Grammar.Completeness
import TableQuery.Proofs.Grammar.Query
import TableQuery.Proofs.Token.Written

/-!
# The text of an expression reads back

The text of an expression is cut into a phrase of the grammar that denotes it. The parentheses
around an operand and the chain they interrupt take one level of nesting each, so an expression
needs at most twice its height as room.
-/

namespace TableQuery.Expr

open TableQuery.Grammar TableQuery.Parser TableQuery.Token

section Texts

theorem chars_case (subject : Option Expr) (branches : List (Expr × Expr))
    (otherwise : Option Expr) :
    chars (.case subject branches otherwise) =
      "CASE".toList ++ charsOption [] subject ++ charsBranches branches ++
        charsOption "ELSE ".toList otherwise ++ " END".toList := rfl

/-- The text of a branch, after a space. -/
def branchChars (b : Expr × Expr) : List Char :=
  ' ' :: ("WHEN".toList ++ ' ' :: (b.1.chars ++ ' ' :: ("THEN".toList ++ ' ' :: b.2.chars)))

theorem charsBranches_cons (b : Expr × Expr) (branches : List (Expr × Expr)) :
    charsBranches (b :: branches) = branchChars b ++ charsBranches branches := by
  have hwhen : " WHEN ".toList = ' ' :: ("WHEN".toList ++ [' ']) := by decide
  have hthen : " THEN ".toList = ' ' :: ("THEN".toList ++ [' ']) := by decide
  have hcons : charsBranches (b :: branches) =
      " WHEN ".toList ++ b.1.chars ++ " THEN ".toList ++ b.2.chars ++ charsBranches branches := rfl
  rw [hcons, hwhen, hthen, branchChars]
  simp only [List.cons_append, List.append_assoc, List.nil_append]

end Texts

variable {category : Category} {n n' : Nat} {s : List Char} {e left right : Expr}

section Phrases

/-- A phrase of a category that the parser reads when it has room for `n` levels of nesting. -/
def Fits : Category → Nat → Phrase Expr → Prop
  | .atom, n, p => Derives .atom p ∧ AcceptsAtom n p
  | .expression, n, p => Derives .expression p ∧ AcceptsExpression n p

/-- The characters are cut into a phrase that denotes the expression. -/
def ReadsBack (category : Category) (n : Nat) (s : List Char) (e : Expr) : Prop :=
  ∃ tokens, Lexes s tokens ∧ Fits category n ⟨tokens, e⟩

theorem Fits.mono {p : Phrase Expr} (h : Fits category n p) (hn : n ≤ n') :
    Fits category n' p := by
  cases category with
  | atom => exact ⟨h.1, h.2.mono hn⟩
  | expression => exact ⟨h.1, h.2.mono hn⟩

theorem ReadsBack.mono (h : ReadsBack category n s e) (hn : n ≤ n') :
    ReadsBack category n' s e := by
  obtain ⟨tokens, hs, h⟩ := h
  exact ⟨tokens, hs, h.mono hn⟩

/-- An atom is an expression by itself. -/
theorem ReadsBack.expression (h : ReadsBack .atom n s e) : ReadsBack .expression (n + 1) s e := by
  obtain ⟨tokens, hs, hderives, haccepts⟩ := h
  have hatoms : ∀ p ∈ (⟨⟨tokens, e⟩, []⟩ : Chain OperatorToken (Phrase Expr)).items,
      Derives .atom p ∧ AcceptsAtom n p := by simpa [Chain.items] using ⟨hderives, haccepts⟩
  have hchain := acceptsExpression_chain (fun p hp => (hatoms p hp).1) fun p hp => (hatoms p hp).2
  have hphrase := Derives.chain fun p hp => (hatoms p hp).1
  simp only [Phrase.chainTokens, Phrase.spell_nil, List.append_nil, Chain.toExpr_nil,
    List.length_nil] at hchain hphrase
  exact ⟨tokens, hs, hphrase, hchain⟩

/-- An opening parenthesis. -/
def openToken : TokenOf .openParenthesis := ⟨⟨.openParenthesis, "(", none⟩, rfl⟩

/-- A closing parenthesis. -/
def closeToken : TokenOf .closeParenthesis := ⟨⟨.closeParenthesis, ")", none⟩, rfl⟩

/-- Parentheses make an atom of an expression. -/
theorem ReadsBack.parenthesized (h : ReadsBack .expression n s e) :
    ReadsBack .atom n (parenthesized s) e := by
  obtain ⟨tokens, hs, hderives, haccepts⟩ := h
  refine ⟨_, ?_, .parentheses openToken closeToken hderives,
    acceptsAtom_parentheses openToken closeToken haccepts⟩
  exact (hs.append (lexes_nil.char rfl) (by simp [AtBoundary, isBoundary])).char rfl

/-- Two atoms with an operator between them. -/
theorem ReadsBack.binary (op : Operator) {s' : List Char} (hleft : ReadsBack .atom n s left)
    (hright : ReadsBack .atom n s' right) :
    ReadsBack .expression (n + 2) (s ++ ' ' :: op.symbol.toList ++ ' ' :: s')
      (.binary op left right) := by
  obtain ⟨w, hs, hleft, hleft'⟩ := hleft
  obtain ⟨w', hs', hright, hright'⟩ := hright
  let t : OperatorToken := ⟨ofOperator op, op, by cases op <;> rfl⟩
  have hatoms : ∀ p ∈ (⟨⟨w, left⟩, [(t, ⟨w', right⟩)]⟩ :
      Chain OperatorToken (Phrase Expr)).items, Derives .atom p ∧ AcceptsAtom n p := by
    refine Chain.forall_mem_items.mpr ⟨⟨hleft, hleft'⟩, ?_⟩
    simpa using And.intro hright hright'
  have hvalue : Chain.toExpr ⟨⟨w, left⟩, [] ++ [(t, ⟨w', right⟩)]⟩ = .binary op left right :=
    Chain.toExpr_root (by simp) (by simp)
  rw [List.nil_append] at hvalue
  have hchain := acceptsExpression_chain (fun p hp => (hatoms p hp).1) fun p hp => (hatoms p hp).2
  have hphrase := Derives.chain fun p hp => (hatoms p hp).1
  rw [hvalue] at hchain hphrase
  refine ⟨_, ?_, hphrase, hchain⟩
  have hlexes := (hs.append (lexes_operator op).space (by simp [AtBoundary, isBoundary])).append
    hs'.space (by simp [AtBoundary, isBoundary])
  simpa [Phrase.chainTokens, OperatorToken.tokens, t] using hlexes

/-- An operand stands in parentheses exactly when it applies an operator. -/
theorem ReadsBack.operand (h : ReadsBack .expression n e.chars e)
    (hatom : e.isBinary = false → ReadsBack .atom n e.chars e) :
    ReadsBack .atom n (operandChars e e.chars) e := by
  rw [operandChars]
  split
  · exact h.parenthesized
  · next hbinary => exact hatom (by simpa using hbinary)

theorem readsBack_leaf {t : Token} (hheight : e.height = 1) (hs : Lexes s [t])
    (h : Derives .atom ⟨[t], e⟩)
    (hatom : ∀ nested rest, atom nested (t :: rest) = .ok (⟨e, 1⟩, rest)) :
    ReadsBack .atom 0 s e :=
  ⟨[t], hs, h, acceptsAtom_leaf hheight hatom⟩

/-- A comma. -/
def commaGap : Gap .comma := .comma ⟨.comma, ",", none⟩ rfl

/-- The texts of arguments with commas between them are cut into a list. -/
theorem exists_arguments {args : List Expr} (hne : args ≠ [])
    (h : ∀ e ∈ args, ReadsBack .expression n e.chars e) :
    ∃ c : Chain (Gap .comma) (Phrase Expr), c.phrase.value = args ∧
      Lexes (charsAll args) c.phrase.tokens ∧ ∀ p ∈ c.items, Fits .expression n p := by
  induction args with
  | nil => exact absurd rfl hne
  | cons e args ih =>
      obtain ⟨⟨w, hs, he⟩, hargs⟩ := List.forall_mem_cons.mp h
      cases args with
      | nil =>
          refine ⟨⟨⟨w, e⟩, []⟩, rfl, ?_, by simpa [Chain.items] using he⟩
          simpa [Chain.phrase, Phrase.chainTokens, charsAll] using hs
      | cons e' args =>
          obtain ⟨⟨first, links⟩, hvalue, hlexes, hitems⟩ := ih (by simp) hargs
          obtain ⟨hfirst, hlinks⟩ := Chain.forall_mem_items.mp hitems
          refine ⟨⟨⟨w, e⟩, (commaGap, first) :: links⟩, ?_, ?_, ?_⟩
          · rw [← hvalue]
            simp [Chain.phrase, Chain.items]
          · have hcomma : Lexes (',' :: ' ' :: charsAll (e' :: args)) _ :=
              hlexes.space.char rfl
            have hall := hs.append hcomma (by simp [AtBoundary, isBoundary])
            simpa [Chain.phrase, Phrase.chainTokens, commaGap, Gap.comma, charsAll] using hall
          · exact Chain.forall_mem_items.mpr ⟨he, List.forall_mem_cons.mpr ⟨hfirst, hlinks⟩⟩

/-- The words that are quoted as names are the words that the lexer does not take for names. -/
theorem reservedWords_eq : reservedWords = keywords ++ wordOperators := rfl

/-- A bare name is cut into an identifier. -/
theorem lexes_bareName {name : String} (h : isBareName name = true) :
    Lexes name.toList [Token.identifier name] := by
  simp only [isBareName, Bool.and_eq_true, Bool.not_eq_true', isReserved,
    reservedWords_eq, List.contains_eq_mem, decide_eq_false_iff_not, List.mem_append, not_or] at h
  obtain ⟨hword, hkeyword, hoperator⟩ := h
  have hof : ofWord name = Token.identifier name := by
    simp [ofWord, hkeyword, hoperator]
  split at hword
  · cases hword
  · next c rest hname =>
    rw [Bool.and_eq_true] at hword
    rw [← hof]
    exact lexes_word hname hword.1 hword.2

/-- The token of a keyword. -/
def keywordToken (word : String) : Keyword word :=
  ⟨⟨.keyword, word, none⟩, Token.isKeyword_iff.mpr ⟨rfl, rfl⟩⟩

theorem lexes_keyword {word : String}
    (h : word ∈ ["NULL", "TRUE", "FALSE", "CASE", "WHEN", "THEN", "ELSE", "END"]) :
    Lexes word.toList [(keywordToken word).1] := by
  have hof : ofWord word = (keywordToken word).1 := by
    simp only [List.mem_cons, List.not_mem_nil, or_false] at h
    rcases h with rfl | rfl | rfl | rfl | rfl | rfl | rfl | rfl <;> rfl
  have hword : ∃ c s, word.toList = c :: s ∧ isWordStart c = true ∧ s.all isWordPart = true := by
    simp only [List.mem_cons, List.not_mem_nil, or_false] at h
    rcases h with rfl | rfl | rfl | rfl | rfl | rfl | rfl | rfl <;>
      exact ⟨_, _, rfl, by decide, by decide⟩
  obtain ⟨c, s, hcons, hc, hs⟩ := hword
  rw [← hof]
  exact lexes_word hcons hc hs

theorem atBoundary_space (s : List Char) : AtBoundary (' ' :: s) := by
  simp [AtBoundary, isBoundary]

theorem atBoundary_charsBranches (branches : List (Expr × Expr)) :
    AtBoundary (charsBranches branches) := by
  cases branches with
  | nil => exact atBoundary_nil
  | cons b branches =>
      rw [charsBranches_cons]
      exact atBoundary_space _

theorem atBoundary_charsOption (word : List Char) (o : Option Expr) :
    AtBoundary (charsOption word o) := by
  cases o with
  | none => exact atBoundary_nil
  | some e => exact atBoundary_space _

/-- The text of a branch is cut into a branch. -/
theorem exists_branch {b : Expr × Expr} (hcondition : ReadsBack .expression n b.1.chars b.1)
    (hresult : ReadsBack .expression n b.2.chars b.2) :
    ∃ branch : Branch, branch.phrase.value = b ∧ Lexes (branchChars b) branch.phrase.tokens ∧
      Fits .expression n branch.condition ∧ Fits .expression n branch.result := by
  obtain ⟨w, hs, hc⟩ := hcondition
  obtain ⟨w', hs', hr⟩ := hresult
  refine ⟨⟨keywordToken "WHEN", ⟨w, b.1⟩, keywordToken "THEN", ⟨w', b.2⟩⟩, rfl, ?_, hc, hr⟩
  have hthen := (lexes_keyword (show "THEN" ∈ _ by simp)).append hs'.space (atBoundary_space _)
  have hwhen := (lexes_keyword (show "WHEN" ∈ _ by simp)).append
    (hs.append hthen.space (atBoundary_space _)).space (atBoundary_space _)
  exact hwhen.space

/-- The texts of branches are cut into branches. -/
theorem exists_branches {branches : List (Expr × Expr)} (hne : branches ≠ [])
    (hcondition : ∀ b ∈ branches, ReadsBack .expression n b.1.chars b.1)
    (hresult : ∀ b ∈ branches, ReadsBack .expression n b.2.chars b.2) :
    ∃ c : Chain (Gap .nothing) Branch, (c.map id Branch.phrase).phrase.value = branches ∧
      Lexes (charsBranches branches) (c.map id Branch.phrase).phrase.tokens ∧
        ∀ b ∈ c.items, Fits .expression n b.condition ∧ Fits .expression n b.result := by
  induction branches with
  | nil => exact absurd rfl hne
  | cons b branches ih =>
      obtain ⟨hc, hconditions⟩ := List.forall_mem_cons.mp hcondition
      obtain ⟨hr, hresults⟩ := List.forall_mem_cons.mp hresult
      obtain ⟨branch, hvalue, hlexes, hfits⟩ := exists_branch hc hr
      cases branches with
      | nil =>
          refine ⟨⟨branch, []⟩, ?_, ?_, by simpa [Chain.items] using hfits⟩
          · simp [Chain.phrase, Chain.items, Chain.map, hvalue]
          · have hnil : charsBranches [] = [] := rfl
            simpa [Chain.phrase, Phrase.chainTokens, Chain.map, charsBranches_cons, hnil]
              using hlexes
      | cons b' branches =>
          obtain ⟨⟨first, links⟩, hvalues, hlexes', hitems⟩ := ih (by simp) hconditions hresults
          obtain ⟨hfirst, hlinks⟩ := Chain.forall_mem_items.mp hitems
          refine ⟨⟨branch, (.nothing, first) :: links⟩, ?_, ?_, ?_⟩
          · rw [← hvalues, ← hvalue]
            simp [Chain.phrase, Chain.items, Chain.map]
          · have hall := hlexes.append hlexes' (atBoundary_charsBranches _)
            rw [charsBranches_cons]
            simpa [Chain.phrase, Phrase.chainTokens, Chain.map, Gap.nothing] using hall
          · exact Chain.forall_mem_items.mpr ⟨hfits, List.forall_mem_cons.mpr ⟨hfirst, hlinks⟩⟩

/-- The text of a subject is cut into a subject. -/
theorem exists_subject {subject : Option Expr}
    (h : ∀ e ∈ subject, ReadsBack .expression n e.chars e) :
    ∃ o : Option (Phrase Expr), (Phrase.option o).value = subject ∧
      Lexes (charsOption [] subject) (Phrase.option o).tokens ∧
        ∀ p ∈ o, Fits .expression n p := by
  cases subject with
  | none => exact ⟨none, rfl, lexes_nil, by simp⟩
  | some e =>
      obtain ⟨w, hs, he⟩ := h e rfl
      exact ⟨some ⟨w, e⟩, rfl, hs.space, by simpa using he⟩

/-- The text of the last part of a choice is cut into that part. -/
theorem exists_otherwise {otherwise : Option Expr}
    (h : ∀ e ∈ otherwise, ReadsBack .expression n e.chars e) :
    ∃ o : Option (Keyword "ELSE" × Phrase Expr), (Phrase.clause o).value = otherwise ∧
      Lexes (charsOption "ELSE ".toList otherwise) (Phrase.clause o).tokens ∧
        ∀ l ∈ o, Fits .expression n l.2 := by
  cases otherwise with
  | none => exact ⟨none, rfl, lexes_nil, by simp⟩
  | some e =>
      obtain ⟨w, hs, he⟩ := h e rfl
      refine ⟨some (keywordToken "ELSE", ⟨w, e⟩), rfl, ?_, by simpa using he⟩
      have htext : charsOption "ELSE ".toList (some e) =
          ' ' :: ("ELSE".toList ++ ' ' :: e.chars) := by
        have helse : "ELSE ".toList = "ELSE".toList ++ [' '] := by decide
        have hsome : charsOption "ELSE ".toList (some e) = ' ' :: "ELSE ".toList ++ e.chars := rfl
        rw [hsome, helse, List.cons_append, List.append_assoc]
        rfl
      have hall := (lexes_keyword (show "ELSE" ∈ _ by simp)).append hs.space (atBoundary_space _)
      rw [htext]
      exact hall.space

/-- The text of a choice is cut into a choice. -/
theorem ReadsBack.case {subject otherwise : Option Expr} {branches : List (Expr × Expr)}
    (hne : branches ≠ []) (hsubject : ∀ e ∈ subject, ReadsBack .expression n e.chars e)
    (hcondition : ∀ b ∈ branches, ReadsBack .expression n b.1.chars b.1)
    (hresult : ∀ b ∈ branches, ReadsBack .expression n b.2.chars b.2)
    (hotherwise : ∀ e ∈ otherwise, ReadsBack .expression n e.chars e) :
    ReadsBack .atom n (chars (.case subject branches otherwise))
      (.case subject branches otherwise) := by
  obtain ⟨sub, rfl, hsLexes, hs⟩ := exists_subject hsubject
  obtain ⟨chain, rfl, hbLexes, hb⟩ := exists_branches hne hcondition hresult
  obtain ⟨oth, rfl, hoLexes, ho⟩ := exists_otherwise hotherwise
  have hcase := lexes_keyword (show "CASE" ∈ _ by simp)
  have hend : Lexes (" END".toList) [(keywordToken "END").1] :=
    (lexes_keyword (show "END" ∈ _ by simp)).space
  refine ⟨_, ?_, .case (keywordToken "CASE") (keywordToken "END") (fun p hp => (hs p hp).1)
    (fun b hb' => (hb b hb').1.1) (fun b hb' => (hb b hb').2.1) (fun l hl => (ho l hl).1),
    acceptsAtom_case (fun p hp => (hs p hp).2) (fun b hb' => (hb b hb').1.2)
      (fun b hb' => (hb b hb').2.2) (fun l hl => (ho l hl).2) _ _⟩
  rw [chars_case]
  exact (((hcase.append hsLexes (atBoundary_charsOption _ _)).append hbLexes
    (atBoundary_charsBranches _)).append hoLexes (atBoundary_charsOption _ _)).append hend
      (atBoundary_space _)

end Phrases

section Calls

theorem chars_call (name : String) (args : List Expr) :
    chars (.call name args) = name.toList ++ '(' :: (charsAll args ++ [')']) := rfl

/-- The identifier of a bare name. -/
def bareName (name : String) : TokenOf .identifier := ⟨Token.identifier name, rfl⟩

theorem lexes_call {name : String} {tokens : List Token} (hbare : isBareName name = true)
    (hs : Lexes s tokens) :
    Lexes (name.toList ++ '(' :: (s ++ [')']))
      ((bareName name).1 :: openToken.1 :: tokens ++ [closeToken.1]) := by
  have hclose : Lexes (s ++ [')']) (tokens ++ [closeToken.1]) :=
    hs.append (lexes_nil.char rfl) (by simp [AtBoundary, isBoundary])
  exact (lexes_bareName hbare).append (hclose.char rfl) (by simp [AtBoundary, isBoundary])

theorem readsBack_countRows :
    ReadsBack .atom 0 (chars (.call "COUNT" [.star])) (.call "COUNT" [.star]) := by
  let star : TokenOf .star := ⟨⟨.star, "*", none⟩, rfl⟩
  have hstar : Lexes (charsAll [.star]) [star.1] := lexes_nil.char rfl
  have hcount : Expr.ofCall (bareName "COUNT").1.name [.star] = .call "COUNT" [.star] := rfl
  rw [chars_call, ← hcount]
  exact ⟨_, lexes_call (by decide) hstar,
    .countRows (bareName "COUNT") openToken star closeToken rfl,
    acceptsAtom_countRows (bareName "COUNT") openToken star closeToken rfl⟩

theorem ReadsBack.call {name : String} {args : List Expr} (hbare : isBareName name = true)
    (hupper : Text.asciiUpper name = name) (hn : 1 ≤ n)
    (h : ∀ e ∈ args, ReadsBack .expression n e.chars e) :
    ReadsBack .atom n (chars (.call name args)) (.call name args) := by
  have hcall (args : List Expr) : Expr.ofCall (bareName name).1.name args = .call name args := by
    rw [ofCall]
    exact congrArg (Expr.call · args) hupper
  rw [chars_call, ← hcall]
  by_cases hne : args = []
  · subst hne
    exact ⟨_, lexes_call hbare lexes_nil, .callNothing (bareName name) openToken closeToken,
      (acceptsAtom_callNothing (bareName name) openToken closeToken).mono hn⟩
  · obtain ⟨c, rfl, hs, hc⟩ := exists_arguments hne h
    exact ⟨_, lexes_call hbare hs,
      .call (bareName name) openToken closeToken fun p hp => (hc p hp).1,
      acceptsAtom_call (bareName name) openToken closeToken fun p hp => (hc p hp).2⟩

end Calls

section Expressions

/-- The text of an expression reads back with twice its height as room, that of an atom with one
level less. -/
structure TextReads (e : Expr) : Prop where
  /-- The text is an expression. -/
  expression : ReadsBack .expression (2 * e.height) e.chars e
  /-- The text of an expression that applies no operator is an atom. -/
  atom : e.isBinary = false → ReadsBack .atom (2 * e.height - 1) e.chars e

theorem TextReads.of_atom (h : ReadsBack .atom (2 * e.height - 1) e.chars e) : TextReads e := by
  have := e.height_pos
  exact ⟨h.expression.mono (by omega), fun _ => h⟩

theorem TextReads.operand (h : TextReads e) :
    ReadsBack .atom (2 * e.height) (operandChars e e.chars) e :=
  h.expression.operand fun hbinary => (h.atom hbinary).mono (by omega)

theorem Readable.textReads (h : Readable e) : TextReads e := by
  induction h with
  | null =>
      exact .of_atom ((readsBack_leaf rfl (lexes_keyword (by simp)) (.null (keywordToken "NULL"))
        fun _ _ => rfl).mono (Nat.zero_le _))
  | bool b =>
      refine .of_atom (ReadsBack.mono ?_ (Nat.zero_le _))
      cases b with
      | true =>
          exact readsBack_leaf rfl (lexes_keyword (by simp)) (.bool true (keywordToken "TRUE"))
            fun _ _ => rfl
      | false =>
          exact readsBack_leaf rfl (lexes_keyword (by simp)) (.bool false (keywordToken "FALSE"))
            fun _ _ => rfl
  | @number s h =>
      have hlexes : Lexes (String.ofList s).toList [ofNumeral s] := by
        rw [String.toList_ofList]
        exact lexes_numeral h
      exact .of_atom ((readsBack_leaf rfl hlexes (.number ⟨ofNumeral s, rfl⟩)
        fun _ _ => rfl).mono (Nat.zero_le _))
  | string s =>
      exact .of_atom ((readsBack_leaf rfl (lexes_literal rfl s) (.string ⟨_, rfl⟩)
        fun _ _ => rfl).mono (Nat.zero_le _))
  | identifier name =>
      refine .of_atom (ReadsBack.mono ?_ (Nat.zero_le _))
      have htext : chars (.identifier name) = (nameText name).toList := rfl
      rw [htext, nameText]
      split
      · next hbare =>
        exact ⟨_, lexes_bareName hbare, .column (bareName name), acceptsAtom_column (bareName name)⟩
      · let t : TokenOf .identifier :=
          ⟨⟨.identifier, Text.encodeQuoted backtick name, some (.text name)⟩, rfl⟩
        exact ⟨[t.1], lexes_literal rfl name, .column t, acceptsAtom_column t⟩
  | countRows => exact .of_atom (readsBack_countRows.mono (Nat.zero_le _))
  | @call name args hbare hupper h ih =>
      refine .of_atom (.call hbare hupper (by have := height_pos (.call name args); omega) ?_)
      intro e he
      have hheight : e.height < (Expr.call name args).height := lt_height_call he
      exact (ih e he).expression.mono (by omega)
  | @binary op left right hleft hright ihl ihr =>
      refine ⟨?_, fun hbinary => by cases hbinary⟩
      let n := 2 * max left.height right.height
      have hl : ReadsBack .atom n (operandChars left left.chars) left :=
        ihl.operand.mono (by omega)
      have hr : ReadsBack .atom n (operandChars right right.chars) right :=
        ihr.operand.mono (by omega)
      exact (hl.binary op hr).mono (by simp only [height]; omega)
  | @case subject branches otherwise hne hsubject hcondition hresult hotherwise ihs ihc ihr iho =>
      obtain ⟨hsub, hbranch, hoth⟩ := lt_height_case subject branches otherwise
      refine .of_atom (.case hne (fun e he => ?_) (fun b hb => ?_) (fun b hb => ?_) fun e he => ?_)
      · have := hsub e he
        exact (ihs e he).expression.mono (by omega)
      · have := hbranch b hb
        exact (ihc b hb).expression.mono (by omega)
      · have := hbranch b hb
        exact (ihr b hb).expression.mono (by omega)
      · have := hoth e he
        exact (iho e he).expression.mono (by omega)

/-- The text of an expression that the parser has returned, with bare names of functions, is cut
into tokens of which the parser takes all and returns the same expression. Only the nesting limit
may prevent that, and does not for an expression of height 128 or less. -/
theorem text_reads_back {s : String} {tokens rest : List Token} {e : Expr}
    (htokens : Token.ofText s = .ok tokens) (h : Expr.parser tokens = .ok (e, rest))
    (hnames : ∀ name ∈ e.callNames, isBareName name = true) :
    ∃ printed, Token.ofText e.text = .ok printed ∧
      (Expr.parser printed = .ok (e, []) ∨
        ∃ f, Expr.parser printed = .error f ∧ f.refusal = .unexpected .shallowerExpression) ∧
      (e.height ≤ 128 → Expr.parser printed = .ok (e, [])) := by
  obtain ⟨w, hs, hderives⟩ := parser_yields _ _ _ h
  have hnumerals : Token.NumeralsRead w :=
    (Token.ofText_numeralsRead htokens).mono fun t ht => hs ▸ List.mem_append_left _ ht
  obtain ⟨printed, hlexes, -, haccepts⟩ := (hderives.readable hnumerals hnames).textReads.expression
  obtain ⟨t, u, ht, -⟩ := haccepts.starts
  have hcuts : Cuts e.text.toList printed := by
    have := hlexes [] [] atBoundary_nil cuts_nil
    simpa [text] using this
  have hprinted : Token.ofText e.text = .ok printed := by
    obtain rfl : printed = t :: u := ht
    exact hcuts.ofText_eq
  have hreads : Expr.parser.Reads printed e []
      (2 * e.height ≤ maxHeight ∧ e.height ≤ maxHeight) := by
    have hmap := (haccepts.reads maxHeight [] (by simp [Closing])).map (f := Sized.expr)
    rw [List.append_nil] at hmap
    exact hmap
  refine ⟨printed, hprinted, ?_, fun hheight => ?_⟩
  · rcases hreads with hok | ⟨-, f, herror, hf⟩
    · exact .inl hok
    · exact .inr ⟨f, herror, hf⟩
  · exact hreads.eq_ok (by simp only [maxHeight]; omega)

/-- `max( b ) + 1.50` is written `MAX(b) + 1.50`, and that reads back. -/
theorem text_reads_back_sum :
    let e : Expr := .binary .add (.call "MAX" [.identifier "b"])
      (.number (Number.ofDecimalText "1.50".toList) "1.50")
    ∃ printed, Token.ofText e.text = .ok printed ∧
      (Expr.parser printed = .ok (e, []) ∨
        ∃ f, Expr.parser printed = .error f ∧ f.refusal = .unexpected .shallowerExpression) ∧
      (e.height ≤ 128 → Expr.parser printed = .ok (e, [])) := by
  intro e
  have htokens : Token.ofText "max( b ) + 1.50" = .ok
      [.identifier "max", openToken.1, .identifier "b", closeToken.1, .operator "+",
        ofNumeral "1.50".toList] := by rfl
  -- the value of the literal has no part in how the tokens are read
  have hparser : ∀ r : Number, Expr.parser
      [.identifier "max", openToken.1, .identifier "b", closeToken.1, .operator "+",
        ⟨.number, "1.50", some (.number r)⟩] =
      .ok (.binary .add (.call "MAX" [.identifier "b"]) (.number r "1.50"), []) := fun _ => rfl
  exact text_reads_back htokens (hparser _) (by decide)

end Expressions

end TableQuery.Expr
