import TableQuery.Proofs.Grammar.Soundness
import TableQuery.Query.Parser

/-!
# The grammar of queries

The clauses of a query come in a fixed order. What the parser of queries takes is a query of the
grammar: an item of a list that fails leaves no trace, because the parser then goes on behind the
last complete item.
-/

namespace TableQuery.Grammar

open TableQuery.Parser

variable {α : Type}

section Rules

/-- A phrase behind a keyword, which may be missing together with it. -/
def Clause (word : String) (P : Phrase α → Prop) (p : Phrase (Option α)) : Prop :=
  ∃ o : Option (Keyword word × Phrase α), (∀ l ∈ o, P l.2) ∧ p = Phrase.clause o

/-- The token that names a column of the result. -/
inductive ColumnName : Phrase Token → Prop where
  | intro (t : Token) (h : t.kind = .identifier ∨ t.kind = .string) : ColumnName ⟨[t], t⟩

/-- A column of the result, with a name or without. -/
inductive Column : Phrase OutputColumn → Prop where
  | intro {p : Phrase Expr} {name : Phrase (Option Token)} (h : Derives .expression p)
      (hname : Clause "AS" ColumnName name) :
      Column ⟨p.tokens ++ name.tokens,
        ⟨p.value, (name.value.map Token.name).getD (OutputColumn.defaultName p.value)⟩⟩

/-- The columns of the result. -/
inductive Selects : Phrase Selection → Prop where
  | all (t : TokenOf .star) : Selects ⟨[t.1], .all⟩
  | columns {p : Phrase (List OutputColumn)} (h : Separated .comma Column p) :
      Selects ⟨p.tokens, .columns p.value⟩

/-- The keys of groups and the condition on them, behind GROUP. -/
inductive Groups : Phrase (List Expr × Option Expr) → Prop where
  | intro {keys : Phrase (List Expr)} {having : Phrase (Option Expr)} (k : Keyword "BY")
      (hkeys : Separated .comma (Derives .expression) keys)
      (hhaving : Clause "HAVING" (Derives .expression) having) :
      Groups ⟨k.1 :: keys.tokens ++ having.tokens, (keys.value, having.value)⟩

/-- A term of an ordering. -/
inductive Term : Phrase OrderingTerm → Prop where
  | unmarked {p : Phrase Expr} (h : Derives .expression p) :
      Term ⟨p.tokens, ⟨p.value, .ascending⟩⟩
  | ascending {p : Phrase Expr} (h : Derives .expression p) (k : Keyword "ASC") :
      Term ⟨p.tokens ++ [k.1], ⟨p.value, .ascending⟩⟩
  | descending {p : Phrase Expr} (h : Derives .expression p) (k : Keyword "DESC") :
      Term ⟨p.tokens ++ [k.1], ⟨p.value, .descending⟩⟩

/-- The terms of an ordering, behind ORDER. -/
inductive Orders : Phrase (List OrderingTerm) → Prop where
  | intro {terms : Phrase (List OrderingTerm)} (k : Keyword "BY")
      (h : Separated .comma Term terms) : Orders ⟨k.1 :: terms.tokens, terms.value⟩

/-- A count of rows. -/
inductive Count : Phrase Nat → Prop where
  | intro (t : TokenOf .number) {n : Nat} (h : t.1.number?.bind Query.count? = some n) :
      Count ⟨[t.1], n⟩

/-- The clauses of a query. -/
inductive Clauses : Phrase Query → Prop where
  | intro {select : Phrase Selection} {condition : Phrase (Option Expr)}
      {grouping : Phrase (Option (List Expr × Option Expr))}
      {ordering : Phrase (Option (List OrderingTerm))} {limit offset : Phrase (Option Nat)}
      (selectWord : Keyword "SELECT") (hselect : Selects select) (fromWord : Keyword "FROM")
      (source : TokenOf .string) (hcondition : Clause "WHERE" (Derives .expression) condition)
      (hgrouping : Clause "GROUP" Groups grouping) (hordering : Clause "ORDER" Orders ordering)
      (hlimit : Clause "LIMIT" Count limit) (hoffset : Clause "OFFSET" Count offset) :
      Clauses
        ⟨selectWord.1 :: (select.tokens ++ fromWord.1 :: source.1 ::
            (condition.tokens ++ (grouping.tokens ++ (ordering.tokens ++
              (limit.tokens ++ offset.tokens))))),
          { select := select.value
            source := source.1.name
            condition := condition.value
            groupBy := grouping.value.map (·.1)
            having := grouping.value.bind (·.2)
            orderBy := ordering.value
            limit := limit.value
            offset := offset.value }⟩

/-- A query, which a semicolon may end. -/
inductive Sentence : Phrase Query → Prop where
  | intro {q : Phrase Query} (h : Clauses q) (semicolon : Option (TokenOf .semicolon)) :
      Sentence ⟨q.tokens ++ semicolon.toList.map Subtype.val, q.value⟩

end Rules

section Parsers

theorem parser_yields : Expr.parser.Yields (Derives .expression) := by
  intro s e rest h
  obtain ⟨x, hx, rfl⟩ := map_eq_ok.mp h
  obtain ⟨w, hs, p, ⟨hp, -⟩, hpx⟩ := nested_yields (operand_sound Expr.maxHeight) _ _ _ hx
  obtain ⟨rfl, rfl⟩ := Phrase.mk.inj hpx
  exact ⟨_, hs, hp⟩

theorem clause_yields {p : Parser α} {P : Phrase α → Prop} {word : String} (h : p.Yields P) :
    (clause word p).Yields (Clause word P) := by
  intro s o rest hclause
  rcases clause_eq_ok.mp hclause with ⟨t, s', a, rfl, ht, ha, rfl⟩ | ⟨rfl, rfl, -⟩
  · obtain ⟨w, rfl, hw⟩ := h _ _ _ ha
    exact ⟨t :: w, rfl, some (⟨t, ht⟩, ⟨w, a⟩), by simpa using hw, rfl⟩
  · exact ⟨[], rfl, none, by simp, rfl⟩

theorem columnName_yields :
    (token .columnName fun t => t.isKind .identifier || t.isKind .string).Yields ColumnName := by
  intro s t rest h
  obtain ⟨rfl, hkind⟩ := token_eq_ok.mp h
  exact ⟨[t], rfl, .intro t (by simpa [Token.isKind] using hkind)⟩

theorem outputColumn_yields : Query.outputColumn.Yields Column := by
  intro s column rest h
  obtain ⟨e, s₁, he, h⟩ := bind_eq_ok.mp h
  obtain ⟨name, s₂, hname, h⟩ := bind_eq_ok.mp h
  obtain ⟨rfl, rfl⟩ := pure_eq_ok.mp h
  obtain ⟨w, rfl, hw⟩ := parser_yields _ _ _ he
  obtain ⟨w', rfl, hw'⟩ := clause_yields columnName_yields _ _ _ hname
  exact ⟨w ++ w', by simp, .intro hw hw'⟩

theorem selection_yields : Query.selection.Yields Selects := by
  intro s select rest h
  obtain ⟨b, s₁, hstar, hselect⟩ := bind_eq_ok.mp h
  rcases accept_eq_ok.mp hstar with ⟨rfl, t, rfl, ht⟩ | ⟨rfl, rfl, -⟩
  · obtain ⟨rfl, rfl⟩ := pure_eq_ok.mp hselect
    exact ⟨[t], rfl, .all ⟨t, by simpa [Token.isKind] using ht⟩⟩
  · obtain ⟨columns, s₂, hcolumns, hpure⟩ := bind_eq_ok.mp hselect
    obtain ⟨rfl, rfl⟩ := pure_eq_ok.mp hpure
    obtain ⟨w, rfl, hw⟩ := list₁_yields outputColumn_yields _ _ _ _ hcolumns
    exact ⟨w, rfl, .columns hw⟩

theorem grouping_yields : Query.grouping.Yields (Clause "GROUP" Groups) := by
  refine clause_yields fun s x rest h => ?_
  obtain ⟨k, s₁, hby, h⟩ := bind_eq_ok.mp h
  obtain ⟨keys, s₂, hkeys, h⟩ := bind_eq_ok.mp h
  obtain ⟨having, s₃, hhaving, h⟩ := bind_eq_ok.mp h
  obtain ⟨rfl, rfl⟩ := pure_eq_ok.mp h
  obtain ⟨rfl, hk⟩ := keyword_eq_ok.mp hby
  obtain ⟨w, rfl, hw⟩ := list₁_yields parser_yields _ _ _ _ hkeys
  obtain ⟨w', rfl, hw'⟩ := clause_yields parser_yields _ _ _ hhaving
  exact ⟨k :: w ++ w', by simp, .intro ⟨k, hk⟩ hw hw'⟩

theorem orderingTerm_yields : Query.orderingTerm.Yields Term := by
  intro s term rest h
  obtain ⟨e, s₁, he, hmark⟩ := bind_eq_ok.mp h
  obtain ⟨b, s₂, hasc, hterm⟩ := bind_eq_ok.mp hmark
  obtain ⟨w, rfl, hw⟩ := parser_yields _ _ _ he
  rcases acceptKeyword_eq_ok.mp hasc with ⟨rfl, k, rfl, hk⟩ | ⟨rfl, rfl, -⟩
  · obtain ⟨rfl, rfl⟩ := pure_eq_ok.mp hterm
    exact ⟨w ++ [k], by simp, .ascending hw ⟨k, hk⟩⟩
  obtain ⟨b, s₃, hdesc, hlast⟩ := bind_eq_ok.mp hterm
  rcases acceptKeyword_eq_ok.mp hdesc with ⟨rfl, k, rfl, hk⟩ | ⟨rfl, rfl, -⟩
  · obtain ⟨rfl, rfl⟩ := pure_eq_ok.mp hlast
    exact ⟨w ++ [k], by simp, .descending hw ⟨k, hk⟩⟩
  · obtain ⟨rfl, rfl⟩ := pure_eq_ok.mp hlast
    exact ⟨w, rfl, .unmarked hw⟩

theorem ordering_yields : Query.ordering.Yields (Clause "ORDER" Orders) := by
  refine clause_yields fun s terms rest h => ?_
  obtain ⟨k, s₁, hby, hterms⟩ := bind_eq_ok.mp h
  obtain ⟨rfl, hk⟩ := keyword_eq_ok.mp hby
  obtain ⟨w, rfl, hw⟩ := list₁_yields orderingTerm_yields _ _ _ _ hterms
  exact ⟨k :: w, rfl, .intro ⟨k, hk⟩ hw⟩

theorem count_eq_ok {s rest : List Token} {n : Nat} :
    Query.count s = .ok (n, rest) ↔
      ∃ t, s = t :: rest ∧ t.kind = .number ∧ t.number?.bind Query.count? = some n := by
  simp only [Query.count]
  cases htoken : token .number (·.isKind .number) s with
  | error f =>
      simp only [reduceCtorEq, false_iff, not_exists, not_and]
      rintro t rfl hkind
      simp [token, Token.isKind, hkind] at htoken
  | ok x =>
      obtain ⟨rfl, hkind⟩ := token_eq_ok.mp htoken
      simp only [Token.isKind, beq_iff_eq] at hkind
      simp only [List.cons.injEq]
      constructor
      · intro h
        split at h
        · next m hm =>
          simp only [Except.ok.injEq, Prod.mk.injEq] at h
          exact ⟨x.1, ⟨rfl, h.2⟩, hkind, by rw [hm, h.1]⟩
        · cases h
      · rintro ⟨t, ⟨rfl, rfl⟩, -, hn⟩
        rw [hn]

theorem count_yields : Query.count.Yields Count := by
  intro s n rest h
  obtain ⟨t, rfl, hkind, hn⟩ := count_eq_ok.mp h
  exact ⟨[t], rfl, .intro ⟨t, hkind⟩ hn⟩

theorem clauses_yields : Query.clauses.Yields Clauses := by
  intro s q rest h
  obtain ⟨selectWord, s₁, hselectWord, h⟩ := bind_eq_ok.mp h
  obtain ⟨select, s₂, hselect, h⟩ := bind_eq_ok.mp h
  obtain ⟨fromWord, s₃, hfromWord, h⟩ := bind_eq_ok.mp h
  obtain ⟨source, s₄, hsource, h⟩ := bind_eq_ok.mp h
  obtain ⟨condition, s₅, hcondition, h⟩ := bind_eq_ok.mp h
  obtain ⟨grouping, s₆, hgrouping, h⟩ := bind_eq_ok.mp h
  obtain ⟨ordering, s₇, hordering, h⟩ := bind_eq_ok.mp h
  obtain ⟨limit, s₈, hlimit, h⟩ := bind_eq_ok.mp h
  obtain ⟨offset, s₉, hoffset, h⟩ := bind_eq_ok.mp h
  obtain ⟨rfl, rfl⟩ := pure_eq_ok.mp h
  obtain ⟨rfl, hkSelect⟩ := keyword_eq_ok.mp hselectWord
  obtain ⟨w₁, rfl, hw₁⟩ := selection_yields _ _ _ hselect
  obtain ⟨rfl, hkFrom⟩ := keyword_eq_ok.mp hfromWord
  obtain ⟨t, ht, rfl⟩ := map_eq_ok.mp hsource
  obtain ⟨rfl, hkind⟩ := token_eq_ok.mp ht
  obtain ⟨w₂, rfl, hw₂⟩ := clause_yields parser_yields _ _ _ hcondition
  obtain ⟨w₃, rfl, hw₃⟩ := grouping_yields _ _ _ hgrouping
  obtain ⟨w₄, rfl, hw₄⟩ := ordering_yields _ _ _ hordering
  obtain ⟨w₅, rfl, hw₅⟩ := clause_yields count_yields _ _ _ hlimit
  obtain ⟨w₆, rfl, hw₆⟩ := clause_yields count_yields _ _ _ hoffset
  have hkind : t.kind = .string := by simpa [Token.isKind] using hkind
  exact ⟨_, by simp, .intro ⟨selectWord, hkSelect⟩ hw₁ ⟨fromWord, hkFrom⟩ ⟨t, hkind⟩ hw₂ hw₃ hw₄
    hw₅ hw₆⟩

theorem parser_sound {tokens rest : List Token} {q : Query}
    (h : Query.parser tokens = .ok (q, rest)) : Sentence ⟨tokens, q⟩ := by
  obtain ⟨q, s₁, hq, h⟩ := bind_eq_ok.mp h
  obtain ⟨b, s₂, hsemicolon, h⟩ := bind_eq_ok.mp h
  obtain ⟨_, s₃, hend, h⟩ := bind_eq_ok.mp h
  obtain ⟨rfl, rfl⟩ := pure_eq_ok.mp h
  obtain ⟨w, rfl, hw⟩ := clauses_yields _ _ _ hq
  obtain rfl : s₂ = [] := by
    cases s₂ with
    | nil => rfl
    | cons t s => cases hend
  rcases accept_eq_ok.mp hsemicolon with ⟨-, t, rfl, ht⟩ | ⟨-, rfl, -⟩
  · exact .intro hw (some ⟨t, by simpa [Token.isKind] using ht⟩)
  · exact .intro hw none

end Parsers

end TableQuery.Grammar

namespace TableQuery.Query

theorem ofTokens_eq_ok {tokens : List Token} {q : Query} :
    ofTokens tokens = .ok q ↔ ∃ rest, parser tokens = .ok (q, rest) := by
  rw [ofTokens]
  constructor
  · intro h
    split at h
    · next q' rest hparser =>
      cases h
      exact ⟨rest, hparser⟩
    · cases h
  · rintro ⟨rest, hparser⟩
    simp only [hparser]

/-- A text that is read is a query of the grammar, cut into tokens. -/
theorem sentence_of_ofText {text : String} {q : Query} (h : ofText text = .ok q) :
    ∃ tokens, Grammar.Sentence ⟨tokens, q⟩ := by
  rw [ofText] at h
  split at h
  · next tokens _ =>
    obtain ⟨rest, hparser⟩ := ofTokens_eq_ok.1 h
    exact ⟨tokens, Grammar.parser_sound hparser⟩
  · cases h

end TableQuery.Query
