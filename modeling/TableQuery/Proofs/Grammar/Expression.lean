import TableQuery.Expr.Parser
import TableQuery.Proofs.Operator.Root
import TableQuery.Proofs.Parser.Phrase

/-!
# The grammar of expressions

`Derives` says which tokens are an atom or an expression, and what they denote. An expression is
a chain of atoms with operators between them; what it denotes is the grouping of the chain by
levels. The grammar knows no nesting limit.
-/

namespace TableQuery

/-- The operator that a token stands for between two operands. A star is the multiplication
sign. -/
def Token.operator? (t : Token) : Option Operator :=
  if t.kind = .star then some .multiply
  else if t.kind = .operator then Operator.ofSymbol? t.text
  else none

/-- A token that stands for an operator. -/
structure OperatorToken where
  /-- The token. -/
  token : Token
  /-- The operator. -/
  op : Operator
  /-- The token stands for the operator. -/
  denotes : token.operator? = some op

/-- The token as a list. -/
def OperatorToken.tokens (t : OperatorToken) : List Token := [t.token]

theorem OperatorToken.kind_ne_openParenthesis (t : OperatorToken) :
    t.token.kind ≠ .openParenthesis := by
  intro hkind
  simpa [Token.operator?, hkind] using t.denotes

theorem Token.isKeyword_iff {word : String} {t : Token} :
    t.isKeyword word = true ↔ t.kind = .keyword ∧ t.text = word := by
  simp [isKeyword]

/-- A given keyword. -/
abbrev Keyword (word : String) : Type := { t : Token // t.isKeyword word = true }

theorem Keyword.not_keyword {word other : String} (k : Keyword word) (s : List Token)
    (h : word ≠ other) : ∀ t ∈ (k.1 :: s).head?, t.isKeyword other = false := by
  intro t ht
  obtain rfl : k.1 = t := Option.some.inj ht
  rw [Bool.eq_false_iff, ne_eq, Token.isKeyword_iff, (Token.isKeyword_iff.mp k.2).2]
  exact fun hk => h hk.2

/-- A token of a given kind. -/
abbrev TokenOf (kind : Token.Kind) : Type := { t : Token // t.kind = kind }

namespace Phrase

variable {α : Type}

/-- A phrase that may be missing. -/
def option : Option (Phrase α) → Phrase (Option α)
  | none => ⟨[], none⟩
  | some p => ⟨p.tokens, some p.value⟩

theorem exists_of_mem_option {o : Option (Phrase α)} {a : α} (h : a ∈ (option o).value) :
    ∃ p, o = some p ∧ a = p.value := by
  cases o with
  | none => cases h
  | some p => exact ⟨p, rfl, (Option.some.inj h).symm⟩

/-- A phrase behind a keyword, or nothing. -/
def clause {word : String} : Option (Keyword word × Phrase α) → Phrase (Option α)
  | none => ⟨[], none⟩
  | some (k, p) => ⟨k.1 :: p.tokens, some p.value⟩

theorem exists_of_mem_clause {word : String} {o : Option (Keyword word × Phrase α)} {a : α}
    (h : a ∈ (clause o).value) : ∃ l, o = some l ∧ a = l.2.value := by
  cases o with
  | none => cases h
  | some l => exact ⟨l, rfl, (Option.some.inj h).symm⟩

end Phrase

/-- A branch of a choice. -/
structure Branch where
  /-- The keyword before the condition. -/
  whenWord : Keyword "WHEN"
  /-- The condition, or what the subject is compared with. -/
  condition : Phrase Expr
  /-- The keyword before the result. -/
  thenWord : Keyword "THEN"
  /-- The result. -/
  result : Phrase Expr

/-- The branch as a phrase. -/
def Branch.phrase (b : Branch) : Phrase (Expr × Expr) :=
  ⟨b.whenWord.1 :: b.condition.tokens ++ b.thenWord.1 :: b.result.tokens,
    (b.condition.value, b.result.value)⟩

/-- The expression that a grouping of operands denotes. -/
def OperatorTree.toExpr : OperatorTree Expr → Expr
  | leaf e => e
  | node op left right => .binary op left.toExpr right.toExpr

/-- The expression that a chain of phrases denotes. -/
def Chain.toExpr (c : Chain OperatorToken (Phrase Expr)) : Expr :=
  (c.map OperatorToken.op Phrase.value).arrange.toExpr

@[simp] theorem Chain.toExpr_nil (p : Phrase Expr) : Chain.toExpr ⟨p, []⟩ = p.value := rfl

/-- The root of a chain is the operator of its expression. -/
theorem Chain.toExpr_root {t : OperatorToken} {first p : Phrase Expr}
    {before behind : List (OperatorToken × Phrase Expr)}
    (hbefore : ∀ l ∈ before, t.op.bindsTighter (some l.1.op) = false)
    (hbehind : ∀ l ∈ behind, l.1.op.bindsTighter (some t.op) = true) :
    Chain.toExpr ⟨first, before ++ (t, p) :: behind⟩ =
      .binary t.op (Chain.toExpr ⟨first, before⟩) (Chain.toExpr ⟨p, behind⟩) := by
  have hroot : t.op.IsRoot (before.map fun l => (l.1.op, l.2.value))
      (behind.map fun l => (l.1.op, l.2.value)) := by
    simpa only [Operator.IsRoot, List.forall_mem_map] using And.intro hbefore hbehind
  simp only [toExpr, map, List.map_append, List.map_cons, arrange_root hroot,
    OperatorTree.toExpr]

/-- An operator that does not bind tighter than the root binds no tighter than any operator of
the chain. -/
theorem Chain.not_bindsTighter_of_root {t : OperatorToken} {p : Phrase Expr}
    {before behind : List (OperatorToken × Phrase Expr)}
    (hbefore : ∀ l ∈ before, t.op.bindsTighter (some l.1.op) = false)
    (hbehind : ∀ l ∈ behind, l.1.op.bindsTighter (some t.op) = true) {op : Operator}
    (hop : op.bindsTighter (some t.op) = false) :
    ∀ l ∈ before ++ (t, p) :: behind, op.bindsTighter (some l.1.op) = false := by
  intro l hl
  have hroot : t.op.IsRoot (before.map fun l => (l.1.op, l.2))
      (behind.map fun l => (l.1.op, l.2)) := by
    simpa only [Operator.IsRoot, List.forall_mem_map] using And.intro hbefore hbehind
  exact hroot.not_bindsTighter hop (a := p) (l := (l.1.op, l.2)) (by
    simpa using List.mem_map_of_mem (f := fun l => (l.1.op, l.2)) hl)

namespace Grammar

/-- The categories of the grammar. -/
inductive Category where
  /-- An expression that applies no operator outside of parentheses. -/
  | atom
  /-- Any expression. -/
  | expression

/-- The phrases of each category. -/
inductive Derives : Category → Phrase Expr → Prop where
  /-- The literal NULL. -/
  | null (t : Keyword "NULL") : Derives .atom ⟨[t.1], .null⟩
  /-- The literals TRUE and FALSE. -/
  | bool (b : Bool) (t : Keyword (if b then "TRUE" else "FALSE")) : Derives .atom ⟨[t.1], .bool b⟩
  /-- A numeral. -/
  | number (t : TokenOf .number) :
      Derives .atom ⟨[t.1], .number (t.1.number?.getD (Number.ofNat 0)) t.1.text⟩
  /-- A string literal. -/
  | string (t : TokenOf .string) : Derives .atom ⟨[t.1], .string t.1.name⟩
  /-- A column. -/
  | column (t : TokenOf .identifier) : Derives .atom ⟨[t.1], .identifier t.1.name⟩
  /-- An expression between parentheses. -/
  | parentheses (o : TokenOf .openParenthesis) (c : TokenOf .closeParenthesis) {p : Phrase Expr}
      (h : Derives .expression p) : Derives .atom ⟨o.1 :: p.tokens ++ [c.1], p.value⟩
  /-- A call that counts rows. -/
  | countRows (t : TokenOf .identifier) (o : TokenOf .openParenthesis) (star : TokenOf .star)
      (c : TokenOf .closeParenthesis) (h : Text.asciiUpper t.1.name = "COUNT") :
      Derives .atom ⟨[t.1, o.1, star.1, c.1], .ofCall t.1.name [.star]⟩
  /-- A call without arguments. -/
  | callNothing (t : TokenOf .identifier) (o : TokenOf .openParenthesis)
      (c : TokenOf .closeParenthesis) : Derives .atom ⟨[t.1, o.1, c.1], .ofCall t.1.name []⟩
  /-- A call with arguments. -/
  | call (t : TokenOf .identifier) (o : TokenOf .openParenthesis) (c : TokenOf .closeParenthesis)
      {args : Chain (Gap .comma) (Phrase Expr)} (h : ∀ p ∈ args.items, Derives .expression p) :
      Derives .atom
        ⟨t.1 :: o.1 :: args.phrase.tokens ++ [c.1], .ofCall t.1.name args.phrase.value⟩
  /-- A choice. -/
  | case (start : Keyword "CASE") (finish : Keyword "END") {subject : Option (Phrase Expr)}
      {branches : Chain (Gap .nothing) Branch} {otherwise : Option (Keyword "ELSE" × Phrase Expr)}
      (hsubject : ∀ p ∈ subject, Derives .expression p)
      (hcondition : ∀ b ∈ branches.items, Derives .expression b.condition)
      (hresult : ∀ b ∈ branches.items, Derives .expression b.result)
      (hotherwise : ∀ l ∈ otherwise, Derives .expression l.2) :
      Derives .atom
        ⟨start.1 :: (Phrase.option subject).tokens ++
            (branches.map id Branch.phrase).phrase.tokens ++
            (Phrase.clause otherwise).tokens ++ [finish.1],
          .case (Phrase.option subject).value (branches.map id Branch.phrase).phrase.value
            (Phrase.clause otherwise).value⟩
  /-- Atoms with operators between them. -/
  | chain {c : Chain OperatorToken (Phrase Expr)} (h : ∀ p ∈ c.items, Derives .atom p) :
      Derives .expression ⟨Phrase.chainTokens OperatorToken.tokens c, c.toExpr⟩

/-- Whether an expression can start with the token. -/
def Starts (t : Token) : Prop :=
  t.kind = .openParenthesis ∨ t.kind = .identifier ∨ t.kind = .number ∨ t.kind = .string ∨
    ∃ word ∈ ["NULL", "TRUE", "FALSE", "CASE"], t.isKeyword word = true

theorem Derives.exists_starts {category : Category} {p : Phrase Expr} (h : Derives category p) :
    ∃ t w, p.tokens = t :: w ∧ Starts t := by
  induction h with
  | null t => exact ⟨t.1, [], rfl, .inr (.inr (.inr (.inr ⟨_, by simp, t.2⟩)))⟩
  | bool b t =>
      exact ⟨t.1, [], rfl, .inr (.inr (.inr (.inr ⟨_, by cases b <;> simp, t.2⟩)))⟩
  | number t => exact ⟨t.1, [], rfl, .inr (.inr (.inl t.2))⟩
  | string t => exact ⟨t.1, [], rfl, .inr (.inr (.inr (.inl t.2)))⟩
  | column t => exact ⟨t.1, _, rfl, .inr (.inl t.2)⟩
  | parentheses o c h ih => exact ⟨o.1, _, rfl, .inl o.2⟩
  | countRows t o star c h => exact ⟨t.1, _, rfl, .inr (.inl t.2)⟩
  | callNothing t o c => exact ⟨t.1, _, rfl, .inr (.inl t.2)⟩
  | call t o c h ih => exact ⟨t.1, _, rfl, .inr (.inl t.2)⟩
  | case start finish =>
      exact ⟨start.1, _, rfl, .inr (.inr (.inr (.inr ⟨_, by simp, start.2⟩)))⟩
  | @chain c h ih =>
      obtain ⟨t, w, ht, hstarts⟩ := ih c.first (Chain.forall_mem_items.mp fun _ h => h).1
      exact ⟨t, w ++ Phrase.spell OperatorToken.tokens c.links,
        by simp [Phrase.chainTokens, ht], hstarts⟩

end Grammar

end TableQuery
