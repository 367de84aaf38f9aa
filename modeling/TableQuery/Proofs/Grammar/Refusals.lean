import TableQuery.Proofs.Evaluation.Outline
import TableQuery.Proofs.Parser.Refusals
import TableQuery.Proofs.Token.Written
import TableQuery.Query.Aggregation

/-!
# No text has an unknown operator

Every operator that the lexer writes has a symbol. So a text that is no query is refused for its
characters or for its grammar, and never for an operator.
-/

namespace TableQuery

namespace Expr

open TableQuery.Parser

variable {nested : OperandParser} (h : ∀ control, (nested control).Understands)

theorem exists_frontOperator? {s : List Token} (hs : ∀ t ∈ s, t.IsKnown) :
    ∃ o, frontOperator? s = .ok o := by
  cases s with
  | nil => exact ⟨none, rfl⟩
  | cons t s =>
      rw [frontOperator?]
      split
      · exact ⟨_, rfl⟩
      · split
        · next hkind =>
          obtain ⟨op, hop⟩ := Option.isSome_iff_exists.1 (hs t List.mem_cons_self hkind)
          exact ⟨some op, by rw [hop]⟩
        · exact ⟨none, rfl⟩

theorem understands_sized (e : Expr) (height : Nat) : (sized e height).Understands :=
  .ite (understands_expected _) (.pure _)

include h

theorem understands_branch : (branch nested).Understands :=
  (understands_keyword _).bind fun _ => (h none).bind fun _ => (understands_keyword _).bind fun _ =>
    (h none).bind fun _ => .pure _

theorem understands_subject : (subject nested).Understands :=
  (understands_atKeyword _).bind fun _ => .ite (.pure _) ((h none).map some)

theorem understands_choice : (choice nested).Understands :=
  (understands_subject h).bind fun _ => (understands_list₁ (understands_branch h) _).bind fun _ =>
    (understands_clause _ (h none)).bind fun _ => (understands_keyword _).bind fun _ =>
      understands_sized _ _

theorem understands_arguments (name : String) : (arguments nested name).Understands := by
  refine Understands.get.bind fun s => ?_
  refine .ite ?_ ?_
  · exact (understands_token _ _).bind fun _ => (understands_token _ _).bind fun _ => .pure _
  · exact (understands_list₀ (h none) _).bind fun _ => (understands_token _ _).bind fun _ =>
      understands_sized _ _

theorem understands_group : (group nested).Understands :=
  (h none).bind fun _ => (understands_token _ _).bind fun _ => .pure _

theorem understands_named (name : String) : (named nested name).Understands :=
  (understands_accept _).bind fun _ => .ite (understands_arguments h name) (.pure _)

theorem understands_atom : (atom nested).Understands := by
  intro s hs
  cases s with
  | nil => exact nofun
  | cons t s =>
      obtain ⟨-, hs⟩ := List.forall_mem_cons.1 hs
      rw [atom]
      cases t.kind with
      | openParenthesis => exact understands_group h s hs
      | identifier => exact understands_named h t.name s hs
      | number => exact hs
      | string => exact hs
      | keyword =>
          simp only
          split
          · exact hs
          · split
            · exact hs
            · split
              · exact hs
              · split
                · exact understands_choice h s hs
                · exact nofun
      | _ => exact nofun

theorem understands_applied (op : Operator) (left : Sized) :
    (applied nested op left).Understands :=
  (h _).bind fun _ => understands_sized _ _

theorem understands_operators (control : Option Operator) (bound : Nat) (left : Sized) :
    (operators nested control bound left).Understands := by
  induction bound generalizing left with
  | zero => exact fun _ hs => hs
  | succ bound ih =>
      intro s hs
      obtain ⟨o, ho⟩ := exists_frontOperator? hs
      rw [operators, ho]
      cases o with
      | none => exact hs
      | some op =>
          simp only
          split
          · exact hs
          · have hstep := understands_applied h op left (s.drop 1) fun t ht =>
              hs t (List.mem_of_mem_drop ht)
            split
            · next happlied =>
              rw [happlied] at hstep
              exact hstep
            · next larger rest happlied =>
              rw [happlied] at hstep
              exact ih larger rest hstep

omit h

theorem understands_operand (room : Nat) (control : Option Operator) :
    (operand room control).Understands := by
  induction room generalizing control with
  | zero => exact understands_expected _
  | succ room ih =>
      refine (understands_atom ih).bind fun left => ?_
      exact fun s => understands_operators ih control s.length left s

theorem understands_expression : Expr.parser.Understands := (understands_operand _ _).map _

end Expr

namespace Query

open TableQuery.Parser

theorem understands_outputColumn : outputColumn.Understands :=
  Expr.understands_expression.bind fun _ =>
    (understands_clause _ (understands_token _ _)).bind fun _ => .pure _

theorem understands_selection : selection.Understands :=
  (understands_accept _).bind fun _ =>
    .ite (.pure _) ((understands_list₁ understands_outputColumn _).bind fun _ => .pure _)

theorem understands_tableName : tableName.Understands := (understands_token _ _).map _

theorem understands_grouping : grouping.Understands := by
  apply understands_clause
  exact (understands_keyword _).bind fun _ =>
    (understands_list₁ Expr.understands_expression _).bind fun _ =>
      (understands_clause _ Expr.understands_expression).bind fun _ => .pure _

theorem understands_orderingTerm : orderingTerm.Understands :=
  Expr.understands_expression.bind fun _ => (understands_acceptKeyword _).bind fun _ =>
    .ite (.pure _) ((understands_acceptKeyword _).bind fun _ => .ite (.pure _) (.pure _))

theorem understands_ordering : ordering.Understands := by
  apply understands_clause
  exact (understands_keyword _).bind fun _ => understands_list₁ understands_orderingTerm _

theorem understands_count : count.Understands := by
  intro s hs
  have htoken := understands_token .number (·.isKind .number) s hs
  rw [count]
  split
  · next hread =>
    rw [hread] at htoken
    exact htoken
  · next hread =>
    rw [hread] at htoken
    split
    · exact htoken
    · exact nofun

theorem understands_clauses : clauses.Understands :=
  (understands_keyword _).bind fun _ => understands_selection.bind fun _ =>
    (understands_keyword _).bind fun _ => understands_tableName.bind fun _ =>
    (understands_clause _ Expr.understands_expression).bind fun _ =>
    understands_grouping.bind fun _ => understands_ordering.bind fun _ =>
    (understands_clause _ understands_count).bind fun _ =>
    (understands_clause _ understands_count).bind fun _ => .pure _

theorem understands_finished : finished.Understands := by
  intro s hs
  cases s with
  | nil => exact hs
  | cons t s => exact nofun

theorem understands_query : parser.Understands :=
  understands_clauses.bind fun _ => (understands_accept _).bind fun _ =>
    understands_finished.bind fun _ => .pure _

end Query

section Texts

theorem Token.isKnown_ofWord (word : String) : (Token.ofWord word).IsKnown := by
  intro hkind
  unfold ofWord at hkind ⊢
  split
  · next hkeyword =>
    rw [if_pos hkeyword] at hkind
    cases hkind
  · next hkeyword =>
    rw [if_neg hkeyword] at hkind
    split
    · next hword =>
      have hall : ∀ w ∈ wordOperators, (Operator.ofSymbol? w).isSome := by decide
      exact hall _ (List.contains_iff_mem.1 hword)
    · next hword =>
      rw [if_neg hword] at hkind
      cases hkind

theorem Token.isKnown_symbol {w : List Char} (h : w ∈ symbols) :
    (operator (String.ofList w)).IsKnown := by
  intro _
  have hall : ∀ w ∈ symbols, (Operator.ofSymbol? (operator (String.ofList w)).text).isSome := by
    decide
  exact hall w h

theorem Token.Lexeme.isKnown {w rest : List Char} {t : Token} (h : Lexeme w rest t) :
    t.IsKnown := by
  cases h with
  | word => exact isKnown_ofWord _
  | whole => exact nofun
  | decimal => exact nofun
  | char hc =>
      unfold ofChar? at hc
      split at hc <;> cases hc <;> exact nofun
  | literal hc =>
      unfold literalKind? at hc
      split at hc <;> cases hc <;> exact nofun
  | symbol hsymbol => exact isKnown_symbol (splitOperator?_eq_some hsymbol).2

theorem Token.Writes.isKnown {s : List Char} {ts : List Token} (h : Writes s ts) :
    ∀ t ∈ ts, t.IsKnown := by
  induction h with
  | blank => exact nofun
  | token _ hw _ ih => exact List.forall_mem_cons.2 ⟨hw.isKnown, ih⟩

namespace Query

/-- A text that is no query is refused when it is cut into tokens or for its grammar. -/
theorem kind_of_ofText_error {text : String} {e : Error} (h : ofText text = .error e) :
    e.kind = .lexical ∨ e.kind = .unexpected := by
  rw [ofText] at h
  split at h
  · next tokens htokens =>
    have hknown := understands_query tokens (Token.ofText_eq_ok_iff.1 htokens).2.isKnown
    rw [ofTokens] at h
    split at h
    · cases h
    · next f hparser =>
      rw [hparser] at hknown
      cases h
      right
      rw [Parser.Failure.toError]
      split
      · rfl
      · next hrefusal => exact absurd hrefusal hknown
  · cases h
    exact .inl rfl

/-- A text that cannot be compiled is no query, or it uses aggregates where they have no
meaning. -/
theorem kind_of_compile_error {text : String} {e : Error} (h : compile text = .error e) :
    e.kind = .lexical ∨ e.kind = .unexpected ∨ e.kind = .semantic := by
  rw [compile] at h
  cases hparse : ofText text with
  | error e' =>
      rw [hparse] at h
      cases h
      exact (kind_of_ofText_error hparse).imp_right .inl
  | ok q =>
      rw [hparse] at h
      cases hidentify : q.identifyAggregates with
      | ok marked =>
          simp only [bind, Except.bind, hidentify] at h
          cases h
      | error e' =>
          simp only [bind, Except.bind, hidentify] at h
          cases h
          exact .inr (.inr rfl)

end Query

end Texts

end TableQuery
