import TableQuery.Proofs.Expr.Written
import TableQuery.Proofs.Grammar.Query
import TableQuery.Proofs.Query.Meaning

/-! # Queries as written

What a text denotes has only expressions as written, in each of its clauses. -/

namespace TableQuery

/-- The expressions of a query that are evaluated row by row. -/
def Query.inner (q : Query) : List Expr := q.condition.toList ++ q.groupBy.getD []

theorem Separated.exists_of_mem {α : Type} {P : Phrase α → Prop} {sep : Parser.Separator}
    {p : Phrase (List α)} (h : Separated sep P p) {a : α} (ha : a ∈ p.value) :
    ∃ x, P x ∧ a = x.value := by
  obtain ⟨c, hc, rfl⟩ := h
  obtain ⟨x, hx, rfl⟩ := List.mem_map.1 ha
  exact ⟨x, hc x hx, rfl⟩

/-- What holds of the expressions in each clause holds of all expressions of the query. -/
theorem Query.forall_mem_exprs {q : Query} {P : Expr → Prop} (hcondition : ∀ e ∈ q.condition, P e)
    (hkeys : ∀ keys ∈ q.groupBy, ∀ e ∈ keys, P e) (hselect : ∀ e ∈ q.select.exprs, P e)
    (hhaving : ∀ e ∈ q.having, P e) (hordering : ∀ terms ∈ q.orderBy, ∀ t ∈ terms, P t.expr) :
    ∀ e ∈ q.inner ++ q.outer, P e := by
  rw [inner, outer]
  simp only [List.forall_mem_append, List.forall_mem_map, Option.mem_toList]
  refine ⟨⟨hcondition, ?_⟩, hselect, hhaving, ?_⟩
  · cases hgroup : q.groupBy with
    | none => exact List.forall_mem_nil P
    | some keys => exact hkeys keys hgroup
  · cases horder : q.orderBy with
    | none => exact List.forall_mem_nil _
    | some terms => exact hordering terms horder

namespace Grammar

variable {α : Type} {P : Phrase α → Prop}

theorem Clause.exists_of_mem {word : String} {p : Phrase (Option α)} (h : Clause word P p) {a : α}
    (ha : a ∈ p.value) : ∃ x, P x ∧ a = x.value := by
  obtain ⟨o, ho, rfl⟩ := h
  obtain ⟨l, rfl, rfl⟩ := Phrase.exists_of_mem_clause ha
  exact ⟨l.2, ho l rfl, rfl⟩

theorem written_of_separated {sep : Parser.Separator} {p : Phrase (List Expr)}
    (h : Separated sep (Derives .expression) p) : ∀ e ∈ p.value, e.Written := by
  intro e he
  obtain ⟨x, hx, rfl⟩ := h.exists_of_mem he
  exact hx.written

theorem written_of_clause {word : String} {p : Phrase (Option Expr)}
    (h : Clause word (Derives .expression) p) : ∀ e ∈ p.value, e.Written := by
  intro e he
  obtain ⟨x, hx, rfl⟩ := h.exists_of_mem he
  exact hx.written

theorem Selects.written {p : Phrase Selection} (h : Selects p) :
    ∀ e ∈ p.value.exprs, e.Written := by
  cases h with
  | all t => exact List.forall_mem_nil _
  | columns hcolumns =>
      refine List.forall_mem_map.2 fun c hc => ?_
      obtain ⟨x, hx, rfl⟩ := hcolumns.exists_of_mem hc
      cases hx with
      | intro hexpr hname => exact hexpr.written

theorem Term.written {p : Phrase OrderingTerm} (h : Term p) : p.value.expr.Written := by
  cases h with
  | unmarked hexpr => exact hexpr.written
  | ascending hexpr k => exact hexpr.written
  | descending hexpr k => exact hexpr.written

theorem Groups.written {p : Phrase (List Expr × Option Expr)} (h : Groups p) :
    (∀ e ∈ p.value.1, e.Written) ∧ ∀ e ∈ p.value.2, e.Written := by
  cases h with
  | intro k hkeys hhaving =>
      constructor
      · exact written_of_separated hkeys
      · exact written_of_clause hhaving

theorem Orders.written {p : Phrase (List OrderingTerm)} (h : Orders p) :
    ∀ t ∈ p.value, t.expr.Written := by
  cases h with
  | intro k hterms =>
      intro t ht
      obtain ⟨x, hx, rfl⟩ := hterms.exists_of_mem ht
      exact hx.written

theorem Clauses.written {p : Phrase Query} (h : Clauses p) :
    ∀ e ∈ p.value.inner ++ p.value.outer, e.Written := by
  cases h with
  | intro selectWord hselect fromWord source hcondition hgrouping hordering =>
      refine Query.forall_mem_exprs (written_of_clause hcondition) ?_ hselect.written ?_ ?_
      · intro keys hkeys
        obtain ⟨g, hg, rfl⟩ := Option.map_eq_some_iff.1 hkeys
        obtain ⟨y, hy, rfl⟩ := hgrouping.exists_of_mem hg
        exact hy.written.1
      · intro e he
        obtain ⟨g, hg, he⟩ := Option.bind_eq_some_iff.1 he
        obtain ⟨y, hy, rfl⟩ := hgrouping.exists_of_mem hg
        exact hy.written.2 e he
      · intro terms hterms
        obtain ⟨y, hy, rfl⟩ := hordering.exists_of_mem hterms
        exact hy.written

/-- A query of the grammar has only expressions as written, and no aggregates are collected. -/
theorem Sentence.written {p : Phrase Query} (h : Sentence p) :
    (∀ e ∈ p.value.inner ++ p.value.outer, e.Written) ∧ p.value.aggregates = [] := by
  cases h with
  | intro hclauses _ =>
      refine ⟨hclauses.written, ?_⟩
      cases hclauses
      rfl

end Grammar

namespace Query

/-- A query that a text denotes has only expressions as written, and no aggregates are
collected. -/
theorem written_of_ofText {text : String} {q : Query} (h : ofText text = .ok q) :
    (∀ e ∈ q.inner ++ q.outer, e.Written) ∧ q.aggregates = [] := by
  obtain ⟨tokens, hsentence⟩ := sentence_of_ofText h
  exact hsentence.written

end Query

end TableQuery
