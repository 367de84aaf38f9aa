import TableQuery.Proofs.Failure
import TableQuery.Proofs.Query.Meaning

/-! # Compiled queries

A compiled query is the parsed one with its aggregates told apart and the distinct ones
collected. -/

namespace TableQuery

open Collecting

namespace Collecting

variable {α β : Type}

theorem Finds.mapM {f : α → Collecting β} {g : α → β} {found : α → List Aggregate} {l : List α}
    (h : ∀ a, (f a).Finds (g a) (found a)) : (l.mapM f).Finds (l.map g) (l.flatMap found) := by
  induction l with
  | nil => exact .pure _
  | cons a l ih =>
      rw [List.mapM_cons, List.flatMap_cons]
      exact (h a).bind (ih.bind_pure _)

end Collecting

/-- The columns of the result, with their aggregates told apart. -/
def Selection.marked : Selection → Selection
  | all => all
  | columns l => columns (l.map fun c => { c with expr := c.expr.marked })

/-- A term of an ordering, with its aggregates told apart. -/
def OrderingTerm.marked (t : OrderingTerm) : OrderingTerm := { t with expr := t.expr.marked }

namespace Query

/-- The query with its aggregates told apart and the distinct ones collected. -/
def marked (q : Query) : Query :=
  { q with
    select := q.select.marked
    having := q.having.map Expr.marked
    orderBy := q.orderBy.map (List.map OrderingTerm.marked)
    aggregates := Aggregate.addAll [] q.occurrences }

theorem identifySelection_finds (select : Selection) :
    (identifySelection select).Finds select.marked (select.exprs.flatMap Expr.aggregates) := by
  cases select with
  | all => exact .pure _
  | columns l =>
      rw [Selection.exprs, List.flatMap_map]
      exact (Finds.mapM fun c => c.expr.identify_finds.bind_pure _).map _

theorem identifyOrdering_finds (orderBy : Option (List OrderingTerm)) :
    (identifyOrdering orderBy).Finds (orderBy.map (List.map OrderingTerm.marked))
      (((orderBy.getD []).map (·.expr)).flatMap Expr.aggregates) := by
  rw [List.flatMap_map]
  cases orderBy with
  | none => exact .pure _
  | some l => exact (Finds.mapM fun t => t.expr.identify_finds.bind_pure _).map _

theorem identifyHaving_finds (having : Option Expr) :
    (Expr.identifyOption having).Finds (having.map Expr.marked)
      (having.toList.flatMap Expr.aggregates) := by
  cases having with
  | none => exact .pure _
  | some e =>
      rw [Option.toList_some, List.flatMap_singleton]
      exact e.identify_finds.map some

theorem identifyClauses_finds (q : Query) :
    q.identifyClauses.Finds { q.marked with aggregates := q.aggregates } q.occurrences := by
  rw [occurrences, outer, List.flatMap_append, List.flatMap_append]
  refine (identifySelection_finds q.select).bind ?_
  refine (identifyHaving_finds q.having).bind ?_
  exact (identifyOrdering_finds q.orderBy).bind_pure _

theorem eq_marked_of_identifyAggregates {p q : Query} (h : p.identifyAggregates = .ok q) :
    q = p.marked := by
  obtain ⟨_, -, h⟩ := except_bind_eq_ok.1 h
  obtain ⟨_, -, h⟩ := except_bind_eq_ok.1 h
  obtain ⟨⟨r, found⟩, hclauses, h⟩ := except_bind_eq_ok.1 h
  have hresult := identifyClauses_finds p [] (r, found) hclauses
  cases hresult
  exact (Except.ok.inj h).symm

/-- Compiling a text marks the query that the text denotes. -/
theorem eq_marked_of_compile {text : String} {p q : Query} (hparse : ofText text = .ok p)
    (hcompile : compile text = .ok q) : q = p.marked := by
  rw [compile, hparse] at hcompile
  obtain ⟨_, hp, hcompile⟩ := except_bind_eq_ok.1 hcompile
  cases hp
  split at hcompile
  · next r hidentify =>
    cases hcompile
    exact eq_marked_of_identifyAggregates hidentify
  · cases hcompile

end Query

end TableQuery
