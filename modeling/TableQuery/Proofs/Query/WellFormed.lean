import TableQuery.Proofs.Expr.Identification
import TableQuery.Proofs.Expr.Marking
import TableQuery.Proofs.Query.Identification
import TableQuery.Proofs.Query.Written

/-! # Queries with their aggregates told apart

For a query as written, telling aggregates apart succeeds exactly if none is misplaced or misused.
The distinct aggregates are then listed in the order in which they first occur, no call of an
aggregate function is left, and the query as written can be had back. -/

namespace TableQuery

open Collecting

namespace Aggregate

theorem addAll_concat (found l : List Aggregate) (a : Aggregate) :
    addAll found (l ++ [a]) = addTo (addAll found l) a :=
  addAll_append found l [a]

/-- The identities found are the distinct ones, in the order in which they first occur. -/
theorem ids_addAll (l : List Aggregate) :
    (addAll [] l).map (·.id) = (l.map (·.id)).eraseDups := by
  induction l using List.reverseRecOn with
  | nil => rfl
  | append_singleton l a ih =>
      have hknown : (addAll [] l).any (·.id = a.id) = true ↔ a.id ∈ l.map (·.id) := by
        rw [← List.mem_eraseDups, ← ih]
        simp
      rw [addAll_concat, addTo, List.map_append, List.map_singleton, eraseDups_concat, ← ih]
      by_cases hid : a.id ∈ l.map (·.id)
      · rw [if_pos (hknown.2 hid), if_pos hid]
      · rw [if_neg (mt hknown.1 hid), if_neg hid, List.map_append, List.map_singleton]

/-- An aggregate that is found is the first one with its identity. -/
theorem find?_addAll {l : List Aggregate} {b : Aggregate} (h : b ∈ addAll [] l) :
    l.find? (·.id = b.id) = some b := by
  induction l using List.reverseRecOn with
  | nil => cases h
  | append_singleton l a ih =>
      rw [addAll_concat, addTo] at h
      rw [List.find?_append]
      split at h
      · rw [ih h, Option.some_or]
      · next hnew =>
        rcases List.mem_append.1 h with hold | hlast
        · rw [ih hold, Option.some_or]
        · obtain rfl := List.mem_singleton.1 hlast
          have hnone : l.find? (·.id = b.id) = none := by
            rw [List.find?_eq_none]
            intro c hc hid
            obtain ⟨d, hd, hsame⟩ := exists_id_mem_addAll [] hc
            have hfound : (addAll [] l).any (·.id = b.id) = true :=
              List.any_eq_true.2 ⟨d, hd, by simpa [hsame] using hid⟩
            exact hnew hfound
          rw [hnone, Option.none_or]
          simp

end Aggregate

/-- The selection with `f` applied to its expressions. -/
def Selection.mapExprs (f : Expr → Expr) : Selection → Selection
  | all => all
  | columns l => columns (l.map fun c => { c with expr := f c.expr })

/-- The ordering term with `f` applied to its expression. -/
def OrderingTerm.mapExpr (f : Expr → Expr) (t : OrderingTerm) : OrderingTerm :=
  { t with expr := f t.expr }

theorem Selection.exprs_marked (select : Selection) :
    select.marked.exprs = select.exprs.map Expr.marked := by
  cases select with
  | all => rfl
  | columns l =>
      rw [marked, exprs, exprs, List.map_map, List.map_map]
      rfl

theorem Selection.marked_marked (select : Selection) : select.marked.marked = select.marked := by
  cases select with
  | all => rfl
  | columns l =>
      simp only [marked, List.map_map, Function.comp_def, Expr.marked_marked]

theorem OrderingTerm.marked_marked (t : OrderingTerm) : t.marked.marked = t.marked := by
  rw [marked, marked, Expr.marked_marked]

theorem Selection.mapExprs_restored_marked {select : Selection}
    (h : ∀ e ∈ select.exprs, e.Written) : select.marked.mapExprs Expr.restored = select := by
  cases select with
  | all => rfl
  | columns l =>
      rw [exprs, List.forall_mem_map] at h
      have hsame : (l.map fun c => { c with expr := c.expr.marked.restored }) = l.map id :=
        List.map_congr_left fun c hc => by rw [Expr.restored_marked (h c hc), id]
      rw [List.map_id] at hsame
      calc (columns l).marked.mapExprs Expr.restored
          = columns (l.map fun c => { c with expr := c.expr.marked.restored }) := by
            rw [marked, mapExprs, List.map_map]
            rfl
        _ = columns l := by rw [hsame]

namespace Query

/-- The aggregates in the expressions of a query that may use them, from left to right. -/
def nodes (q : Query) : List Aggregate := q.outer.flatMap Expr.nodes

/-- The query with its aggregates made calls of their functions again, and none collected. -/
def restored (q : Query) : Query :=
  { q with
    select := q.select.mapExprs Expr.restored
    condition := q.condition.map Expr.restored
    groupBy := q.groupBy.map (List.map Expr.restored)
    having := q.having.map Expr.restored
    orderBy := q.orderBy.map (List.map (OrderingTerm.mapExpr Expr.restored))
    aggregates := [] }

theorem outer_marked (q : Query) : q.marked.outer = q.outer.map Expr.marked := by
  have horder : (q.marked.orderBy.getD []).map (·.expr) =
      ((q.orderBy.getD []).map (·.expr)).map Expr.marked := by
    rw [marked]
    cases q.orderBy with
    | none => rfl
    | some l =>
        change (l.map OrderingTerm.marked).map (·.expr) = (l.map (·.expr)).map Expr.marked
        rw [List.map_map, List.map_map]
        rfl
  rw [outer, outer, List.map_append, List.map_append, horder]
  congr 1
  · exact q.select.exprs_marked
  · congr 1
    exact Option.toList_map

theorem nodes_marked (q : Query) : q.marked.nodes = q.occurrences := by
  rw [nodes, occurrences, outer_marked, List.flatMap_map]
  exact List.flatMap_congr fun e _ => e.nodes_marked

theorem mem_occurrences_of_mem_aggregates {q : Query} {a : Aggregate}
    (h : a ∈ q.marked.aggregates) : a ∈ q.occurrences :=
  (Aggregate.mem_addAll h).resolve_left List.not_mem_nil

section Success

theorem refuseAggregates_eq_ok {clause : String} {l : List Expr} {u : Unit} :
    refuseAggregates clause l = .ok u ↔ ∀ e ∈ l, e.hasAggregate = false := by
  rw [refuseAggregates, Expr.hasAggregateAll_eq]
  by_cases h : l.any Expr.hasAggregate = true
  · rw [if_pos h]
    apply iff_of_false
    · intro herror
      cases herror
    · intro hnone
      obtain ⟨e, he, hhas⟩ := List.any_eq_true.1 h
      rw [hnone e he] at hhas
      cases hhas
  · rw [if_neg h]
    rw [Bool.not_eq_true, List.any_eq_false] at h
    exact iff_of_true rfl fun e he => Bool.eq_false_iff.2 (h e he)

theorem identifySelection_succeeds (select : Selection) :
    (identifySelection select).SucceedsIff (∀ e ∈ select.exprs, e.WellUsed) := by
  cases select with
  | all => exact (SucceedsIff.pure _).congr (by simp [Selection.exprs])
  | columns l =>
      rw [Selection.exprs, List.forall_mem_map]
      apply SucceedsIff.map
      refine SucceedsIff.mapM (fun c => c.expr.identify_finds.bind_pure _) fun c _ => ?_
      exact c.expr.identify_succeeds.bind_pure _

theorem identifyOrdering_succeeds (orderBy : Option (List OrderingTerm)) :
    (identifyOrdering orderBy).SucceedsIff
      (∀ e ∈ (orderBy.getD []).map (·.expr), e.WellUsed) := by
  rw [List.forall_mem_map]
  cases orderBy with
  | none => exact (SucceedsIff.pure _).congr (by simp)
  | some l =>
      apply SucceedsIff.map
      refine SucceedsIff.mapM (fun t => t.expr.identify_finds.bind_pure _) fun t _ => ?_
      exact t.expr.identify_succeeds.bind_pure _

theorem identifyClauses_succeeds (q : Query) :
    q.identifyClauses.SucceedsIff (∀ e ∈ q.outer, e.WellUsed) := by
  rw [outer, List.forall_mem_append, List.forall_mem_append]
  have hhaving := Expr.identifyOption_succeeds fun e (_ : e ∈ q.having) => e.identify_succeeds
  simp only [Option.mem_toList]
  refine (identifySelection_succeeds q.select).bind (identifySelection_finds q.select) ?_
  refine hhaving.bind (identifyHaving_finds q.having) ?_
  exact (identifyOrdering_succeeds q.orderBy).bind_pure _

/-- Telling the aggregates of a query apart succeeds exactly if none is misplaced or misused. -/
theorem identifyAggregates_succeeds (q : Query) :
    (∃ r, q.identifyAggregates = .ok r) ↔
      (∀ e ∈ q.inner, ¬e.UsesAggregate) ∧ ∀ e ∈ q.outer, e.WellUsed := by
  rw [inner, List.forall_mem_append]
  simp only [← Expr.hasAggregate_eq_false_iff]
  rw [← identifyClauses_succeeds q []]
  constructor
  · rintro ⟨r, hr⟩
    obtain ⟨_, hcondition, hr⟩ := except_bind_eq_ok.1 hr
    obtain ⟨_, hkeys, hr⟩ := except_bind_eq_ok.1 hr
    obtain ⟨result, hresult, -⟩ := except_bind_eq_ok.1 hr
    exact ⟨⟨refuseAggregates_eq_ok.1 hcondition, refuseAggregates_eq_ok.1 hkeys⟩, result, hresult⟩
  · rintro ⟨⟨hcondition, hkeys⟩, result, hresult⟩
    refine ⟨{ result.1 with aggregates := result.2 }, ?_⟩
    refine except_bind_eq_ok.2 ⟨(), refuseAggregates_eq_ok.2 hcondition, ?_⟩
    refine except_bind_eq_ok.2 ⟨(), refuseAggregates_eq_ok.2 hkeys, ?_⟩
    exact except_bind_eq_ok.2 ⟨result, hresult, rfl⟩

end Success

section Restored

/-- Telling the aggregates of a query as written apart can be undone. -/
theorem restored_marked {q : Query} (h : ∀ e ∈ q.inner ++ q.outer, e.Written)
    (hnone : q.aggregates = []) : q.marked.restored = q := by
  rw [inner, outer] at h
  simp only [List.forall_mem_append, List.forall_mem_map, Option.mem_toList] at h
  obtain ⟨⟨hcondition, hkeys⟩, hselect, hhaving, horder⟩ := h
  have hc : q.condition.map Expr.restored = q.condition.map id :=
    Option.map_congr fun e he => Expr.restored_of_written (hcondition e he)
  have hg : q.groupBy.map (List.map Expr.restored) = q.groupBy.map id := by
    refine Option.map_congr fun l hl => ?_
    rw [hl] at hkeys
    calc l.map Expr.restored = l.map id :=
          List.map_congr_left fun e he => Expr.restored_of_written (hkeys e he)
      _ = id l := List.map_id l
  have hh : q.having.map (Expr.restored ∘ Expr.marked) = q.having.map id :=
    Option.map_congr fun e he => Expr.restored_marked (hhaving e he)
  have ho : q.orderBy.map (List.map (OrderingTerm.mapExpr Expr.restored) ∘
      List.map OrderingTerm.marked) = q.orderBy.map id := by
    refine Option.map_congr fun l hl => ?_
    rw [hl] at horder
    have hterm : ∀ t ∈ l, t.marked.mapExpr Expr.restored = id t := by
      intro t ht
      rw [OrderingTerm.mapExpr, OrderingTerm.marked, Expr.restored_marked (horder t ht), id]
    calc (l.map OrderingTerm.marked).map (OrderingTerm.mapExpr Expr.restored)
        = l.map fun t => t.marked.mapExpr Expr.restored := List.map_map
      _ = l.map id := List.map_congr_left hterm
      _ = id l := List.map_id l
  simp only [Option.map_id_fun, id] at hc hg hh ho
  simp only [restored, marked, Option.map_map, Selection.mapExprs_restored_marked hselect, hc, hg,
    hh, ho, ← hnone]

theorem marked_marked (q : Query) : q.marked.marked = q.marked := by
  have hoccurrences : q.marked.occurrences = q.occurrences := by
    rw [occurrences, occurrences, outer_marked, List.flatMap_map]
    refine List.flatMap_congr fun e _ => ?_
    calc e.marked.aggregates = e.marked.marked.nodes := e.marked.nodes_marked.symm
      _ = e.marked.nodes := by rw [e.marked_marked]
      _ = e.aggregates := e.nodes_marked
  have hh : q.having.map (Expr.marked ∘ Expr.marked) = q.having.map Expr.marked :=
    Option.map_congr fun e _ => e.marked_marked
  have ho : q.orderBy.map (List.map OrderingTerm.marked ∘ List.map OrderingTerm.marked) =
      q.orderBy.map (List.map OrderingTerm.marked) := by
    refine Option.map_congr fun l _ => ?_
    calc (l.map OrderingTerm.marked).map OrderingTerm.marked
        = l.map fun t => t.marked.marked := List.map_map
      _ = l.map OrderingTerm.marked := List.map_congr_left fun t _ => t.marked_marked
  rw [marked, hoccurrences]
  simp only [marked, Option.map_map, hh, ho, Selection.marked_marked]

theorem callNames_argument {P : String → Prop} {e : Expr} (h : ∀ name ∈ e.callNames, P name)
    {a : Aggregate} (ha : a ∈ e.nodes) : ∀ name ∈ a.argument.callNames, P name := by
  obtain ⟨s, hs, hvalue⟩ := List.mem_filterMap.1 ha
  have hcalls := (Expr.forall_callNames_iff P).1 h s hs
  cases s with
  | aggregate function argument id =>
      cases hvalue
      exact hcalls
  | _ => cases hvalue

/-- In a query with its aggregates told apart no aggregate function is called. -/
theorem callNames_marked {q : Query} (h : ∀ e ∈ q.inner ++ q.outer, e.Written)
    (hinner : ∀ e ∈ q.inner, ¬e.UsesAggregate) (houter : ∀ e ∈ q.outer, e.WellUsed) :
    ∀ e ∈ q.marked.inner ++ q.marked.outer ++ q.marked.aggregates.map (·.argument),
      ∀ name ∈ e.callNames, AggregateFunction.ofName? name = none := by
  rw [List.forall_mem_append] at h
  have hmarked : ∀ e ∈ q.marked.outer, ∀ name ∈ e.callNames,
      AggregateFunction.ofName? name = none := by
    rw [outer_marked, List.forall_mem_map]
    exact fun e he => Expr.callNames_marked (h.2 e he) (houter e he)
  rw [List.forall_mem_append, List.forall_mem_append, List.forall_mem_map]
  refine ⟨⟨?_, hmarked⟩, ?_⟩
  · exact fun e he => Expr.callNames_of_not_usesAggregate (hinner e he)
  · intro a ha
    have hmem := mem_occurrences_of_mem_aggregates ha
    rw [← nodes_marked] at hmem
    obtain ⟨e, he, hnode⟩ := List.mem_flatMap.1 hmem
    exact callNames_argument (hmarked e he) hnode

/-- Telling the aggregates of a query as written apart succeeds exactly if no aggregate occurs in
the clauses that are evaluated row by row and every call of an aggregate function in the others
has one argument, without an aggregate in it.

The aggregates are then listed without repetition, in the order in which their identities first
occur, each as it first occurs. They stand for calls of aggregate functions, of which none is
left, and putting these calls back gives back the query. So no text of an expression is changed,
and there is nothing to tell apart a second time. -/
theorem identifyAggregates_wellFormed {text : String} {q : Query} (h : ofText text = .ok q) :
    ((∃ r, q.identifyAggregates = .ok r) ↔
        (∀ e ∈ q.inner, ¬e.UsesAggregate) ∧ ∀ e ∈ q.outer, e.WellUsed) ∧
      ∀ r, q.identifyAggregates = .ok r →
        (r.aggregates.map (·.id)).Nodup ∧
        r.aggregates.map (·.id) = (r.nodes.map (·.id)).eraseDups ∧
        (∀ a ∈ r.aggregates, r.nodes.find? (·.id = a.id) = some a) ∧
        (∀ a ∈ r.nodes, a = .ofCall a.function a.argument) ∧
        (∀ e ∈ r.inner ++ r.outer ++ r.aggregates.map (·.argument), ∀ name ∈ e.callNames,
          AggregateFunction.ofName? name = none) ∧
        r.restored = q ∧
        (r.inner ++ r.outer).map Expr.text = (q.inner ++ q.outer).map Expr.text ∧
        r.identifyAggregates = .ok r := by
  obtain ⟨hwritten, hnone⟩ := written_of_ofText h
  have hsucceeds := identifyAggregates_succeeds q
  refine ⟨hsucceeds, fun r hr => ?_⟩
  obtain ⟨hinner, houter⟩ := hsucceeds.1 ⟨r, hr⟩
  obtain rfl := eq_marked_of_identifyAggregates hr
  have hcalls := callNames_marked hwritten hinner houter
  have hnodes : q.marked.nodes = q.occurrences := nodes_marked q
  refine ⟨?_, ?_, ?_, ?_, hcalls, restored_marked hwritten hnone, ?_, ?_⟩
  · apply Aggregate.nodup_addAll
    exact List.nodup_nil
  · rw [hnodes]
    exact Aggregate.ids_addAll q.occurrences
  · rw [hnodes]
    exact fun a ha => Aggregate.find?_addAll ha
  · rw [hnodes]
    intro a ha
    obtain ⟨e, he, hmem⟩ := List.mem_flatMap.1 ha
    exact (Expr.ofCall_of_mem_aggregates (hwritten e (List.mem_append_right _ he)) a hmem).2
  · have houterText : (q.outer.map Expr.marked).map Expr.text = q.outer.map Expr.text := by
      rw [List.map_map]
      exact List.map_congr_left fun e he =>
        Expr.text_marked (hwritten e (List.mem_append_right _ he))
    rw [List.map_append, List.map_append, outer_marked, houterText]
    rfl
  · simp only [List.forall_mem_append] at hcalls
    have hagain : ∃ r, q.marked.identifyAggregates = .ok r :=
      (identifyAggregates_succeeds q.marked).2
        ⟨hinner, fun e he => Expr.wellUsed_of_callNames (hcalls.1.2 e he)⟩
    obtain ⟨r, hr'⟩ := hagain
    have hsame : r = q.marked := (eq_marked_of_identifyAggregates hr').trans (marked_marked q)
    rw [hr', hsame]

/-- A sum that is selected and ordered by is one aggregate. -/
theorem identifyAggregates_wellFormed_shared_sum :
    let text := "SELECT SUM(v) FROM 't' GROUP BY g ORDER BY SUM(v)"
    let sum := Aggregate.ofCall .sum (.identifier "v")
    ∃ q r, ofText text = .ok q ∧ q.identifyAggregates = .ok r ∧ r.nodes = [sum, sum] ∧
      r.aggregates.map (·.id) = [sum.id] ∧ r.restored = q ∧ r.identifyAggregates = .ok r := by
  intro text sum
  let q : Query := {
    select := .columns [⟨.call "SUM" [.identifier "v"], "SUM(v)"⟩]
    source := "t"
    groupBy := some [.identifier "g"]
    orderBy := some [⟨.call "SUM" [.identifier "v"], .ascending⟩] }
  have htokens : Token.ofText text = .ok
      [.keyword "SELECT", .identifier "SUM", ⟨.openParenthesis, "(", none⟩, .identifier "v",
        ⟨.closeParenthesis, ")", none⟩, .keyword "FROM", ⟨.string, "'t'", some (.text "t")⟩,
        .keyword "GROUP", .keyword "BY", .identifier "g", .keyword "ORDER", .keyword "BY",
        .identifier "SUM", ⟨.openParenthesis, "(", none⟩, .identifier "v",
        ⟨.closeParenthesis, ")", none⟩] := by
    decide +kernel
  have hparse : ofText text = .ok q := by
    rw [ofText, htokens]
    rfl
  obtain ⟨hsucceeds, hresult⟩ := identifyAggregates_wellFormed hparse
  have hinner : ∀ e ∈ q.inner, ¬e.UsesAggregate := by
    have hkeys : q.inner = [.identifier "g"] := rfl
    simp [hkeys, Expr.UsesAggregate, Expr.parts, Expr.IsAggregate]
  have houter : ∀ e ∈ q.outer, e.WellUsed := by
    have hsums : q.outer = [.call "SUM" [.identifier "v"], .call "SUM" [.identifier "v"]] := rfl
    have hargument : ¬(Expr.identifier "v").UsesAggregate := by
      simp [Expr.UsesAggregate, Expr.parts, Expr.IsAggregate]
    simp [hsums, Expr.WellUsed, Expr.parts, Expr.partsAll, Expr.IsWellUsed, hargument]
  obtain ⟨r, hr⟩ := hsucceeds.2 ⟨hinner, houter⟩
  obtain ⟨-, hids, -, -, -, hrestored, -, hagain⟩ := hresult r hr
  have hnodes : r.nodes = [sum, sum] := by
    rw [eq_marked_of_identifyAggregates hr, nodes_marked]
    rfl
  refine ⟨q, r, hparse, hr, hnodes, ?_, hrestored, hagain⟩
  rw [hids, hnodes]
  simp [List.eraseDups_cons]

end Restored

end Query

end TableQuery
