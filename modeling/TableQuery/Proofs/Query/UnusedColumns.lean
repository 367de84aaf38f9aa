import TableQuery.Proofs.Pipeline.Columns
import TableQuery.Proofs.Query.WellFormed

/-!
# Columns that a query does not name

A query that selects columns reads no other columns of its source than those that it names. Sources
that differ in other columns only are read alike, and what is written is the same.
-/

namespace TableQuery

namespace Stages

variable {names : List String} {rest : List Stage}

theorem selects_clause_append {α : Type} {o : Option α} {f : α → Stage}
    (h : ∀ a ∈ o, (f a).Passes names) (hrest : Selects names rest) :
    Selects names ((o.map f).toList ++ rest) := by
  cases o with
  | none => exact hrest
  | some a => exact .cons (h a rfl) hrest

end Stages

namespace Query

variable {q : Query}

/-- The names of the columns in the expressions of a query. -/
def columns (q : Query) : List String := (q.inner ++ q.outer).flatMap Expr.columns

/-- Telling aggregates apart changes no names of columns. -/
theorem columns_marked (q : Query) : q.marked.columns = q.columns := by
  rw [columns, columns, outer_marked, List.flatMap_append, List.flatMap_append, List.flatMap_map]
  exact congrArg (_ ++ ·) (List.flatMap_congr fun e _ => e.columns_marked)

theorem columns_subset {e : Expr} (h : e ∈ q.inner ++ q.outer) : e.columns ⊆ q.columns :=
  fun _ hname => List.mem_flatMap.2 ⟨e, h, hname⟩

theorem columns_argument_subset {a : Aggregate} (h : a ∈ q.marked.aggregates) :
    a.argument.columns ⊆ q.marked.columns := by
  have hmem := mem_occurrences_of_mem_aggregates h
  rw [← nodes_marked] at hmem
  obtain ⟨e, he, hnode⟩ := List.mem_flatMap.1 hmem
  exact Expr.columns_argument_subset (columns_subset (List.mem_append_right _ he)) hnode

theorem selects_stages {l : List OutputColumn} (hselect : q.select = .columns l)
    (harguments : ∀ a ∈ q.aggregates, a.argument.columns ⊆ q.columns) :
    Stages.Selects q.columns q.stages := by
  have hnames : ∀ e ∈ q.inner ++ q.outer, e.columns ⊆ q.columns := fun _ => columns_subset
  obtain ⟨hinner, houter⟩ := List.forall_mem_append.1 hnames
  obtain ⟨hcondition, hkeys⟩ := List.forall_mem_append.1 hinner
  rw [outer, List.forall_mem_append, List.forall_mem_append, hselect] at houter
  obtain ⟨hcolumns, hhaving, horder⟩ := houter
  have hrest : Stages.Selects q.columns ((q.having.map (Stage.filter .having)).toList ++
      ((q.orderBy.map fun terms => Stage.sort { terms }).toList ++
      ((q.offset.map Stage.skip).toList ++
      ((q.limit.map fun n => Stage.limit { remaining := n }).toList ++
      [.project q.select])))) := by
    apply Stages.selects_clause_append
    · exact fun e he => List.forall_mem_singleton.2 (hhaving e (Option.mem_toList.2 he))
    apply Stages.selects_clause_append
    · intro terms hterms
      rw [hterms] at horder
      exact horder
    apply Stages.selects_clause_append
    · exact fun _ _ => List.forall_mem_nil _
    apply Stages.selects_clause_append
    · exact fun _ _ => List.forall_mem_nil _
    rw [hselect]
    exact .last (List.forall_mem_map.1 hcolumns)
  simp only [stages, List.append_assoc]
  apply Stages.selects_clause_append
  · exact fun e he => List.forall_mem_singleton.2 (hcondition e (Option.mem_toList.2 he))
  split
  · refine .cons ?_ hrest
    exact List.forall_mem_append.2 ⟨hkeys, List.forall_mem_map.2 harguments⟩
  · exact hrest

/-- Before the first row a pipeline holds no rows to cut down. -/
theorem keep_ofQuery (names : List String) (q : Query) :
    (Pipeline.ofQuery q).keep names = Pipeline.ofQuery q := by
  have hstages : q.stages.map (Stage.keep names) = q.stages.map id :=
    List.map_congr_left fun stage hmem => by
      cases initial_of_mem_stages hmem with
      | sort terms => simp [Stage.keep, Sorting.keep]
      | _ => rfl
  rw [List.map_id] at hstages
  exact congrArg (Pipeline.mk · ∅) hstages

end Query

/-- Items of a source that are the same error, or rows that agree on some columns. -/
inductive ItemsAgree (names : List String) : Except Error Row → Except Error Row → Prop where
  | error (e : Error) : ItemsAgree names (.error e) (.error e)
  | ok {row other : Row} (h : row.AgreesOn names other) : ItemsAgree names (.ok row) (.ok other)

theorem ItemsAgree.keep_eq {names : List String} {item other : Except Error Row}
    (h : ItemsAgree names item other) :
    item.map (Row.keep names) = other.map (Row.keep names) := by
  cases h with
  | error e => rfl
  | ok h => exact congrArg Except.ok h.keep_eq

namespace Query

/-- A text that compiles denotes a query. Unless this query selects all columns, a run over other
rows, which agree with those of the source on the columns that the query names and have whatever
other columns, takes as many items, has the same result and writes the same. -/
theorem run_of_unused_columns [PatternEngine] {text : String} {q : Query}
    (hcompile : compile text = .ok q) (hselect : q.select ≠ .all) :
    ∃ p, ofText text = .ok p ∧
      ∀ {σ : Type} (sink : Sink σ) (s : σ) (source other : List (Except Error Row)),
        List.Forall₂ (ItemsAgree p.columns) source other →
          q.run other sink s = q.run source sink s := by
  obtain ⟨p, hparse, -⟩ := except_bind_eq_ok.1 hcompile
  refine ⟨p, hparse, fun sink s source other hitems => ?_⟩
  have hq := eq_marked_of_compile hparse hcompile
  obtain ⟨l, hl⟩ : ∃ l, q.select = .columns l := by
    cases h : q.select with
    | all => exact absurd h hselect
    | columns l => exact ⟨l, rfl⟩
  have hselects : Stages.Selects p.columns (Pipeline.ofQuery q).stages := by
    subst hq
    rw [← columns_marked]
    exact selects_stages hl fun _ => columns_argument_subset
  have hcut : source.map (Except.map (Row.keep p.columns)) =
      other.map (Except.map (Row.keep p.columns)) := by
    induction hitems with
    | nil => rfl
    | cons hitem _ ih => rw [List.map_cons, List.map_cons, hitem.keep_eq, ih]
  have hrun : ∀ items, q.run (items.map (Except.map (Row.keep p.columns))) sink s =
      q.run items sink s := by
    intro items
    have hkeep := Pipeline.run_keep sink hselects items s
    rwa [keep_ofQuery] at hkeep
  rw [← hrun, ← hcut, hrun]

/-- The column `note` is left out of the first row and changed in the second one, and the third item
is the same error. -/
theorem run_of_unused_columns_note :
    let text := "SELECT SUM(v) FROM 't' GROUP BY g"
    let row (g v : String) : Row := .ofList [("g", .text g), ("v", .text v)]
    let noted (g v note : String) : Row := (row g v).insert "note" (.text note)
    let source : List (Except Error Row) := [.ok (noted "a" "1" "x"), .ok (noted "b" "2" "y"),
      .error (.columnNotFound "g")]
    let other : List (Except Error Row) := [.ok (row "a" "1"), .ok (noted "b" "2" "z"),
      .error (.columnNotFound "g")]
    ∃ q p, compile text = .ok q ∧ q.select ≠ .all ∧ ofText text = .ok p ∧
      p.columns = ["g", "v"] ∧ List.Forall₂ (ItemsAgree p.columns) source other ∧
      q.run other Sink.rows #[] = q.run source Sink.rows #[] := by
  intro text row noted source other
  let p : Query := {
    select := .columns [⟨.call "SUM" [.identifier "v"], "SUM(v)"⟩]
    source := "t"
    groupBy := some [.identifier "g"] }
  have htokens : Token.ofText text = .ok
      [.keyword "SELECT", .identifier "SUM", ⟨.openParenthesis, "(", none⟩, .identifier "v",
        ⟨.closeParenthesis, ")", none⟩, .keyword "FROM", ⟨.string, "'t'", some (.text "t")⟩,
        .keyword "GROUP", .keyword "BY", .identifier "g"] := by
    decide +kernel
  have hparse : ofText text = .ok p := by
    rw [ofText, htokens]
    rfl
  have hcompile : compile text = .ok p.marked := by
    have hidentify : p.identifyAggregates = .ok p.marked := rfl
    refine except_bind_eq_ok.2 ⟨p, hparse, ?_⟩
    rw [hidentify]
  have hselect : p.marked.select ≠ .all := fun h => by cases h
  have hcolumns : p.columns = ["g", "v"] := rfl
  have hitems : List.Forall₂ (ItemsAgree p.columns) source other := by
    rw [hcolumns]
    exact .cons (.ok ⟨by decide, rfl⟩) (.cons (.ok ⟨by decide, rfl⟩) (.cons (.error _) .nil))
  obtain ⟨parsed, hparsed, hrun⟩ := run_of_unused_columns hcompile hselect
  rw [hparse] at hparsed
  cases hparsed
  exact ⟨p.marked, p, hcompile, hselect, hparse, hcolumns, hitems,
    hrun Sink.rows #[] source other hitems⟩

end Query

end TableQuery
