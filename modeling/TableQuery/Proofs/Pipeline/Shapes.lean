import TableQuery.Proofs.Pipeline.Carried
import TableQuery.Proofs.Pipeline.Invariants

/-!
# The columns of rows along a pipeline

Where all rows that come to a pipeline have the same columns, so have all rows that come out of it.
Stages pass rows on with the columns they had, the representatives of groups included; only the
selection changes the columns, and it does so in the same way for every row.
-/

namespace TableQuery

open Evaluation

/-- All rows have the columns of these names, in this order. -/
def HaveColumns (names : List String) (rows : List Row) : Prop :=
  ∀ row ∈ rows, row.columns.keys = names

variable {names : List String} {row : Row} {out : List Row} {known later : Patterns}

theorem haveColumns_nil : HaveColumns names [] := List.forall_mem_nil _

theorem haveColumns_singleton : HaveColumns names [row] ↔ row.columns.keys = names :=
  List.forall_mem_singleton

section Selections

namespace Selection

/-- The columns of a row of the result, given those of the row it is made of. Columns with one name
are one column. -/
def namesAfter (names : List String) : Selection → List String
  | all => names
  | columns l => (l.map (·.name)).eraseDups

variable [PatternEngine]

theorem keys_fill {l : List OutputColumn} {before : List String} {result after : Row}
    (hresult : result.columns.keys = before.eraseDups)
    (h : fill row l result known = (.ok after, later)) :
    after.columns.keys = (before ++ l.map (·.name)).eraseDups := by
  induction l generalizing before result known with
  | nil =>
      cases h
      rw [List.map_nil, List.append_nil]
      exact hresult
  | cons c l ih =>
      obtain ⟨v, mid, -, hrest⟩ := bind_eq_ok.1 h
      have hinsert : (result.insert c.name v).columns.keys = (before ++ [c.name]).eraseDups := by
        rw [Row.insert, OrderedMap.keys_insert, hresult, eraseDups_concat]
        simp only [List.mem_eraseDups]
      rw [List.map_cons, List.append_cons]
      exact ih hinsert hrest

theorem keys_project {select : Selection} {after : Row} (hrow : row.columns.keys = names)
    (h : select.project row known = (.ok after, later)) :
    after.columns.keys = select.namesAfter names := by
  cases select with
  | all =>
      cases h
      exact hrow
  | columns l =>
      have hempty : ({} : Row).columns.keys = ([] : List String).eraseDups := rfl
      exact keys_fill hempty h

end Selection

end Selections

section Stages

theorem Grouping.keys_representative {aggregates : List Aggregate} {inputs : List Value}
    (hrow : row.columns.keys = names) {first : Option Row}
    (h : ∀ row ∈ first, row.columns.keys = names) :
    (representative aggregates row inputs first).columns.keys = names := by
  have hfirst : (first.getD (row.withAggregates (initialValues aggregates))).columns.keys =
      names := by
    cases first with
    | none => exact hrow
    | some row => exact h row rfl
  rw [representative]
  split
  · exact hfirst
  · exact hfirst

theorem Sorting.haveColumns_rows {s : Sorting} :
    HaveColumns names s.rows ↔ ∀ entry ∈ s.buffer.toList, entry.2.columns.keys = names := by
  rw [HaveColumns, rows, List.forall_mem_map]
  simp only [List.mem_mergeSort]

namespace Stage

variable {stage after : Stage}

/-- The columns of the rows that a stage passes on, given those of the rows it takes. -/
def namesAfter (names : List String) : Stage → List String
  | project select => select.namesAfter names
  | _ => names

/-- The rows that a stage holds back have these columns. -/
def Holds (names : List String) (stage : Stage) : Prop := HaveColumns names stage.finish.2

theorem Initial.holds (h : stage.Initial) (names : List String) : stage.Holds names := by
  cases h with
  | sort terms => exact Sorting.haveColumns_rows.2 (List.forall_mem_nil _)
  | _ => exact haveColumns_nil

theorem Alike.namesAfter (h : stage.Alike after) (names : List String) :
    after.namesAfter names = stage.namesAfter names := by
  cases h <;> rfl

/-- A stage that takes a row with the columns it should passes on rows with the columns they should
have. -/
theorem Takes.haveColumns [PatternEngine] (htakes : Takes row stage after out)
    (hrow : row.columns.keys = names) (h : stage.Holds names) :
    after.Holds names ∧ HaveColumns (stage.namesAfter names) out := by
  have hpassed : ∀ passes : Bool, HaveColumns names (if passes then [row] else []) := by
    intro passes
    split
    · exact haveColumns_singleton.2 hrow
    · exact haveColumns_nil
  cases htakes with
  | filter => exact ⟨h, hpassed _⟩
  | group g keys inputs =>
      refine ⟨?_, haveColumns_nil⟩
      exact KeyTree.forall_mem_alter (fun _ => Grouping.keys_representative hrow) _ h
  | sort s keys =>
      refine ⟨Sorting.haveColumns_rows.2 ?_, haveColumns_nil⟩
      rw [Array.toList_push, List.forall_mem_append]
      exact ⟨Sorting.haveColumns_rows.1 h, List.forall_mem_singleton.2 hrow⟩
  | pass => exact ⟨h, hpassed true⟩
  | skip => exact ⟨h, haveColumns_nil⟩
  | limit => exact ⟨h, hpassed _⟩
  | project hresult =>
      exact ⟨h, haveColumns_singleton.2 (Selection.keys_project hrow hresult)⟩

theorem haveColumns_finish (h : stage.Holds names) :
    stage.finish.1.Holds names ∧ stage.finish.1.namesAfter names = stage.namesAfter names ∧
      HaveColumns (stage.namesAfter names) stage.finish.2 := by
  cases stage with
  | group g => exact ⟨haveColumns_nil, rfl, h⟩
  | sort s => exact ⟨Sorting.haveColumns_rows.2 (List.forall_mem_nil _), rfl, h⟩
  | _ => exact ⟨h, rfl, haveColumns_nil⟩

end Stage

end Stages

section Pipelines

/-- All rows at a place of a pipeline have the same columns. -/
def sharedColumns : RowInvariant (List String) where
  row names row := row.columns.keys = names
  stage := Stage.Holds
  next := Stage.namesAfter
  error _ := True

theorem kept_sharedColumns [PatternEngine] : sharedColumns.Kept where
  accept hstage hrow h := by
    have htakes := Stage.takes_of_accept h
    obtain ⟨hafter, hout⟩ := htakes.haveColumns hrow hstage
    exact ⟨hafter, htakes.alike.namesAfter _, hout⟩
  fail _ _ _ := trivial
  finish := Stage.haveColumns_finish

end Pipelines

section Queries

theorem last_append (front back : List Stage) :
    sharedColumns.last names (front ++ back) =
      sharedColumns.last (sharedColumns.last names front) back :=
  List.foldl_append

theorem last_clause {α : Type} {o : Option α} {f : α → Stage}
    (h : ∀ a, (f a).namesAfter names = names) :
    sharedColumns.last names (o.map f).toList = names := by
  cases o with
  | none => rfl
  | some a => exact h a

namespace Query

theorem chain_sharedColumns (q : Query) (names : List String) :
    sharedColumns.Chain names q.stages :=
  RowInvariant.chain_of_initial Stage.Initial.holds (fun _ => initial_of_mem_stages) names

/-- Only the selection of a query changes the columns. -/
theorem last_sharedColumns (q : Query) (names : List String) :
    sharedColumns.last names q.stages = q.select.namesAfter names := by
  have hgroup : ∀ g : Grouping, sharedColumns.last names
      (if q.isGrouped then [.group g] else []) = names := by
    intro g
    split <;> rfl
  rw [stages, last_append, last_append, last_append, last_append, last_append, last_append,
    last_clause fun _ => rfl, last_clause fun _ => rfl, last_clause fun _ => rfl,
    last_clause fun _ => rfl, last_clause fun _ => rfl, hgroup]
  rfl

end Query

end Queries

end TableQuery
