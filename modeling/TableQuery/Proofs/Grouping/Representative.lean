import TableQuery.Proofs.Pipeline.Clauses

/-! # Representatives of groups

The rows of a group are taken in one after another, and the representative is brought up to date
each time. In the end it is the first row, and it carries for every aggregate its function folded
over its argument on all rows of the group. -/

namespace TableQuery.Grouping

open KeyTree

section Folding

variable {f : AggregateValues → Aggregate → AggregateValues}
  {g : Aggregate → Option Value → Option Value}
  (hf : ∀ values a id, (f values a).get? id =
    if id = a.id then g a (values.get? id) else values.get? id)

include hf

theorem get?_foldl_of_not_mem {aggregates : List Aggregate} {id : AggregateId}
    (h : id ∉ aggregates.map Aggregate.id) (values : AggregateValues) :
    (aggregates.foldl f values).get? id = values.get? id := by
  induction aggregates generalizing values with
  | nil => rfl
  | cons a aggregates ih =>
      rw [List.map_cons, List.mem_cons, not_or] at h
      rw [List.foldl_cons, ih h.2, hf, if_neg h.1]

/-- A pass over aggregates with distinct identities changes the value of each one once. -/
theorem get?_foldl {aggregates : List Aggregate} {a : Aggregate}
    (hids : (aggregates.map Aggregate.id).Nodup) (ha : a ∈ aggregates)
    (values : AggregateValues) :
    (aggregates.foldl f values).get? a.id = g a (values.get? a.id) := by
  induction aggregates generalizing values with
  | nil => simp at ha
  | cons b aggregates ih =>
      obtain ⟨hb, hids⟩ := List.nodup_cons.1 hids
      rw [List.foldl_cons]
      rcases List.mem_cons.1 ha with rfl | ha
      · rw [get?_foldl_of_not_mem hf hb, hf, if_pos rfl]
      · have hne : a.id ≠ b.id := by
          intro h
          exact hb (h ▸ List.mem_map_of_mem ha)
        rw [ih hids ha, hf, if_neg hne]

end Folding

theorem get?_accumulate (values : AggregateValues) (a : Aggregate) (v : Value)
    (id : AggregateId) :
    (accumulate values a v).get? id =
      if id = a.id then (values.get? id).map (a.function.reduce · v) else values.get? id := by
  rw [accumulate]
  by_cases hid : id = a.id
  · subst hid
    cases h : values.get? a.id with
    | none => simp [h]
    | some acc => simp
  · cases h : values.get? a.id with
    | none => rw [if_neg hid]
    | some acc => simp [hid]

theorem get?_initialValues {aggregates : List Aggregate} {a : Aggregate}
    (hids : (aggregates.map Aggregate.id).Nodup) (ha : a ∈ aggregates) :
    (initialValues aggregates).get? a.id = some a.function.initial := by
  rw [initialValues, OrderedMap.ofList, List.foldl_map]
  exact get?_foldl (g := fun a _ => some a.function.initial)
    (fun values a id => OrderedMap.get?_insert values a.id id _) hids ha ∅

/-- The values of aggregates after one more row, given the value of each argument on it. -/
def accumulateRow (aggregates : List Aggregate) (argument : Aggregate → Value)
    (values : AggregateValues) : AggregateValues :=
  aggregates.foldl (fun values a => accumulate values a (argument a)) values

theorem accumulateAll_zip (aggregates : List Aggregate) (argument : Aggregate → Value)
    (values : AggregateValues) :
    accumulateAll values (aggregates.zip (aggregates.map argument)) =
      accumulateRow aggregates argument values := by
  induction aggregates generalizing values with
  | nil => rfl
  | cons a aggregates ih => exact ih (accumulate values a (argument a))

/-- Over several rows each aggregate folds its function. -/
theorem get?_foldl_accumulateRow {α : Type} {aggregates : List Aggregate} {a : Aggregate}
    (hids : (aggregates.map Aggregate.id).Nodup) (ha : a ∈ aggregates)
    (argument : α → Aggregate → Value) (rows : List α) (values : AggregateValues) :
    (rows.foldl (fun values row => accumulateRow aggregates (argument row) values) values).get?
        a.id =
      (values.get? a.id).map fun acc =>
        rows.foldl (fun acc row => a.function.reduce acc (argument row a)) acc := by
  induction rows generalizing values with
  | nil => simp
  | cons row rows ih =>
      have hrow : (accumulateRow aggregates (argument row) values).get? a.id =
          (values.get? a.id).map (a.function.reduce · (argument row a)) :=
        get?_foldl (g := fun a => Option.map (a.function.reduce · (argument row a)))
          (fun values a => get?_accumulate values a _) hids ha values
      rw [List.foldl_cons, ih, hrow, Option.map_map]
      rfl

/-- The updates of a group whose first row is new make it the representative. -/
theorem settle_representative (aggregates : List Aggregate) (argument : Row → Aggregate → Value)
    (first : Row) (rest : List Row) :
    settle ((first :: rest).map fun row =>
        representative aggregates row (aggregates.map (argument row))) =
      some (first.withAggregates ((first :: rest).foldl
        (fun values row => accumulateRow aggregates (argument row) values)
        (initialValues aggregates))) := by
  have hstep : ∀ (rows : List Row) (values : AggregateValues),
      (rows.map fun row => representative aggregates row (aggregates.map (argument row))).foldl
          (fun value f => some (f value)) (some (first.withAggregates values)) =
        some (first.withAggregates (rows.foldl
          (fun values row => accumulateRow aggregates (argument row) values) values)) := by
    intro rows
    induction rows with
    | nil => exact fun _ => rfl
    | cons row rows ih =>
        intro values
        rw [List.map_cons, List.foldl_cons, List.foldl_cons, ← ih]
        simp only [representative, Option.getD_some, Row.withAggregates, accumulateAll_zip]
  rw [List.map_cons, settle, List.foldl_cons, List.foldl_cons, ← hstep]
  simp only [representative, Option.getD_none, Row.withAggregates, accumulateAll_zip]

end TableQuery.Grouping
