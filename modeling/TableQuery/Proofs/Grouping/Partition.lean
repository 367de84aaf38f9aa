import TableQuery.Proofs.Expr.Resolution
import TableQuery.Proofs.Expr.Spelling
import TableQuery.Proofs.Grouping.Representative

/-! # Groups and their representatives

The groups of rows by keys are a partition: every row is in the group of its texts. A grouping
that has taken the rows in passes on the representatives of these groups, in their order. -/

namespace TableQuery

variable [PatternEngine]

namespace Expr

/-- The texts of keys on a row, which has them. -/
def textsOf (keys : List Expr) (row : Row) : List String := answerOr [] (texts keys row)

theorem length_texts {keys : List Expr} {row : Row} {l : List String}
    (h : texts keys row = .ok l) : l.length = keys.length := by
  obtain ⟨values, hvalues, rfl⟩ := except_map_eq_ok.1 h
  rw [List.length_map, length_of_mapM_eq_ok hvalues]

end Expr

namespace Group

open KeyTree

theorem ofKeys_eq_ok {keys : List Expr} {rows : List Row} {groups : List Group}
    (h : ofKeys keys rows = .ok groups) :
    (∀ row ∈ rows, Expr.texts keys row = .ok (Expr.textsOf keys row)) ∧
      groups = (depthFirst keys.length (rows.map (Expr.textsOf keys))).filterMap fun texts =>
        ofRows? (rows.filter fun row => Expr.textsOf keys row = texts) := by
  obtain ⟨keyed, hkeyed, h⟩ := except_bind_eq_ok.1 h
  have htexts : ∀ row ∈ rows, Expr.texts keys row = .ok (Expr.textsOf keys row) := by
    intro row hrow
    obtain ⟨pair, hpair⟩ := ok_of_mapM_eq_ok hkeyed hrow
    obtain ⟨l, hl, -⟩ := except_map_eq_ok.1 hpair
    exact eq_ok_answerOr [] ⟨l, hl⟩
  refine ⟨htexts, ?_⟩
  have hmap : rows.mapM (fun row => (·, row) <$> Expr.texts keys row) =
      .ok (rows.map fun row => (Expr.textsOf keys row, row)) := by
    apply mapM_eq_ok_map
    intro row hrow
    rw [htexts row hrow]
    rfl
  rw [hmap] at hkeyed
  cases hkeyed
  cases h
  simp only [List.map_map, List.filter_map, Function.comp_def, List.map_id']

/-- Every row is in a group. -/
theorem exists_mem_of_ofKeys {keys : List Expr} {rows : List Row} {groups : List Group}
    (h : ofKeys keys rows = .ok groups) {row : Row} (hrow : row ∈ rows) :
    ∃ g ∈ groups, row ∈ g.rows := by
  obtain ⟨htexts, rfl⟩ := ofKeys_eq_ok h
  have hlengths : ∀ path ∈ rows.map (Expr.textsOf keys), path.length = keys.length := by
    intro path hpath
    obtain ⟨other, hother, rfl⟩ := List.mem_map.1 hpath
    exact Expr.length_texts (htexts other hother)
  have hmem : row ∈ rows.filter fun other => Expr.textsOf keys other = Expr.textsOf keys row :=
    List.mem_filter.2 ⟨hrow, by simp⟩
  cases hmembers : rows.filter fun other => Expr.textsOf keys other = Expr.textsOf keys row with
  | nil =>
      rw [hmembers] at hmem
      simp at hmem
  | cons first rest =>
      refine ⟨⟨first, rest⟩, List.mem_filterMap.2 ⟨Expr.textsOf keys row, ?_, ?_⟩, ?_⟩
      · exact (mem_depthFirst hlengths _).2 (List.mem_map_of_mem hrow)
      · rw [hmembers]
        rfl
      · change row ∈ first :: rest
        rw [← hmembers]
        exact hmem

/-- The value of an argument on a row, which has one. -/
def argument (row : Row) (a : Aggregate) : Value := answerOr .null (a.argument.value row)

/-- The row that stands for a group: the first one, with the values of aggregates. -/
def representative (aggregates : List Aggregate) (g : Group) : Row :=
  g.first.withAggregates (g.rows.foldl
    (fun values row => Grouping.accumulateRow aggregates (argument row) values)
    (Grouping.initialValues aggregates))

theorem argument_of_value {rows : List Row} {a : Aggregate} {v : Value}
    (h : a.value rows = .ok v) :
    (∀ row ∈ rows, a.argument.value row = .ok (argument row a)) ∧
      v = a.function.fold (rows.map fun row => argument row a) := by
  obtain ⟨values, hvalues, rfl⟩ := except_map_eq_ok.1 h
  constructor
  · exact fun row hrow => eq_ok_answerOr Value.null (ok_of_mapM_eq_ok hvalues hrow)
  · rw [eq_map_answerOr Value.null hvalues]
    rfl

/-- A grouping passes on the representatives of the groups. -/
theorem whole_group_of_ofKeys {keys : List Expr} {aggregates : List Aggregate} {rows : List Row}
    {groups : List Group} (hgroups : ofKeys keys rows = .ok groups)
    (hvalues : ∀ g ∈ groups, ∀ a ∈ aggregates, ∃ v, a.value g.rows = .ok v) :
    (Stage.group { keys, aggregates }).whole rows =
      .ok (groups.map (representative aggregates)) := by
  obtain ⟨htexts, hgroupsEq⟩ := ofKeys_eq_ok hgroups
  have harguments : ∀ row ∈ rows, ∀ a ∈ aggregates,
      a.argument.value row = .ok (argument row a) := by
    intro row hrow a ha
    obtain ⟨g, hg, hmem⟩ := exists_mem_of_ofKeys hgroups hrow
    obtain ⟨v, hv⟩ := hvalues g hg a ha
    exact (argument_of_value hv).1 row hmem
  let input (row : Row) := (Expr.textsOf keys row, aggregates.map (argument row))
  have hinputs : rows.mapM (Grouping.inputs keys aggregates) = .ok (rows.map input) := by
    apply mapM_eq_ok_map
    intro row hrow
    obtain ⟨l, hl, htext⟩ := except_map_eq_ok.1 (htexts row hrow)
    refine except_bind_eq_ok.2 ⟨l, hl, except_bind_eq_ok.2 ⟨aggregates.map (argument row), ?_, ?_⟩⟩
    · exact mapM_eq_ok_map (harguments row hrow)
    · rw [htext]
      rfl
  let updates : List (Update Row) := rows.map fun row =>
    (Expr.textsOf keys row, Grouping.representative aggregates row (aggregates.map (argument row)))
  have hlengths : ∀ u ∈ updates, u.1.length = keys.length := by
    intro u hu
    obtain ⟨row, hrow, rfl⟩ := List.mem_map.1 hu
    exact Expr.length_texts (htexts row hrow)
  have hfold : (rows.zip (rows.map input)).foldl (Grouping.enter aggregates) ∅ =
      updates.foldl KeyTree.apply ∅ := by
    have hzip := List.zip_map' (f := id) (g := input) (l := rows)
    rw [List.map_id] at hzip
    rw [hzip, List.foldl_map, List.foldl_map]
    rfl
  have hsettle : ∀ texts, settle (updatesAt updates texts) =
      (ofRows? (rows.filter fun row => Expr.textsOf keys row = texts)).map
        (representative aggregates) := by
    intro texts
    have hat : updatesAt updates texts =
        (rows.filter fun row => Expr.textsOf keys row = texts).map fun row =>
          Grouping.representative aggregates row (aggregates.map (argument row)) := by
      simp only [updatesAt, updates, List.filter_map, List.map_map, Function.comp_def]
    rw [hat]
    cases rows.filter fun row => Expr.textsOf keys row = texts with
    | nil => rfl
    | cons first rest => exact Grouping.settle_representative aggregates argument first rest
  rw [Stage.whole_group hinputs, hfold, toList_foldl_apply hlengths, hgroupsEq,
    List.map_filterMap]
  simp only [hsettle, updates, List.map_map, Function.comp_def]

end Group

/-- Two aggregates with the same function of the same argument, up to the spelling of numerals. -/
def Aggregate.Alike (a b : Aggregate) : Prop :=
  a.function = b.function ∧ a.argument.unspelled = b.argument.unspelled

theorem Aggregate.Alike.value_eq {a b : Aggregate} (h : a.Alike b) (rows : List Row) :
    a.value rows = b.value rows := by
  rw [value, value, h.1]
  congr 1
  exact congrArg (fun f => rows.mapM f)
    (funext fun row => Expr.value_eq_of_unspelled_eq row h.2)

/-- A representative carries the value of every aggregate that is alike one of those collected. -/
theorem Group.carries_representative {aggregates l : List Aggregate} {g : Group}
    (hids : (aggregates.map Aggregate.id).Nodup)
    (hfound : ∀ a ∈ l, ∃ b ∈ aggregates, b.id = a.id ∧ a.Alike b)
    (hvalues : ∀ a ∈ l, ∃ v, a.value g.rows = .ok v) :
    (g.representative aggregates).Carries g.first g.rows l := by
  refine ⟨rfl, ?_⟩
  intro a ha
  obtain ⟨b, hb, hid, halike⟩ := hfound a ha
  obtain ⟨v, hv⟩ := hvalues a ha
  refine ⟨v, hv, ?_⟩
  rw [halike.value_eq] at hv
  have hfold := Grouping.get?_foldl_accumulateRow hids hb Group.argument g.rows
    (Grouping.initialValues aggregates)
  rw [Grouping.get?_initialValues hids hb] at hfold
  rw [← hid, (argument_of_value hv).2, AggregateFunction.fold, List.foldl_map]
  exact hfold

end TableQuery
