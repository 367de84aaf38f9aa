import TableQuery.Proofs.Grouping.Partition
import TableQuery.Proofs.Pipeline.Runs
import TableQuery.Proofs.Query.Identification

/-! # Runs compute the meaning

A compiled query, run over rows, writes the rows that the query as parsed means. Behind the
grouping every group travels as one row, on which the marked expressions have the values that the
expressions have on the group. -/

namespace TableQuery

/-- On the row every expression of a list, once marked, has its value on the group. -/
def Group.StandsFor [PatternEngine] (row : Row) (g : Group) (l : List Expr) : Prop :=
  row.columns = g.first.columns ∧ ∀ e ∈ l, e.marked.value row = g.value e

namespace Stages

variable [PatternEngine]

theorem whole_condition {clause : FilterClause} {condition : Option Expr} {rows kept : List Row}
    (h : keepWhere Expr.holds condition rows = .ok kept) :
    whole rows (condition.map (Stage.filter clause)).toList = .ok kept := by
  cases condition with
  | none => exact h
  | some e => exact except_bind_eq_ok.2 ⟨kept, Stage.whole_filter h, rfl⟩

theorem whole_window (offset limit : Option Nat) (rows : List Row) :
    whole rows ((offset.map Stage.skip).toList ++
      (limit.map fun n => Stage.limit { remaining := n }).toList) =
        .ok (window offset limit rows) := by
  rw [whole_append]
  refine except_bind_eq_ok.2 ⟨rows.drop (offset.getD 0), ?_, ?_⟩
  · cases offset with
    | none => rfl
    | some n => exact except_bind_eq_ok.2 ⟨_, Stage.whole_skip n rows, rfl⟩
  · cases limit with
    | none => rfl
    | some n => exact except_bind_eq_ok.2 ⟨_, Stage.whole_limit { remaining := n } _, rfl⟩

end Stages

theorem map_window {α β : Type} (f : α → β) (offset limit : Option Nat) (l : List α) :
    (window offset limit l).map f = window offset limit (l.map f) := by
  cases limit with
  | none => simp only [window, List.map_drop]
  | some n => simp only [window, List.map_take, List.map_drop]

theorem mem_of_mem_window {α : Type} {offset limit : Option Nat} {l : List α} {a : α}
    (h : a ∈ window offset limit l) : a ∈ l := by
  cases limit with
  | none => exact List.mem_of_mem_drop h
  | some n => exact List.mem_of_mem_drop (List.mem_of_mem_take h)

namespace Group

theorem compareKeys_marked (terms : List OrderingTerm) (v w : List Value) :
    Sorting.compareKeys (terms.map OrderingTerm.marked) v w = Sorting.compareKeys terms v w := by
  induction terms generalizing v w with
  | nil => rfl
  | cons t terms ih =>
      cases v with
      | nil => rfl
      | cons x v =>
          cases w with
          | nil => rfl
          | cons y w => simp only [List.map_cons, Sorting.compareKeys, ih, OrderingTerm.marked]

variable [PatternEngine] {row : Group → Row} {groups : List Group} {l : List Expr}

/-- The condition on groups keeps the rows that stand for the groups it keeps. -/
theorem keepWhere_rows {having : Option Expr}
    (h : ∀ g ∈ groups, StandsFor (row g) g having.toList) {kept : List Group}
    (hkept : keepWhere holds having groups = .ok kept) :
    keepWhere Expr.holds (having.map Expr.marked) (groups.map row) = .ok (kept.map row) := by
  cases having with
  | none =>
      cases hkept
      rfl
  | some e =>
      have hcongr : ∀ g ∈ groups, e.marked.holds (row g) = g.holds e := by
        intro g hg
        rw [Expr.holds, holds, (h g hg).2 e (by simp)]
      change (groups.filterM fun g => g.holds e) = .ok kept at hkept
      change ((groups.map row).filterM fun r => e.marked.holds r) = .ok (kept.map row)
      rw [filterM_map, filterM_congr_ok hcongr, hkept]
      rfl

theorem mem_of_keepWhere {having : Option Expr} {kept : List Group}
    (h : keepWhere holds having groups = .ok kept) {g : Group} (hg : g ∈ kept) : g ∈ groups := by
  cases having with
  | none =>
      cases h
      exact hg
  | some e => exact mem_of_filterM_eq_ok h hg

/-- Sorting the rows that stand for groups sorts the groups. -/
theorem sort_rows {orderBy : Option (List OrderingTerm)}
    (h : ∀ g ∈ groups, StandsFor (row g) g ((orderBy.getD []).map (·.expr)))
    {sorted : List Group} (hsorted : sort orderBy groups = .ok sorted) :
    Stages.whole (groups.map row) ((orderBy.map (List.map OrderingTerm.marked)).map
      fun terms => Stage.sort { terms }).toList = .ok (sorted.map row) := by
  cases orderBy with
  | none =>
      cases hsorted
      rfl
  | some terms =>
      obtain ⟨keyed, hkeyed, hsorted⟩ := except_bind_eq_ok.1 hsorted
      cases hsorted
      have hkeys : ∀ g ∈ groups, Sorting.keyed (terms.map OrderingTerm.marked) (row g) =
          (fun pair => (pair.1, row pair.2)) <$>
            ((·, g) <$> terms.mapM fun t => g.value t.expr) := by
        intro g hg
        have hvalues : ((terms.map OrderingTerm.marked).mapM fun t => t.expr.value (row g)) =
            terms.mapM fun t => g.value t.expr := by
          rw [List.mapM_map]
          apply mapM_congr_ok
          intro t ht
          exact (h g hg).2 t.expr (List.mem_map_of_mem ht)
        rw [Sorting.keyed, hvalues, Functor.map_map]
      have hrows : (groups.map row).mapM (Sorting.keyed (terms.map OrderingTerm.marked)) =
          .ok (keyed.map fun pair => (pair.1, row pair.2)) := by
        rw [List.mapM_map]
        exact (mapM_congr_ok hkeys).trans (mapM_map_eq_ok _ hkeyed)
      refine except_bind_eq_ok.2 ⟨_, Stage.whole_sort hrows, congrArg Except.ok ?_⟩
      rw [Sorting.sorted, ← List.map_mergeSort, List.map_map, List.map_map]
      · rfl
      · intro a _ b _
        rw [compareKeys_marked]

theorem mem_of_sort {orderBy : Option (List OrderingTerm)} {sorted : List Group}
    (h : sort orderBy groups = .ok sorted) {g : Group} (hg : g ∈ sorted) : g ∈ groups := by
  cases orderBy with
  | none =>
      cases h
      exact hg
  | some terms =>
      obtain ⟨keyed, hkeyed, h⟩ := except_bind_eq_ok.1 h
      cases h
      obtain ⟨pair, hpair, rfl⟩ := List.mem_map.1 hg
      have hsecond : keyed.map Prod.snd = groups := by
        refine map_of_mapM_eq_ok ?_ hkeyed
        intro a b hb
        obtain ⟨_, -, rfl⟩ := except_map_eq_ok.1 hb
        rfl
      rw [← hsecond]
      exact List.mem_map_of_mem (List.mem_mergeSort.1 hpair)

theorem value_fill {r : Row} {l : List OutputColumn} {cells : List (String × Value)}
    (h : (l.mapM fun c => (c.name, ·) <$> c.expr.value r) = .ok cells) (result : Row) :
    (Selection.fill r l result).value =
      .ok { result with
        columns := cells.foldl (fun m pair => m.insert pair.1 pair.2) result.columns } := by
  induction l generalizing cells result with
  | nil =>
      cases h
      rfl
  | cons c l ih =>
      obtain ⟨cell, rest, hcell, hrest, rfl⟩ := mapM_cons_eq_ok.1 h
      obtain ⟨v, hv, rfl⟩ := except_map_eq_ok.1 hcell
      have hbind := (Expr.transparent_eval r c.expr).value_bind
        (fun v => Selection.fill r l (result.insert c.name v))
        fun v => Selection.transparent_fill r l _
      exact hbind.trans (except_bind_eq_ok.2 ⟨v, hv, ih hrest (result.insert c.name v)⟩)

/-- The selected columns of a row that stands for a group are the output of the group. -/
theorem project_row {select : Selection} {g : Group} {r : Row}
    (h : StandsFor r g select.exprs) {out : Row} (hout : g.output select = .ok out) :
    (select.marked.project r).value = .ok out := by
  cases select with
  | all =>
      cases hout
      exact congrArg Except.ok (congrArg (Row.mk · none) h.1)
  | columns l =>
      obtain ⟨cells, hcells, hout⟩ := except_bind_eq_ok.1 hout
      cases hout
      have hmarked : ((l.map fun c => { c with expr := c.expr.marked }).mapM
          fun c => (c.name, ·) <$> c.expr.value r) = .ok cells := by
        rw [List.mapM_map, ← hcells]
        apply mapM_congr_ok
        intro c hc
        rw [Function.comp_apply, h.2 c.expr (List.mem_map_of_mem hc)]
      refine (value_fill hmarked {}).trans (congrArg Except.ok ?_)
      rw [← OrderedMap.ofList_eq]
      rfl

theorem mapM_project {select : Selection} {out : List Row}
    (h : ∀ g ∈ groups, StandsFor (row g) g select.exprs)
    (hout : groups.mapM (output select) = .ok out) :
    ((groups.map row).mapM fun r => (select.marked.project r).value) = .ok out := by
  rw [List.mapM_map, ← hout]
  apply mapM_congr_ok
  intro g hg
  obtain ⟨r, hr⟩ := ok_of_mapM_eq_ok hout hg
  rw [Function.comp_apply, hr, project_row (h g hg) hr]

end Group

namespace Query

/-- No two aggregates of the query that differ in more than the spelling of numerals have the same
identity. -/
def NoCollision (q : Query) : Prop :=
  ∀ a ∈ q.occurrences, ∀ b ∈ q.occurrences, a.id = b.id → a.Alike b

theorem isGrouped_marked (q : Query) :
    q.marked.isGrouped = (q.groupBy.isSome || !q.occurrences.isEmpty) := by
  have hempty : (Aggregate.addAll [] q.occurrences).isEmpty = q.occurrences.isEmpty := by
    cases h : q.occurrences with
    | nil => rfl
    | cons a l =>
        have ha : a ∈ a :: l := List.mem_cons_self
        obtain ⟨b, hb, -⟩ := Aggregate.exists_id_mem_addAll [] ha
        rw [List.isEmpty_cons, List.isEmpty_eq_false_iff]
        exact List.ne_nil_of_mem hb
  rw [isGrouped, marked, hempty]

theorem standsFor_of_carries [PatternEngine] {q : Query} {r : Row} {g : Group}
    (h : r.Carries g.first g.rows q.occurrences) : Group.StandsFor r g q.outer := by
  refine ⟨h.1, fun e he => ?_⟩
  exact (Group.value_eq (h.mono fun a ha => List.mem_flatMap.2 ⟨e, he, ha⟩)).symm

/-- What the grouping passes on stands for the groups. -/
theorem whole_grouping [PatternEngine] {q : Query} {rows : List Row} {groups : List Group}
    (hcollision : q.NoCollision) (h : q.groups rows = .ok groups) :
    ∃ row : Group → Row,
      Stages.whole rows (if q.marked.isGrouped then
        [.group { keys := q.groupBy.getD [], aggregates := q.marked.aggregates }] else []) =
          .ok (groups.map row) ∧
      ∀ g ∈ groups, Group.StandsFor (row g) g q.outer := by
  rw [isGrouped_marked]
  by_cases hgrouped : (q.groupBy.isSome || !q.occurrences.isEmpty) = true
  · rw [if_pos hgrouped]
    rw [Query.groups, if_pos hgrouped] at h
    obtain ⟨made, hmade, h⟩ := except_bind_eq_ok.1 h
    obtain ⟨_, hasked, h⟩ := except_bind_eq_ok.1 h
    cases h
    have hvalues : ∀ g ∈ groups, ∀ a ∈ q.occurrences, ∃ v, a.value g.rows = .ok v := by
      intro g hg a ha
      obtain ⟨values, hvalues⟩ := ok_of_mapM_eq_ok hasked hg
      exact ok_of_mapM_eq_ok hvalues ha
    have hcollected : ∀ a ∈ q.marked.aggregates, a ∈ q.occurrences := by
      intro a ha
      exact (Aggregate.mem_addAll ha).resolve_left List.not_mem_nil
    refine ⟨Group.representative q.marked.aggregates, ?_, ?_⟩
    · refine except_bind_eq_ok.2 ⟨_, Group.whole_group_of_ofKeys hmade ?_, rfl⟩
      exact fun g hg a ha => hvalues g hg a (hcollected a ha)
    · intro g hg
      apply standsFor_of_carries
      apply Group.carries_representative (Aggregate.nodup_addAll (by simp) _) ?_ (hvalues g hg)
      intro a ha
      obtain ⟨b, hb, hid⟩ := Aggregate.exists_id_mem_addAll [] ha
      exact ⟨b, hb, hid, hcollision a ha b (hcollected b hb) hid.symm⟩
  · rw [if_neg hgrouped]
    rw [Query.groups, if_neg hgrouped] at h
    cases h
    refine ⟨Group.first, ?_, ?_⟩
    · rw [List.map_map]
      exact congrArg Except.ok (List.map_id rows).symm
    · intro g _
      apply standsFor_of_carries
      refine ⟨rfl, fun a ha => ?_⟩
      rw [Bool.or_eq_true, not_or, Bool.not_eq_true', Bool.not_eq_false, List.isEmpty_iff]
        at hgrouped
      rw [hgrouped.2] at ha
      simp at ha

theorem stages_marked (q : Query) :
    q.marked.stages =
      (q.condition.map (Stage.filter .where)).toList ++
      ((if q.marked.isGrouped then
        [.group { keys := q.groupBy.getD [], aggregates := q.marked.aggregates }] else []) ++
      (((q.having.map Expr.marked).map (Stage.filter .having)).toList ++
      (((q.orderBy.map (List.map OrderingTerm.marked)).map
        fun terms => Stage.sort { terms }).toList ++
      (((q.offset.map Stage.skip).toList ++
        (q.limit.map fun n => Stage.limit { remaining := n }).toList) ++
      [.project q.select.marked])))) := by
  simp only [stages, marked, List.append_assoc]

/-- The stages of the marked query make of a batch of rows what the query means. -/
theorem whole_of_meaning [PatternEngine] {q : Query} {rows out : List Row}
    (hcollision : q.NoCollision) (h : q.meaning rows = .ok out) :
    Stages.whole rows q.marked.stages = .ok out := by
  obtain ⟨kept, hkept, h⟩ := except_bind_eq_ok.1 h
  obtain ⟨groups, hgroups, h⟩ := except_bind_eq_ok.1 h
  obtain ⟨held, hheld, h⟩ := except_bind_eq_ok.1 h
  obtain ⟨sorted, hsorted, hout⟩ := except_bind_eq_ok.1 h
  obtain ⟨row, hrows, hstands⟩ := whole_grouping hcollision hgroups
  have houter : ∀ l ⊆ q.outer, ∀ g ∈ groups, Group.StandsFor (row g) g l :=
    fun l hl g hg => ⟨(hstands g hg).1, fun e he => (hstands g hg).2 e (hl he)⟩
  have hselect := houter q.select.exprs (List.subset_append_left _ _)
  have hhaving := houter q.having.toList
    (List.Subset.trans (List.subset_append_left _ _) (List.subset_append_right _ _))
  have horder := houter ((q.orderBy.getD []).map (·.expr))
    (List.Subset.trans (List.subset_append_right _ _) (List.subset_append_right _ _))
  have hheldMem : ∀ g ∈ held, g ∈ groups := fun g => Group.mem_of_keepWhere hheld
  have hsortedMem : ∀ g ∈ sorted, g ∈ groups := fun g hg =>
    hheldMem g (Group.mem_of_sort hsorted hg)
  rw [stages_marked]
  simp only [Stages.whole_append]
  refine except_bind_eq_ok.2 ⟨kept, Stages.whole_condition hkept, ?_⟩
  refine except_bind_eq_ok.2 ⟨groups.map row, hrows, ?_⟩
  refine except_bind_eq_ok.2 ⟨held.map row,
    Stages.whole_condition (Group.keepWhere_rows hhaving hheld), ?_⟩
  refine except_bind_eq_ok.2 ⟨sorted.map row,
    Group.sort_rows (fun g hg => horder g (hheldMem g hg)) hsorted, ?_⟩
  rw [← Stages.whole_append]
  refine except_bind_eq_ok.2 ⟨_, Stages.whole_window q.offset q.limit _, ?_⟩
  rw [← map_window]
  refine except_bind_eq_ok.2 ⟨out, Stage.whole_project ?_, rfl⟩
  refine Group.mapM_project (fun g hg => ?_) hout
  exact hselect g (hsortedMem g (mem_of_mem_window hg))

/-- A text that compiles denotes a query, and its run over rows on which that query has a meaning
succeeds and writes just the rows of the meaning. -/
theorem run_compiled [PatternEngine] {text : String} {q : Query} (hcompile : compile text = .ok q) :
    ∃ p, ofText text = .ok p ∧ ∀ rows out, p.NoCollision → p.meaning rows = .ok out →
      (q.run (rows.map .ok) Sink.rows #[]).result = .ok () ∧
        (q.run (rows.map .ok) Sink.rows #[]).output = out.toArray := by
  obtain ⟨p, hparse, -⟩ := except_bind_eq_ok.1 hcompile
  refine ⟨p, hparse, ?_⟩
  intro rows out hcollision hmeaning
  have hq := eq_marked_of_compile hparse hcompile
  subst hq
  have hwrite := Sink.writeAll_rows out #[]
  rw [Array.empty_append] at hwrite
  exact Pipeline.run_of_whole (ordered_stages _) (calm_stages _) Patterns.sound_empty
    (whole_of_meaning hcollision hmeaning) hwrite

/-- Rows with an empty `v` are left out, and the values of `v` in each group are joined. -/
theorem run_compiled_joined_groups :
    let text := "SELECT g, GROUP_CONCAT(v) AS all FROM 't' WHERE v GROUP BY g"
    let row (g v : String) : Row := .ofList [("g", .text g), ("v", .text v)]
    let rows := [row "a" "1", row "b" "2", row "a" "", row "a" "3"]
    let result (g all : String) : Row := .ofList [("g", .text g), ("all", .text all)]
    ∃ q, compile text = .ok q ∧ (q.run (rows.map .ok) Sink.rows #[]).result = .ok () ∧
      (q.run (rows.map .ok) Sink.rows #[]).output = #[result "a" "13", result "b" "2"] := by
  intro text row rows result
  let p : Query := {
    select := .columns [⟨.identifier "g", "g"⟩, ⟨.call "GROUP_CONCAT" [.identifier "v"], "all"⟩]
    source := "t"
    condition := some (.identifier "v")
    groupBy := some [.identifier "g"] }
  have htokens : Token.ofText text = .ok
      [.keyword "SELECT", .identifier "g", ⟨.comma, ",", none⟩, .identifier "GROUP_CONCAT",
        ⟨.openParenthesis, "(", none⟩, .identifier "v", ⟨.closeParenthesis, ")", none⟩,
        .keyword "AS", .identifier "all", .keyword "FROM", ⟨.string, "'t'", some (.text "t")⟩,
        .keyword "WHERE", .identifier "v", .keyword "GROUP", .keyword "BY", .identifier "g"] := by
    decide +kernel
  have hparse : ofText text = .ok p := by
    rw [ofText, htokens]
    rfl
  have hcompile : compile text = .ok p.marked := by
    have hidentify : p.identifyAggregates = .ok p.marked := rfl
    refine except_bind_eq_ok.2 ⟨p, hparse, ?_⟩
    rw [hidentify]
  have hcollision : p.NoCollision := by
    intro a ha b hb _
    have hone : p.occurrences = [.ofCall .groupConcat (.identifier "v")] := rfl
    rw [hone, List.mem_singleton] at ha hb
    rw [ha, hb]
    exact ⟨rfl, rfl⟩
  have hmeaning : p.meaning rows = .ok [result "a" "13", result "b" "2"] := rfl
  obtain ⟨parsed, hparsed, hrun⟩ := run_compiled hcompile
  rw [hparse] at hparsed
  cases hparsed
  exact ⟨p.marked, hcompile, hrun rows _ hcollision hmeaning⟩

end Query

end TableQuery
