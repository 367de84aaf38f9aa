import TableQuery.Proofs.Grouping.Partition
import TableQuery.Proofs.Pipeline.Runs

/-!
# Groups in the order of arrival

A grouping that has taken rows in passes on one row for each list of key texts among them. Lists of
texts are compared where they first differ: of the two ways to go on from there, the one that a row
took first comes first. For a single key this is the order in which its texts were first seen.
-/

namespace TableQuery

section DepthFirst

/-- Some path starts with `early`, and neither it nor a path before it starts with `late`. -/
def ReachedBefore (paths : List (List String)) (early late : List String) : Prop :=
  ∃ before path after, paths = before ++ path :: after ∧
    early <+: path ∧ ∀ other ∈ before ++ [path], ¬late <+: other

/-- Where two paths first differ, the way on that the first one takes was reached before the way on
that the second one takes. -/
def Precedes (paths : List (List String)) (v w : List String) : Prop :=
  ∃ i, v.take i = w.take i ∧ v[i]? ≠ w[i]? ∧
    ReachedBefore paths (v.take (i + 1)) (w.take (i + 1))

/-- Erasing duplicates keeps the first occurrences, in their order. -/
theorem pairwise_eraseDups {α : Type} [DecidableEq α] (l : List α) :
    l.eraseDups.Pairwise fun a b =>
      ∃ before after, l = before ++ a :: after ∧ b ∉ before ++ [a] := by
  induction l using List.reverseRecOn with
  | nil => exact List.Pairwise.nil
  | append_singleton l c ih =>
      have hgrown : l.eraseDups.Pairwise fun a b =>
          ∃ before after, l ++ [c] = before ++ a :: after ∧ b ∉ before ++ [a] := by
        refine ih.imp ?_
        rintro a b ⟨before, after, rfl, hb⟩
        exact ⟨before, after ++ [c], by simp, hb⟩
      rw [eraseDups_concat]
      split
      · exact hgrown
      · next hc =>
        refine List.pairwise_append.2 ⟨hgrown, List.pairwise_singleton .., ?_⟩
        intro a ha b hb
        obtain rfl := List.mem_singleton.1 hb
        obtain ⟨before, after, rfl⟩ := List.append_of_mem (List.mem_eraseDups.1 ha)
        refine ⟨before, after ++ [b], by simp, fun hmem => hc ?_⟩
        rw [List.append_cons]
        exact List.mem_append_left after hmem

/-- A member of the images stems from a member of the list before which nothing else maps. -/
theorem exists_split_of_filterMap {α β : Type} {f : α → Option β} {l : List α}
    {before after : List β} {b : β} (h : l.filterMap f = before ++ b :: after) :
    ∃ front a back, l = front ++ a :: back ∧ f a = some b ∧
      ∀ other ∈ front ++ [a], ∀ c, f other = some c → c ∈ before ++ [b] := by
  obtain ⟨front, back, rfl, hfront, hback⟩ := List.filterMap_eq_append_iff.1 h
  obtain ⟨skipped, a, rest, rfl, hskipped, ha, -⟩ := List.filterMap_eq_cons_iff.1 hback
  refine ⟨front ++ skipped, a, rest, by simp, ha, ?_⟩
  intro other hother c hc
  have himages : (front ++ skipped ++ [a]).filterMap f = before ++ [b] := by
    rw [List.filterMap_append, List.filterMap_append, hfront, List.filterMap_eq_nil_iff.2 hskipped,
      List.append_nil, List.filterMap_cons_some ha, List.filterMap_nil]
  exact himages ▸ List.mem_filterMap.2 ⟨other, hother, hc⟩

theorem Precedes.cons {paths : List (List String)} {key : String} {v w : List String}
    (h : Precedes (paths.filterMap (tailUnder key)) v w) :
    Precedes paths (key :: v) (key :: w) := by
  obtain ⟨i, htake, hdiffer, before, path, after, hsplit, hv, hw⟩ := h
  obtain ⟨front, whole, back, hpaths, hwhole, hfront⟩ := exists_split_of_filterMap hsplit
  obtain rfl := tailUnder_eq_some.1 hwhole
  refine ⟨i + 1, by simpa using htake, by simpa using hdiffer, front, key :: path, back, hpaths,
    List.cons_prefix_cons.2 ⟨rfl, hv⟩, ?_⟩
  rintro other hother ⟨rest, rfl⟩
  exact hw _ (hfront _ hother _ (tailUnder_eq_some.2 rfl)) (List.prefix_append _ rest)

theorem precedes_of_heads {paths : List (List String)} {before after : List String} {k l : String}
    (hsplit : paths.filterMap List.head? = before ++ k :: after) (hl : l ∉ before ++ [k])
    (v w : List String) : Precedes paths (k :: v) (l :: w) := by
  obtain ⟨front, whole, back, hpaths, hwhole, hfront⟩ := exists_split_of_filterMap hsplit
  have hkl : k ≠ l := by
    rintro rfl
    exact hl (by simp)
  refine ⟨0, rfl, by simpa using hkl, front, whole, back, hpaths, ?_, ?_⟩
  · obtain ⟨rest, rfl⟩ := List.head?_eq_some_iff.1 hwhole
    exact ⟨rest, rfl⟩
  · rintro other hother ⟨rest, rfl⟩
    exact hl (hfront _ hother l rfl)

/-- Depth first, paths stand in the order in which their branches were reached. -/
theorem pairwise_depthFirst (n : Nat) (paths : List (List String)) :
    (depthFirst n paths).Pairwise (Precedes paths) := by
  induction n generalizing paths with
  | zero =>
      cases paths with
      | nil => exact List.Pairwise.nil
      | cons path rest => exact List.pairwise_singleton ..
  | succ n ih =>
      rw [depthFirst, List.pairwise_flatMap]
      constructor
      · intro key _
        exact (ih _).map _ fun _ _ h => h.cons
      · refine (pairwise_eraseDups _).imp ?_
        rintro k l ⟨before, after, hsplit, hl⟩ v hv w hw
        obtain ⟨v, -, rfl⟩ := List.mem_map.1 hv
        obtain ⟨w, -, rfl⟩ := List.mem_map.1 hw
        exact precedes_of_heads hsplit hl v w

/-- Paths of a single key are listed as the keys are first seen. -/
theorem depthFirst_one {paths : List (List String)} (h : ∀ path ∈ paths, path.length = 1) :
    depthFirst 1 paths = paths.flatten.eraseDups.map ([·]) := by
  have hheads : paths.filterMap List.head? = paths.flatten := by
    induction paths with
    | nil => rfl
    | cons path paths ih =>
        obtain ⟨hpath, hpaths⟩ := List.forall_mem_cons.1 h
        obtain ⟨key, rfl⟩ := List.length_eq_one_iff.1 hpath
        exact congrArg (key :: ·) (ih hpaths)
  have hunder : ∀ key ∈ (paths.filterMap List.head?).eraseDups,
      (depthFirst 0 (paths.filterMap (tailUnder key))).map (key :: ·) = [[key]] := by
    intro key hkey
    obtain ⟨path, hpath, hhead⟩ := List.mem_filterMap.1 (List.mem_eraseDups.1 hkey)
    obtain ⟨rest, rfl⟩ := List.head?_eq_some_iff.1 hhead
    have htail : rest ∈ paths.filterMap (tailUnder key) :=
      List.mem_filterMap.2 ⟨_, hpath, tailUnder_eq_some.2 rfl⟩
    have hlengths := length_of_mem_tails (n := 0) h key
    cases htails : paths.filterMap (tailUnder key) with
    | nil =>
        rw [htails] at htail
        cases htail
    | cons first others =>
        have hfirst := hlengths first (htails ▸ List.mem_cons_self)
        rw [List.length_eq_zero_iff.1 hfirst]
        rfl
  rw [depthFirst, List.flatMap_congr hunder, hheads]
  exact List.flatMap_pure_eq_map ..

end DepthFirst

section Output

namespace Grouping

@[simp] theorem keys_accumulate (values : AggregateValues) (a : Aggregate) (v : Value) :
    (accumulate values a v).keys = values.keys := by
  cases h : values.get? a.id with
  | none => simp only [accumulate, h]
  | some acc =>
      have hid : a.id ∈ values.keys := by
        by_contra hid
        rw [(values.get?_eq_none_iff a.id).2 hid] at h
        cases h
      simp only [accumulate, h, OrderedMap.keys_insert, if_pos hid]

theorem keys_accumulateRow (aggregates : List Aggregate) (argument : Aggregate → Value)
    (values : AggregateValues) :
    (accumulateRow aggregates argument values).keys = values.keys := by
  induction aggregates generalizing values with
  | nil => rfl
  | cons a aggregates ih =>
      rw [accumulateRow, List.foldl_cons]
      exact (ih _).trans (keys_accumulate values a _)

theorem keys_initialValues {aggregates : List Aggregate}
    (hids : (aggregates.map Aggregate.id).Nodup) :
    (initialValues aggregates).keys = aggregates.map Aggregate.id := by
  let pairs := aggregates.map fun a => (a.id, a.function.initial)
  have hpairs : pairs.map Prod.fst = aggregates.map Aggregate.id := by
    simp only [pairs, List.map_map, Function.comp_def]
  have hkeys := OrderedMap.keys_foldl_insert pairs ∅ (by simpa [hpairs] using hids)
  rw [OrderedMap.keys_empty, List.nil_append, hpairs] at hkeys
  exact hkeys

end Grouping

namespace Group

theorem rows_of_ofRows? {rows : List Row} {g : Group} (h : ofRows? rows = some g) :
    g.rows = rows := by
  cases rows with
  | nil => cases h
  | cons first rest =>
      cases h
      rfl

theorem exists_ofRows? {rows : List Row} (h : rows ≠ []) : ∃ g, ofRows? rows = some g := by
  cases rows with
  | nil => exact absurd rfl h
  | cons first rest => exact ⟨_, rfl⟩

variable [PatternEngine]

/-- A row stands for the rows that have the texts: it has the columns of the first of them, and it
carries the values on all of them of the given aggregates and of no others. -/
def Represents (keys : List Expr) (aggregates : List Aggregate) (rows : List Row)
    (texts : List String) (out : Row) : Prop :=
  ∃ g, ofRows? (rows.filter fun row => Expr.textsOf keys row = texts) = some g ∧
    out.Carries g.first g.rows aggregates ∧
    out.aggregates.map OrderedMap.keys = some (aggregates.map Aggregate.id)

theorem represents_representative {keys : List Expr} {aggregates : List Aggregate}
    {rows : List Row} {texts : List String} {g : Group}
    (hids : (aggregates.map Aggregate.id).Nodup)
    (hmembers : ofRows? (rows.filter fun row => Expr.textsOf keys row = texts) = some g)
    (hvalues : ∀ a ∈ aggregates, ∃ v, a.value g.rows = .ok v) :
    Represents keys aggregates rows texts (g.representative aggregates) := by
  refine ⟨g, hmembers, ?_, congrArg some ?_⟩
  · exact carries_representative hids (fun a ha => ⟨a, ha, rfl, rfl, rfl⟩) hvalues
  · have hkeys : ∀ (l : List Row) (values : AggregateValues),
        (l.foldl (fun values row => Grouping.accumulateRow aggregates (argument row) values)
          values).keys = values.keys := by
      intro l
      induction l with
      | nil => exact fun _ => rfl
      | cons row l ih => exact fun values => (ih _).trans (Grouping.keys_accumulateRow ..)
    exact (hkeys g.rows _).trans (Grouping.keys_initialValues hids)

theorem exists_ofKeys {keys : List Expr} {rows : List Row}
    (h : ∀ row ∈ rows, ∃ texts, Expr.texts keys row = .ok texts) :
    ∃ groups, ofKeys keys rows = .ok groups := by
  have hkeyed : rows.mapM (fun row => (·, row) <$> Expr.texts keys row) =
      .ok (rows.map fun row => (Expr.textsOf keys row, row)) := by
    apply mapM_eq_ok_map
    intro row hrow
    exact except_map_eq_ok.2 ⟨_, eq_ok_answerOr [] (h row hrow), rfl⟩
  exact ⟨_, except_bind_eq_ok.2 ⟨_, hkeyed, rfl⟩⟩

end Group

/-- Where a function has an answer for each member of a list, the answers match the members. -/
theorem forall₂_filterMap {α β : Type} {R : α → β → Prop} {f : α → Option β} {l : List α}
    (h : ∀ a ∈ l, ∃ b, f a = some b ∧ R a b) : List.Forall₂ R l (l.filterMap f) := by
  induction l with
  | nil => exact .nil
  | cons a l ih =>
      obtain ⟨⟨b, hb, hab⟩, hl⟩ := List.forall_mem_cons.1 h
      rw [List.filterMap_cons_some hb]
      exact .cons hab (ih hl)

namespace Stage

/-- A grouping takes rows in without passing any on, and passes on at the end one row for each list
of key texts among them, branches in the order in which they were reached. -/
theorem group_partitions [PatternEngine] {keys : List Expr} {aggregates : List Aggregate}
    {rows : List Row} {known : Patterns} (hids : (aggregates.map Aggregate.id).Nodup)
    (hknown : known.Sound)
    (hkeys : ∀ row ∈ rows, ∃ texts, Expr.texts keys row = .ok texts)
    (harguments : ∀ row ∈ rows, ∀ a ∈ aggregates, ∃ v, a.argument.value row = .ok v) :
    ∃ (held : Stage) (later : Patterns) (found : List (List String)),
      (group { keys, aggregates }).feed rows known = (.ok [], held, later) ∧
      List.Forall₂ (Group.Represents keys aggregates rows) found held.finish.2 ∧
      found.Nodup ∧
      (∀ texts, texts ∈ found ↔ ∃ row ∈ rows, Expr.texts keys row = .ok texts) ∧
      found.Pairwise (Precedes (rows.map (Expr.textsOf keys))) ∧
      (keys.length = 1 → found = (rows.map (Expr.textsOf keys)).flatten.eraseDups.map ([·])) := by
  have htexts : ∀ row ∈ rows, Expr.texts keys row = .ok (Expr.textsOf keys row) :=
    fun row hrow => eq_ok_answerOr [] (hkeys row hrow)
  have hlengths : ∀ path ∈ rows.map (Expr.textsOf keys), path.length = keys.length := by
    intro path hpath
    obtain ⟨row, hrow, rfl⟩ := List.mem_map.1 hpath
    exact Expr.length_texts (htexts row hrow)
  have hfound : ∀ texts, texts ∈ depthFirst keys.length (rows.map (Expr.textsOf keys)) ↔
      ∃ row ∈ rows, Expr.texts keys row = .ok texts := by
    intro texts
    rw [mem_depthFirst hlengths, List.mem_map]
    refine exists_congr fun row => and_congr_right fun hrow => ?_
    rw [htexts row hrow, Except.ok.injEq]
  obtain ⟨groups, hgroups⟩ := Group.exists_ofKeys hkeys
  obtain ⟨-, hgroupsEq⟩ := Group.ofKeys_eq_ok hgroups
  have hvalues : ∀ texts g,
      Group.ofRows? (rows.filter fun row => Expr.textsOf keys row = texts) = some g →
        ∀ a ∈ aggregates, ∃ v, a.value g.rows = .ok v := by
    intro texts g hg a ha
    rw [Group.rows_of_ofRows? hg]
    have hmap := mapM_eq_ok_map (l := rows.filter fun row => Expr.textsOf keys row = texts)
      fun row hrow => eq_ok_answerOr Value.null (harguments row (List.mem_of_mem_filter hrow) a ha)
    exact ⟨_, except_map_eq_ok.2 ⟨_, hmap, rfl⟩⟩
  have hwhole : (group { keys, aggregates }).whole rows =
      .ok (groups.map (Group.representative aggregates)) := by
    apply Group.whole_group_of_ofKeys hgroups
    intro g hg
    obtain ⟨texts, -, hmembers⟩ := List.mem_filterMap.1 (hgroupsEq ▸ hg)
    exact hvalues texts g hmembers
  obtain ⟨⟨held, passed⟩, hsteps, hout⟩ := except_bind_eq_ok.1 hwhole
  obtain rfl : passed = [] := (steps_cases hsteps).2.1 rfl
  have hfinish : held.finish.2 = groups.map (Group.representative aggregates) :=
    Except.ok.inj hout
  obtain ⟨later, -, hfeed⟩ := feed_of_steps hknown hsteps
  refine ⟨held, later, _, hfeed, ?_, nodup_depthFirst _ _, hfound, pairwise_depthFirst _ _, ?_⟩
  · rw [hfinish, hgroupsEq, List.map_filterMap]
    apply forall₂_filterMap
    intro texts hmem
    obtain ⟨row, hrow, hrowTexts⟩ := (hfound texts).1 hmem
    rw [htexts row hrow, Except.ok.injEq] at hrowTexts
    have hne : (rows.filter fun row => Expr.textsOf keys row = texts) ≠ [] :=
      List.ne_nil_of_mem (List.mem_filter.2 ⟨hrow, decide_eq_true hrowTexts⟩)
    obtain ⟨g, hg⟩ := Group.exists_ofRows? hne
    exact ⟨_, congrArg (Option.map _) hg,
      Group.represents_representative hids hg (hvalues texts g hg)⟩
  · intro hone
    rw [hone] at hlengths ⊢
    exact depthFirst_one hlengths

/-- Rows with two keys: the second group of `x` comes before that of `y`, which was seen earlier. -/
theorem group_partitions_two_keys :
    let row (a b n : String) : Row := .ofList [("a", .text a), ("b", .text b), ("n", .text n)]
    let rows := [row "x" "1" "p", row "y" "1" "q", row "x" "2" "r", row "x" "1" "s"]
    let keys := [Expr.identifier "a", Expr.identifier "b"]
    let joined : Aggregate := ⟨.groupConcat, .identifier "n", ⟨0⟩⟩
    let least : Aggregate := ⟨.min, .identifier "b", ⟨1⟩⟩
    ∃ (held : Stage) (later : Patterns) (found : List (List String)),
      (group { keys, aggregates := [joined, least] }).feed rows ∅ = (.ok [], held, later) ∧
      List.Forall₂ (Group.Represents keys [joined, least] rows) found held.finish.2 ∧
      found.Pairwise (Precedes (rows.map (Expr.textsOf keys))) ∧
      held.finish.2.map (fun out => (out.get? "n", out.aggregate? joined.id)) =
        [(some (.text "p"), some (.text "ps")), (some (.text "r"), some (.text "r")),
          (some (.text "q"), some (.text "q"))] := by
  intro row rows keys joined least
  have hkeys : ∀ row ∈ rows, ∃ texts, Expr.texts keys row = .ok texts := by
    simp only [rows, List.forall_mem_cons]
    exact ⟨⟨_, rfl⟩, ⟨_, rfl⟩, ⟨_, rfl⟩, ⟨_, rfl⟩, nofun⟩
  have harguments : ∀ row ∈ rows, ∀ a ∈ [joined, least], ∃ v, a.argument.value row = .ok v := by
    simp only [rows, List.forall_mem_cons]
    refine ⟨⟨⟨_, rfl⟩, ⟨_, rfl⟩, nofun⟩, ⟨⟨_, rfl⟩, ⟨_, rfl⟩, nofun⟩, ⟨⟨_, rfl⟩, ⟨_, rfl⟩, nofun⟩,
      ⟨⟨_, rfl⟩, ⟨_, rfl⟩, nofun⟩, nofun⟩
  have hids : ([joined, least].map Aggregate.id).Nodup := by decide
  obtain ⟨held, later, found, hfeed, hrepresents, -, -, hprecedes, -⟩ :=
    group_partitions hids Patterns.sound_empty hkeys harguments
  refine ⟨held, later, found, hfeed, hrepresents, hprecedes, ?_⟩
  have hheld : held = ((group { keys, aggregates := [joined, least] }).feed rows ∅).2.1 := by
    rw [hfeed]
  rw [hheld]
  rfl

end Stage

end Output

end TableQuery
