import TableQuery.Proofs.Pipeline.Accepting
import TableQuery.Proofs.Value.Order

/-!
# Sorting is stable

What a sorting passes on at the end are the rows it took, in the one order in which a row comes
before another when its keys do, or when the keys tie and it arrived earlier. The keys of a row
are read when it arrives, and no later row changes them.
-/

namespace TableQuery

open Evaluation Std

/-- Of two members with the places at which they arrived, the first comes before the second: it
is less, or they tie and it arrived earlier. -/
def ComesBefore {α : Type} (cmp : α → α → Ordering) (a b : α × Nat) : Prop :=
  cmp a.1 b.1 = .lt ∨ cmp a.1 b.1 = .eq ∧ a.2 < b.2

instance {α : Type} (cmp : α → α → Ordering) (a b : α × Nat) : Decidable (ComesBefore cmp a b) :=
  inferInstanceAs (Decidable (_ ∨ _))

section

variable {α : Type} {cmp : α → α → Ordering}

theorem ComesBefore.asymm [OrientedCmp cmp] {a b : α × Nat} (hab : ComesBefore cmp a b) :
    ¬ComesBefore cmp b a := by
  intro hba
  have hswap : cmp a.1 b.1 = (cmp b.1 a.1).swap := OrientedCmp.eq_swap
  rcases hab with hlt | ⟨heq, hlater⟩
  · rcases hba with hlt' | ⟨heq', -⟩
    · rw [hlt, hlt'] at hswap
      cases hswap
    · rw [hlt, heq'] at hswap
      cases hswap
  · rcases hba with hlt' | ⟨-, hlater'⟩
    · rw [heq, hlt'] at hswap
      cases hswap
    · exact Nat.lt_asymm hlater hlater'

/-- There is only one order in which each member comes before the ones behind it. -/
theorem ComesBefore.unique [OrientedCmp cmp] {l l' : List (α × Nat)} (hperm : l.Perm l')
    (hl : l.Pairwise (ComesBefore cmp)) (hl' : l'.Pairwise (ComesBefore cmp)) : l = l' := by
  apply hperm.eq_of_pairwise _ hl hl'
  intro a b _ _ hab hba
  exact absurd hba hab.asymm

/-- Members that arrive at different places are never in each other's place. -/
theorem comesBefore_of_zipIdxLE [OrientedCmp cmp] {a b : α × Nat} (hne : a.2 ≠ b.2)
    (h : List.zipIdxLE (fun x y => (cmp x y).isLE) a b = true) : ComesBefore cmp a b := by
  have hswap : cmp a.1 b.1 = (cmp b.1 a.1).swap := OrientedCmp.eq_swap
  rw [List.zipIdxLE] at h
  split at h
  · next hle =>
    rcases Ordering.isLE_iff_eq_lt_or_eq_eq.1 hle with hlt | heq
    · exact .inl hlt
    · rw [heq] at hswap
      have hback : cmp b.1 a.1 = .eq := Ordering.swap_eq_eq.1 hswap.symm
      rw [if_pos (by rw [hback]; rfl)] at h
      exact .inr ⟨heq, Nat.lt_of_le_of_ne (of_decide_eq_true h) hne⟩
  · cases h

/-- The sorted list, with the place at which each member arrived. -/
def sortedPlaces (cmp : α → α → Ordering) (l : List α) : List (α × Nat) :=
  l.zipIdx.mergeSort (List.zipIdxLE fun a b => (cmp a b).isLE)

theorem map_sortedPlaces (l : List α) :
    (sortedPlaces cmp l).map Prod.fst = l.mergeSort fun a b => (cmp a b).isLE :=
  List.mergeSort_zipIdx

theorem perm_sortedPlaces (l : List α) : (sortedPlaces cmp l).Perm l.zipIdx :=
  List.mergeSort_perm _ _

theorem pairwise_sortedPlaces [TransCmp cmp] (l : List α) :
    (sortedPlaces cmp l).Pairwise (ComesBefore cmp) := by
  have hordered : (sortedPlaces cmp l).Pairwise
      fun a b => List.zipIdxLE (fun x y => (cmp x y).isLE) a b = true := by
    apply List.pairwise_mergeSort
    · apply List.zipIdxLE_trans
      intro a b c
      exact TransCmp.isLE_trans
    · apply List.zipIdxLE_total
      intro a b
      cases h : cmp a b with
      | gt =>
          rw [OrientedCmp.lt_of_gt h]
          rfl
      | _ => rfl
  have hplaces : ((sortedPlaces cmp l).map Prod.snd).Nodup := by
    rw [((perm_sortedPlaces l).map Prod.snd).nodup_iff, List.zipIdx_map_snd]
    exact List.nodup_range'
  have hapart : (sortedPlaces cmp l).Pairwise fun a b => a.2 ≠ b.2 := List.pairwise_map.1 hplaces
  exact (hordered.and hapart).imp fun h => comesBefore_of_zipIdxLE h.2 h.1

end

namespace Expr

theorem length_evalAll [PatternEngine] {row : Row} {l : List Expr} {values : List Value}
    {known later : Patterns} (h : evalAll row l known = (.ok values, later)) :
    values.length = l.length := by
  induction l generalizing values known with
  | nil =>
      cases h
      rfl
  | cons e l ih =>
      obtain ⟨v, mid, -, h⟩ := bind_eq_ok.1 h
      obtain ⟨rest, last, hrest, h⟩ := bind_eq_ok.1 h
      cases h
      exact congrArg Nat.succ (ih hrest)

end Expr

namespace Sorting

variable [PatternEngine]

/-- Reads the values that a row is sorted by. -/
def read (terms : List OrderingTerm) (row : Row) : Evaluation (List Value × Row) := do
  let keys ← Expr.evalAll row (terms.map (·.expr))
  return (keys, row)

variable {terms : List OrderingTerm} {rows : List Row} {entries : List (List Value × Row)}
  {known later : Patterns}

theorem read_eq_ok {row : Row} {entry : List Value × Row} :
    read terms row known = (.ok entry, later) ↔
      Expr.evalAll row (terms.map (·.expr)) known = (.ok entry.1, later) ∧ entry.2 = row := by
  obtain ⟨values, of⟩ := entry
  rw [read, bind_eq_ok]
  constructor
  · rintro ⟨keys, mid, hkeys, h⟩
    cases h
    exact ⟨hkeys, rfl⟩
  · rintro ⟨hkeys, rfl⟩
    exact ⟨values, later, hkeys, rfl⟩

theorem mapM_read_cons {row : Row} :
    (row :: rows).mapM (read terms) known = (.ok entries, later) ↔ ∃ entry rest mid,
      read terms row known = (.ok entry, mid) ∧ rows.mapM (read terms) mid = (.ok rest, later) ∧
        entries = entry :: rest := by
  rw [List.mapM_cons, bind_eq_ok]
  constructor
  · rintro ⟨entry, mid, hentry, h⟩
    obtain ⟨rest, last, hrest, h⟩ := bind_eq_ok.1 h
    cases h
    exact ⟨entry, rest, mid, hentry, hrest, rfl⟩
  · rintro ⟨entry, rest, mid, hentry, hrest, rfl⟩
    exact ⟨entry, mid, hentry, bind_eq_ok.2 ⟨rest, later, hrest, rfl⟩⟩

theorem rows_of_mapM_read (h : rows.mapM (read terms) known = (.ok entries, later)) :
    entries.map Prod.snd = rows ∧ ∀ entry ∈ entries, entry.1.length = terms.length := by
  induction rows generalizing entries known with
  | nil =>
      cases h
      exact ⟨rfl, nofun⟩
  | cons row rows ih =>
      obtain ⟨entry, rest, mid, hentry, hrest, rfl⟩ := mapM_read_cons.1 h
      obtain ⟨hkeys, hrow⟩ := read_eq_ok.1 hentry
      obtain ⟨hrows, hlengths⟩ := ih hrest
      constructor
      · rw [List.map_cons, hrow, hrows]
      · apply List.forall_mem_cons.2 ⟨_, hlengths⟩
        rw [Expr.length_evalAll hkeys, List.length_map]

omit [PatternEngine] in
/-- Sorting entries by their keys is sorting them with the places at which they arrived. -/
theorem exists_sorted (h : ∀ entry ∈ entries, entry.1.length = terms.length) :
    ∃ sorted : List ((List Value × Row) × Nat),
      sorted.map Prod.fst =
        entries.mergeSort (fun a b => (compareKeys terms a.1 b.1).isLE) ∧
      sorted.Perm entries.zipIdx ∧
      sorted.Pairwise (ComesBefore fun a b => compareKeys terms a.1 b.1) := by
  -- Only lists with one value for each term are compared by a preorder.
  let Entry := { entry : List Value × Row // entry.1.length = terms.length }
  let cmp (a b : Entry) : Ordering := compareKeys terms a.1.1 b.1.1
  have hcmp : TransCmp cmp :=
    @transCmp_comap Entry (Keys terms) _ (fun a => ⟨a.1.1, a.2⟩) (Keys.transCmp_compareKeys terms)
  let whole : List Entry := entries.attachWith _ h
  have hwhole : whole.map Subtype.val = entries := List.attachWith_map_subtype_val h
  refine ⟨(sortedPlaces cmp whole).map (Prod.map Subtype.val id), ?_, ?_, ?_⟩
  · calc ((sortedPlaces cmp whole).map (Prod.map Subtype.val id)).map Prod.fst
        = ((sortedPlaces cmp whole).map Prod.fst).map Subtype.val := by
          rw [List.map_map, List.map_map]
          rfl
      _ = (whole.mergeSort fun a b => (cmp a b).isLE).map Subtype.val := by
          rw [map_sortedPlaces]
      _ = (whole.map Subtype.val).mergeSort
            fun a b => (compareKeys terms a.1 b.1).isLE :=
          List.map_mergeSort fun _ _ _ _ => rfl
      _ = _ := by rw [hwhole]
  · calc ((sortedPlaces cmp whole).map (Prod.map Subtype.val id)).Perm
          (whole.zipIdx.map (Prod.map Subtype.val id)) := (perm_sortedPlaces whole).map _
      _ = entries.zipIdx := by rw [← List.zipIdx_map, hwhole]
  · exact List.pairwise_map.2 (@pairwise_sortedPlaces Entry cmp hcmp whole)

end Sorting

namespace Stage

theorem feed_sort [PatternEngine] {s : Sorting} {rows : List Row}
    {entries : List (List Value × Row)} {known later : Patterns}
    (h : rows.mapM (Sorting.read s.terms) known = (.ok entries, later)) :
    (sort s).feed rows known =
      (.ok [], sort { s with buffer := s.buffer ++ entries.toArray }, later) := by
  induction rows generalizing s entries known with
  | nil =>
      cases h
      simp [feed]
  | cons row rows ih =>
      obtain ⟨⟨keys, arrived⟩, rest, mid, hentry, hrest, rfl⟩ := Sorting.mapM_read_cons.1 h
      obtain ⟨hkeys, rfl : arrived = row⟩ := Sorting.read_eq_ok.1 hentry
      let next : Sorting := { s with buffer := s.buffer.push (keys, arrived) }
      have hnext : s.accept arrived known = (.ok next, mid) :=
        bind_eq_ok.2 ⟨keys, mid, hkeys, rfl⟩
      have haccept : (sort s).accept arrived known = (.ok (sort next, []), mid) :=
        bind_eq_ok.2 ⟨next, mid, hnext, rfl⟩
      rw [feed_cons_of_ok haccept]
      simp only [ih (s := next) hrest]
      simp [next]
      rfl

/-- A sorting takes rows in without passing any on, and passes all of them on at the end, in the
only order in which each comes before the ones behind it. -/
theorem sort_stably [PatternEngine] {terms : List OrderingTerm} {rows : List Row}
    {entries : List (List Value × Row)} {known later : Patterns}
    (hkeys : rows.mapM (Sorting.read terms) known = (.ok entries, later)) :
    entries.map Prod.snd = rows ∧
    ∃ held, (sort { terms }).feed rows known = (.ok [], held, later) ∧
      ∃ sorted : List ((List Value × Row) × Nat),
        held.finish = (sort { terms }, sorted.map (·.1.2)) ∧
        sorted.Perm entries.zipIdx ∧
        sorted.Pairwise (ComesBefore fun a b => Sorting.compareKeys terms a.1 b.1) ∧
        ∀ other : List ((List Value × Row) × Nat), other.Perm entries.zipIdx →
          other.Pairwise (ComesBefore fun a b => Sorting.compareKeys terms a.1 b.1) →
            other = sorted := by
  obtain ⟨hrows, hlengths⟩ := Sorting.rows_of_mapM_read hkeys
  obtain ⟨sorted, hsorted, hperm, hordered⟩ := Sorting.exists_sorted hlengths
  have horiented : OrientedCmp fun a b : List Value × Row => Sorting.compareKeys terms a.1 b.1 :=
    ⟨Sorting.compareKeys_swap terms _ _⟩
  refine ⟨hrows, _, feed_sort hkeys, sorted, ?_, hperm, hordered, ?_⟩
  · have hpassed : entries.mergeSort (fun a b => (Sorting.compareKeys terms a.1 b.1).isLE) =
        sorted.map Prod.fst := hsorted.symm
    simp only [finish, Sorting.rows, Sorting.reset, Array.empty_append, hpassed, List.map_map]
    rfl
  · intro other hother hpairwise
    exact ComesBefore.unique (hother.trans hperm.symm) hpairwise hordered

/-- Downwards, `b` comes before `a`, and rows with the same key stay in the order of `n`. -/
theorem sort_stably_downwards :
    let row (k n : String) : Row := .ofList [("k", .text k), ("n", .text n)]
    let terms : List OrderingTerm := [⟨.identifier "k", .descending⟩]
    let rows := [row "a" "1", row "b" "2", row "a" "3", row "b" "4"]
    ∃ held, (sort { terms }).feed rows ∅ = (.ok [], held, ∅) ∧
      held.finish = (sort { terms }, [row "b" "2", row "b" "4", row "a" "1", row "a" "3"]) := by
  intro row terms rows
  let entry (k n : String) : List Value × Row := ([.text k], row k n)
  have hkeys : rows.mapM (Sorting.read terms) ∅ =
      (.ok [entry "a" "1", entry "b" "2", entry "a" "3", entry "b" "4"], ∅) := rfl
  obtain ⟨-, held, hfeed, sorted, hfinish, -, -, hunique⟩ := sort_stably hkeys
  have hsorted := hunique [(entry "b" "2", 1), (entry "b" "4", 3), (entry "a" "1", 0),
    (entry "a" "3", 2)] (by decide +kernel) (by decide +kernel)
  refine ⟨held, hfeed, ?_⟩
  rw [hfinish, ← hsorted]
  rfl

end Stage

end TableQuery
