import TableQuery.Proofs.Operator.Chain

/-!
# The root of a chain of operands

Precedence climbing decides by comparing two operators at a time. An operator is the root of a
chain when it binds no tighter than each operator before it and each one behind it binds tighter
than it does. The grouping by levels then has that operator on top, over the groupings of the
two sides.
-/

namespace TableQuery

namespace Operator

theorem bindsTighter_some {op control : Operator} :
    op.bindsTighter (some control) = true ↔
      control.precedence < op.precedence ∨
        control.precedence = op.precedence ∧ control.associatesRight = true := by
  simp [bindsTighter]

theorem bindsTighter_trans {op middle : Operator} {control : Option Operator}
    (h : op.bindsTighter (some middle) = true) (h' : middle.bindsTighter control = true) :
    op.bindsTighter control = true := by
  cases control with
  | none => rfl
  | some control =>
      rw [bindsTighter_some] at h h' ⊢
      rcases h' with h' | ⟨h', hright⟩
      · left
        omega
      · rw [h']
        exact h.imp_right fun h => ⟨h.1, hright⟩

/-- Between an operator and a looser one every third operator is tighter than the looser or
looser than the tighter one. -/
theorem bindsTighter_or_bindsTighter {op control : Operator} (middle : Operator)
    (h : op.bindsTighter (some control) = true) :
    middle.bindsTighter (some control) = true ∨ op.bindsTighter (some middle) = true := by
  simp only [bindsTighter_some] at h ⊢
  rcases Nat.lt_trichotomy control.precedence middle.precedence with hm | hm | hm
  · exact .inl (.inl hm)
  · rcases h with h | ⟨-, hright⟩
    · exact .inr (.inl (by omega))
    · exact .inl (.inr ⟨hm, hright⟩)
  · exact .inr (.inl (by omega))

/-- Whether an operator stands on top of what is before it and what is behind it. -/
def IsRoot {α : Type} (op : Operator) (before behind : List (Operator × α)) : Prop :=
  (∀ l ∈ before, op.bindsTighter (some l.1) = false) ∧
    ∀ l ∈ behind, l.1.bindsTighter (some op) = true

/-- An operator that does not bind tighter than a root binds no tighter than anything on either
side of it. -/
theorem IsRoot.not_bindsTighter {α : Type} {root op : Operator} {a : α}
    {before behind : List (Operator × α)} (h : root.IsRoot before behind)
    (hop : op.bindsTighter (some root) = false) {l : Operator × α}
    (hl : l ∈ before ++ (root, a) :: behind) : op.bindsTighter (some l.1) = false := by
  rw [Bool.eq_false_iff] at hop ⊢
  intro htight
  rcases List.mem_append.mp hl with hl | hl
  · rcases bindsTighter_or_bindsTighter root htight with hr | hr
    · exact absurd hr (by simp [h.1 l hl])
    · exact hop hr
  · rcases List.mem_cons.mp hl with rfl | hl
    · exact hop htight
    · exact hop (bindsTighter_trans htight (h.2 l hl))

end Operator

namespace OperatorLevel

open OperatorTree

variable {α : Type}

/-- Whether the order of levels is that of precedence, and the direction of each level that of
its operators. -/
def Stratified : List OperatorLevel → Prop
  | [] => True
  | level :: tighter =>
    (∀ op ∈ level.ops, ∀ op' ∈ level.ops, op.bindsTighter (some op') = level.rightward) ∧
    (∀ op ∈ level.ops, ∀ op' ∈ opsOf tighter,
      op'.bindsTighter (some op) = true ∧ op.bindsTighter (some op') = false) ∧
    Stratified tighter

theorem stratified_all : Stratified all := by
  simp only [Stratified, all]
  decide

/-- A level none of whose operators occurs leaves a chain to the tighter levels. -/
theorem group_cons_of_forall_not_mem {level : OperatorLevel} {tighter : List OperatorLevel}
    {first : α} {links : List (Operator × α)} (h : ∀ l ∈ links, l.1 ∉ level.ops) :
    group (level :: tighter) ⟨first, links⟩ = group tighter ⟨first, links⟩ := by
  have hcut := Chain.cut_eq_single (p := level.ops.contains) first
    fun l hl => by simpa using h l hl
  simp [group, hcut, Chain.map, fold, foldLeft, foldRight]

/-- At an operator of a level folded to the left, behind which the level does not occur. -/
theorem group_left_root {level : OperatorLevel} {tighter : List OperatorLevel} {root : Operator}
    {first a : α} {before behind : List (Operator × α)} (hroot : root ∈ level.ops)
    (hleft : level.rightward = false) (h : ∀ l ∈ behind, l.1 ∉ level.ops) :
    group (level :: tighter) ⟨first, before ++ (root, a) :: behind⟩ =
      node root (group (level :: tighter) ⟨first, before⟩) (group tighter ⟨a, behind⟩) := by
  have hcut := Chain.cut_eq_single (p := level.ops.contains) a fun l hl => by simpa using h l hl
  have hp : level.ops.contains root = true := by simpa using hroot
  simp [group, Chain.cut_append_cons hp, hcut, Chain.map, fold, hleft, foldLeft]

/-- At an operator of a level folded to the right, before which the level does not occur. -/
theorem group_right_root {level : OperatorLevel} {tighter : List OperatorLevel} {root : Operator}
    {first a : α} {before behind : List (Operator × α)} (hroot : root ∈ level.ops)
    (hright : level.rightward = true) (h : ∀ l ∈ before, l.1 ∉ level.ops) :
    group (level :: tighter) ⟨first, before ++ (root, a) :: behind⟩ =
      node root (group tighter ⟨first, before⟩) (group (level :: tighter) ⟨a, behind⟩) := by
  have hcut := Chain.cut_eq_single (p := level.ops.contains) first
    fun l hl => by simpa using h l hl
  have hp : level.ops.contains root = true := by simpa using hroot
  simp [group, Chain.cut_append_cons hp, hcut, Chain.map, fold, hright, foldRight]

/-- The grouping of a chain has its root on top. -/
theorem group_root {levels : List OperatorLevel} (hs : Stratified levels) {root : Operator}
    {first a : α} {before behind : List (Operator × α)} (hroot : root.IsRoot before behind)
    (hmem : ∀ l ∈ before ++ (root, a) :: behind, l.1 ∈ opsOf levels) :
    group levels ⟨first, before ++ (root, a) :: behind⟩ =
      node root (group levels ⟨first, before⟩) (group levels ⟨a, behind⟩) := by
  induction levels with
  | nil => exact absurd (hmem (root, a) (by simp)) (by simp [opsOf])
  | cons level tighter ih =>
      obtain ⟨hlevel, horder, hs⟩ := hs
      obtain ⟨hbefore, hbehind⟩ := hroot
      by_cases hr : root ∈ level.ops
      · cases hdir : level.rightward with
        | false =>
            have hno : ∀ l ∈ behind, l.1 ∉ level.ops := fun l hl hl' => by
              simpa [hbehind l hl, hdir] using hlevel l.1 hl' root hr
            rw [group_left_root hr hdir hno, group_cons_of_forall_not_mem hno]
        | true =>
            have hno : ∀ l ∈ before, l.1 ∉ level.ops := fun l hl hl' => by
              simpa [hbefore l hl, hdir] using hlevel root hr l.1 hl'
            rw [group_right_root hr hdir hno, group_cons_of_forall_not_mem hno]
      · -- the root belongs to a tighter level, so this level cannot occur on either side
        have htighter : root ∈ opsOf tighter := by
          have := hmem (root, a) (by simp)
          simp only [opsOf, List.flatMap_cons, List.mem_append] at this
          exact this.resolve_left hr
        have hno : ∀ l ∈ before ++ (root, a) :: behind, l.1 ∉ level.ops := by
          intro l hl hl'
          obtain ⟨hloose, htight⟩ := horder l.1 hl' root htighter
          rcases List.mem_append.mp hl with hl | hl
          · simp [hbefore l hl] at hloose
          · rcases List.mem_cons.mp hl with rfl | hl
            · exact hr hl'
            · simp [hbehind l hl] at htight
        have htail : ∀ l ∈ before ++ (root, a) :: behind, l.1 ∈ opsOf tighter := by
          intro l hl
          have := hmem l hl
          simp only [opsOf, List.flatMap_cons, List.mem_append] at this
          exact this.resolve_left (hno l hl)
        rw [group_cons_of_forall_not_mem hno, ih hs htail,
          group_cons_of_forall_not_mem fun l hl => hno l (by simp [hl]),
          group_cons_of_forall_not_mem fun l hl => hno l (by simp [hl])]

end OperatorLevel

namespace Chain

variable {α : Type}

/-- The grouping of a chain has its root on top, over the groupings of the two sides. -/
theorem arrange_root {root : Operator} {first a : α} {before behind : List (Operator × α)}
    (hroot : root.IsRoot before behind) :
    arrange ⟨first, before ++ (root, a) :: behind⟩ =
      .node root (arrange ⟨first, before⟩) (arrange ⟨a, behind⟩) :=
  OperatorLevel.group_root OperatorLevel.stratified_all hroot
    fun l _ => OperatorLevel.mem_opsOf_all l.1

/-- `a < b = c < d = e` is `(a < b) = ((c < d) = e)`. -/
example : arrange ⟨'a', [(.less, 'b'), (.equal, 'c'), (.less, 'd'), (.equal, 'e')]⟩ =
    .node .equal (.node .less (.leaf 'a') (.leaf 'b'))
      (.node .equal (.node .less (.leaf 'c') (.leaf 'd')) (.leaf 'e')) := rfl

end Chain

end TableQuery
