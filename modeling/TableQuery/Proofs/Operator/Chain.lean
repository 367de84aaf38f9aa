import Mathlib.Data.List.Basic
import TableQuery.Operator

/-!
# Chains of operands and their grouping by levels

A chain is a run of items with a label between each two of them. A chain of operands with
operators between them is grouped level by level: it is cut at the operators of the loosest
level, each piece is grouped by the tighter levels, and the pieces are folded together. Every
level folds to the left but that of `=`, which folds to the right.

## Implementation notes

The comparison operators share one precedence, and only `=` among them associates to the right.
They make two levels: a chain of comparisons is first cut at each `=`.
-/

namespace TableQuery

/-- Items with a label between each two of them. -/
structure Chain (κ α : Type) where
  /-- The first item. -/
  first : α
  /-- The other items, each behind its label. -/
  links : List (κ × α)

namespace Chain

variable {κ κ' α β : Type}

/-- The chain with labels and items replaced by their images. -/
def map (f : κ → κ') (g : α → β) (c : Chain κ α) : Chain κ' β :=
  ⟨g c.first, c.links.map fun l => (f l.1, g l.2)⟩

/-- The items in order. -/
def items (c : Chain κ α) : List α := c.first :: c.links.map Prod.snd

theorem forall_mem_items {c : Chain κ α} {P : α → Prop} :
    (∀ a ∈ c.items, P a) ↔ P c.first ∧ ∀ l ∈ c.links, P l.2 := by
  simp only [items, List.forall_mem_cons, List.forall_mem_map]

@[simp] theorem items_map (f : κ → κ') (g : α → β) (c : Chain κ α) :
    (c.map f g).items = c.items.map g := by
  simp [items, map, Function.comp_def]

/-- The pieces of a chain between the labels that satisfy `p`. -/
def cut (p : κ → Bool) (first : α) : List (κ × α) → Chain κ (Chain κ α)
  | [] => ⟨⟨first, []⟩, []⟩
  | (k, a) :: rest =>
    let later := cut p a rest
    if p k then ⟨⟨first, []⟩, (k, later.first) :: later.links⟩
    else ⟨⟨first, (k, later.first.first) :: later.first.links⟩, later.links⟩

@[simp] theorem first_first_cut (p : κ → Bool) (first : α) (links : List (κ × α)) :
    (cut p first links).first.first = first := by
  cases links with
  | nil => rfl
  | cons l rest => by_cases h : p l.1 <;> simp [cut, h]

/-- A chain without the labels that are looked for is a single piece. -/
theorem cut_eq_single {p : κ → Bool} {links : List (κ × α)} (first : α)
    (h : ∀ l ∈ links, p l.1 = false) : cut p first links = ⟨⟨first, links⟩, []⟩ := by
  induction links generalizing first with
  | nil => rfl
  | cons l rest ih =>
      obtain ⟨k, a⟩ := l
      have hk : p k = false := h _ List.mem_cons_self
      simp [cut, hk, ih a fun l hl => h l (List.mem_cons_of_mem _ hl)]

/-- At a label that is looked for, the pieces before it and the pieces behind it meet. -/
theorem cut_append_cons {p : κ → Bool} {k : κ} (hk : p k = true) (first b : α)
    (pre suf : List (κ × α)) :
    cut p first (pre ++ (k, b) :: suf) =
      ⟨(cut p first pre).first,
        (cut p first pre).links ++ (k, (cut p b suf).first) :: (cut p b suf).links⟩ := by
  induction pre generalizing first with
  | nil => simp [cut, hk]
  | cons l rest ih =>
      obtain ⟨k', a⟩ := l
      by_cases h : p k' <;> simp [cut, h, ih]

/-- The labels inside the pieces are labels of the chain, none of them looked for. -/
theorem mem_links_of_mem_cut {p : κ → Bool} {first : α} {links : List (κ × α)}
    {piece : Chain κ α} (hp : piece ∈ (cut p first links).items) {l : κ × α}
    (hl : l ∈ piece.links) : l ∈ links ∧ p l.1 = false := by
  induction links generalizing first piece with
  | nil =>
      simp only [cut, items, List.map_nil, List.mem_singleton] at hp
      simp [hp] at hl
  | cons l' rest ih =>
      obtain ⟨k, a⟩ := l'
      by_cases h : p k = true
      · simp only [cut, h, if_true, items, List.map_cons, List.mem_cons] at hp
        rcases hp with rfl | hp
        · simp at hl
        · have := ih (List.mem_cons.mpr hp) hl
          exact ⟨List.mem_cons_of_mem _ this.1, this.2⟩
      · have hk : p k = false := by simpa using h
        simp only [cut, hk, Bool.false_eq_true, if_false, items, List.mem_cons] at hp
        rcases hp with rfl | hp
        · rcases List.mem_cons.mp hl with rfl | hl
          · exact ⟨by simp, hk⟩
          · have := ih List.mem_cons_self hl
            exact ⟨List.mem_cons_of_mem _ this.1, this.2⟩
        · have := ih (List.mem_cons_of_mem _ hp) hl
          exact ⟨List.mem_cons_of_mem _ this.1, this.2⟩

/-- The pieces joined again, with the labels at which they were cut. -/
def join (c : Chain κ (Chain κ α)) : Chain κ α :=
  ⟨c.first.first, c.first.links ++ c.links.flatMap fun l => (l.1, l.2.first) :: l.2.links⟩

theorem join_cut (p : κ → Bool) (first : α) (links : List (κ × α)) :
    join (cut p first links) = ⟨first, links⟩ := by
  induction links generalizing first with
  | nil => rfl
  | cons l rest ih =>
      obtain ⟨k, a⟩ := l
      have h := ih a
      simp only [join, first_first_cut, mk.injEq, true_and] at h
      by_cases hk : p k <;> simp [cut, hk, join, h]

end Chain

/-- A grouping of operands: a tree with an operator at each inner node. -/
inductive OperatorTree (α : Type) where
  /-- An operand. -/
  | leaf (a : α)
  /-- An operator with its two operands. -/
  | node (op : Operator) (left right : OperatorTree α)

namespace OperatorTree

variable {α : Type}

/-- The operands and operators from left to right. -/
def inorder : OperatorTree α → Chain Operator α
  | leaf a => ⟨a, []⟩
  | node op left right =>
    ⟨left.inorder.first,
      left.inorder.links ++ (op, right.inorder.first) :: right.inorder.links⟩

theorem items_inorder_node (op : Operator) (left right : OperatorTree α) :
    (node op left right).inorder.items = left.inorder.items ++ right.inorder.items := by
  simp [inorder, Chain.items]

/-- Applies each operator to all that stands before it and the tree behind it. -/
def foldLeft (c : Chain Operator (OperatorTree α)) : OperatorTree α :=
  c.links.foldl (fun left l => node l.1 left l.2) c.first

/-- Applies each operator to the tree before it and all that stands behind it. -/
def foldRight (first : OperatorTree α) : List (Operator × OperatorTree α) → OperatorTree α
  | [] => first
  | (op, t) :: rest => node op first (foldRight t rest)

theorem inorder_foldLeft (c : Chain Operator (OperatorTree α)) :
    (foldLeft c).inorder = (c.map id inorder).join := by
  obtain ⟨first, links⟩ := c
  induction links generalizing first with
  | nil => simp [foldLeft, Chain.map, Chain.join]
  | cons l rest ih =>
      have h := ih (node l.1 first l.2)
      simp only [foldLeft, List.foldl_cons] at h ⊢
      simpa [Chain.map, Chain.join, inorder] using h

theorem inorder_foldRight (first : OperatorTree α) (links : List (Operator × OperatorTree α)) :
    (foldRight first links).inorder =
      ((⟨first, links⟩ : Chain Operator (OperatorTree α)).map id inorder).join := by
  induction links generalizing first with
  | nil => simp [foldRight, Chain.map, Chain.join]
  | cons l rest ih => simp [foldRight, inorder, ih, Chain.map, Chain.join]

end OperatorTree

/-- Operators that bind equally tightly, and the way in which they are folded. -/
structure OperatorLevel where
  /-- The operators. -/
  ops : List Operator
  /-- Whether they are folded to the right. -/
  rightward : Bool := false

namespace OperatorLevel

open OperatorTree

variable {α : Type}

/-- The levels of the language, the loosest first. -/
def all : List OperatorLevel :=
  [{ ops := [.or] }, { ops := [.and] }, { ops := [.equal], rightward := true },
   { ops := [.is, .like, .atMost, .atLeast, .less, .greater, .unequal, .lessOrGreater] },
   { ops := [.add, .subtract] }, { ops := [.multiply, .divide, .modulo] }, { ops := [.power] }]

/-- Folds the trees of the pieces between the operators of a level. -/
def fold (level : OperatorLevel) (c : Chain Operator (OperatorTree α)) : OperatorTree α :=
  if level.rightward then foldRight c.first c.links else foldLeft c

theorem inorder_fold (level : OperatorLevel) (c : Chain Operator (OperatorTree α)) :
    (level.fold c).inorder = (c.map id inorder).join := by
  unfold fold
  split
  · exact inorder_foldRight c.first c.links
  · exact inorder_foldLeft c

/-- Groups a chain by levels, the loosest first. -/
def group : List OperatorLevel → Chain Operator α → OperatorTree α
  | [], c => leaf c.first
  | level :: tighter, c =>
    level.fold ((Chain.cut level.ops.contains c.first c.links).map id (group tighter))

/-- The operators of some levels. -/
def opsOf (levels : List OperatorLevel) : List Operator := levels.flatMap ops

/-- Grouping a chain of operators of the levels neither loses nor moves anything. -/
theorem inorder_group {levels : List OperatorLevel} {c : Chain Operator α}
    (h : ∀ l ∈ c.links, l.1 ∈ opsOf levels) : (group levels c).inorder = c := by
  induction levels generalizing c with
  | nil =>
      obtain ⟨first, links⟩ := c
      have : links = [] := List.eq_nil_iff_forall_not_mem.mpr fun l hl => by
        simpa [opsOf] using h l hl
      simp [group, inorder, this]
  | cons level tighter ih =>
      have hpieces : ∀ piece ∈ (Chain.cut level.ops.contains c.first c.links).items,
          (group tighter piece).inorder = piece := by
        intro piece hp
        apply ih
        intro l hl
        obtain ⟨hmem, hnot⟩ := Chain.mem_links_of_mem_cut hp hl
        have := h l hmem
        simp only [opsOf, List.flatMap_cons, List.mem_append] at this
        exact this.resolve_left (by simpa using hnot)
      obtain ⟨hfirst, hlinks⟩ := Chain.forall_mem_items.mp hpieces
      have hmap : ((Chain.cut level.ops.contains c.first c.links).map id (group tighter)).map id
          inorder = Chain.cut level.ops.contains c.first c.links := by
        simp only [Chain.map, hfirst, List.map_map]
        congr 1
        exact (List.map_congr_left fun l hl => by simp [hlinks l hl]).trans (List.map_id _)
      rw [group, inorder_fold, hmap, Chain.join_cut]

end OperatorLevel

/-- The grouping of a chain by the levels of the language. -/
def Chain.arrange {α : Type} (c : Chain Operator α) : OperatorTree α :=
  OperatorLevel.group OperatorLevel.all c

theorem OperatorLevel.mem_opsOf_all (op : Operator) : op ∈ opsOf all := by
  cases op <;> decide

/-- The grouping keeps every operand and operator in its place. -/
theorem Chain.inorder_arrange {α : Type} (c : Chain Operator α) : c.arrange.inorder = c :=
  OperatorLevel.inorder_group fun l _ => OperatorLevel.mem_opsOf_all l.1

end TableQuery
