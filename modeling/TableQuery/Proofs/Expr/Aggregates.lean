import TableQuery.Query.Aggregation

/-! # The aggregates of an expression

Which aggregates an expression asks for, from left to right, and what the expression becomes when
they are told apart. Telling apart is the collection of the distinct ones in that order. -/

namespace TableQuery

/-- The aggregate that a call stands for: that of a function of a group on its one argument. -/
def Aggregate.ofCall? (name : String) (args : List Expr) : Option Aggregate :=
  match AggregateFunction.ofName? name, args with
  | some function, [argument] => some (ofCall function argument)
  | _, _ => none

namespace Expr

mutual

/-- The occurrences of aggregates in an expression, from left to right. -/
def aggregates : Expr → List Aggregate
  | call name args =>
    match Aggregate.ofCall? name args with
    | some a => [a]
    | none => aggregatesAll args
  | aggregate function argument id => [⟨function, argument, id⟩]
  | binary _ left right => left.aggregates ++ right.aggregates
  | case subject branches otherwise =>
    aggregatesOption subject ++ aggregatesBranches branches ++ aggregatesOption otherwise
  | _ => []
termination_by structural e => e

/-- The occurrences of aggregates in a list of expressions. -/
def aggregatesAll : List Expr → List Aggregate
  | [] => []
  | e :: rest => e.aggregates ++ aggregatesAll rest
termination_by structural l => l

/-- The occurrences of aggregates in branches, those of a condition before those of its
result. -/
def aggregatesBranches : List (Expr × Expr) → List Aggregate
  | [] => []
  | (condition, result) :: rest =>
    condition.aggregates ++ result.aggregates ++ aggregatesBranches rest
termination_by structural l => l

/-- The occurrences of aggregates in an expression that may be missing. -/
def aggregatesOption : Option Expr → List Aggregate
  | none => []
  | some e => e.aggregates
termination_by structural o => o

end

mutual

/-- The expression with its calls of aggregate functions made aggregates. -/
def marked : Expr → Expr
  | call name args =>
    match Aggregate.ofCall? name args with
    | some a => a.toExpr
    | none => call name (markedAll args)
  | binary op left right => binary op left.marked right.marked
  | case subject branches otherwise =>
    case (markedOption subject) (markedBranches branches) (markedOption otherwise)
  | e => e
termination_by structural e => e

/-- A list of expressions, each marked. -/
def markedAll : List Expr → List Expr
  | [] => []
  | e :: rest => e.marked :: markedAll rest
termination_by structural l => l

/-- Branches with conditions and results marked. -/
def markedBranches : List (Expr × Expr) → List (Expr × Expr)
  | [] => []
  | (condition, result) :: rest => (condition.marked, result.marked) :: markedBranches rest
termination_by structural l => l

/-- An expression that may be missing, marked. -/
def markedOption : Option Expr → Option Expr
  | none => none
  | some e => some e.marked
termination_by structural o => o

end

end Expr

namespace Aggregate

theorem ofCall?_eq_none {name : String} (args : List Expr)
    (h : AggregateFunction.ofName? name = none) : ofCall? name args = none := by
  unfold ofCall?
  rw [h]

theorem ofCall?_of_argument {name : String} {function : AggregateFunction} {args : List Expr}
    {argument : Expr} (hname : AggregateFunction.ofName? name = some function)
    (h : function.argument args = .ok argument) :
    ofCall? name args = some (ofCall function argument) := by
  unfold AggregateFunction.argument at h
  split at h
  · cases h
  · split at h
    · cases h
      unfold ofCall?
      rw [hname]
    · cases h

/-- The distinct aggregates of a list, added to those found before. -/
def addAll (found l : List Aggregate) : List Aggregate := l.foldl addTo found

theorem addAll_append (found l₁ l₂ : List Aggregate) :
    addAll found (l₁ ++ l₂) = addAll (addAll found l₁) l₂ :=
  List.foldl_append

theorem mem_addTo {found : List Aggregate} {a b : Aggregate} (h : b ∈ addTo found a) :
    b ∈ found ∨ b = a := by
  rw [addTo] at h
  split at h
  · exact .inl h
  · simpa using h

theorem subset_addTo (found : List Aggregate) (a : Aggregate) : found ⊆ addTo found a := by
  intro b hb
  rw [addTo]
  split
  · exact hb
  · exact List.mem_append_left _ hb

theorem exists_id_mem_addTo (found : List Aggregate) (a : Aggregate) :
    ∃ b ∈ addTo found a, b.id = a.id := by
  rw [addTo]
  split
  · next h => simpa using h
  · exact ⟨a, by simp, rfl⟩

theorem nodup_addTo {found : List Aggregate} (h : (found.map (·.id)).Nodup) (a : Aggregate) :
    ((addTo found a).map (·.id)).Nodup := by
  rw [addTo]
  split
  · exact h
  · next hnew =>
    rw [List.map_append, List.nodup_append]
    refine ⟨h, by simp, ?_⟩
    intro x hx y hy hxy
    obtain ⟨b, hb, rfl⟩ := List.mem_map.1 hx
    simp only [List.map_cons, List.map_nil, List.mem_singleton] at hy
    exact hnew (List.any_eq_true.2 ⟨b, hb, by simpa using hxy.trans hy⟩)

theorem mem_addAll {found l : List Aggregate} {b : Aggregate} (h : b ∈ addAll found l) :
    b ∈ found ∨ b ∈ l := by
  induction l generalizing found with
  | nil => exact .inl h
  | cons a l ih =>
      rcases ih h with hb | hb
      · rcases mem_addTo hb with hb | rfl
        · exact .inl hb
        · exact .inr List.mem_cons_self
      · exact .inr (List.mem_cons_of_mem a hb)

theorem subset_addAll (found l : List Aggregate) : found ⊆ addAll found l := by
  induction l generalizing found with
  | nil => exact fun _ h => h
  | cons a l ih => exact fun b hb => ih (addTo found a) (subset_addTo found a hb)

/-- Every aggregate of the list is found under its identity. -/
theorem exists_id_mem_addAll (found : List Aggregate) {l : List Aggregate} {a : Aggregate}
    (h : a ∈ l) : ∃ b ∈ addAll found l, b.id = a.id := by
  induction l generalizing found with
  | nil => simp at h
  | cons c l ih =>
      rcases List.mem_cons.1 h with rfl | h
      · obtain ⟨b, hb, hid⟩ := exists_id_mem_addTo found a
        exact ⟨b, subset_addAll _ l hb, hid⟩
      · exact ih (addTo found c) h

/-- No identity is found twice. -/
theorem nodup_addAll {found : List Aggregate} (h : (found.map (·.id)).Nodup)
    (l : List Aggregate) : ((addAll found l).map (·.id)).Nodup := by
  induction l generalizing found with
  | nil => exact h
  | cons a l ih => exact ih (nodup_addTo h a)

end Aggregate

/-- A collecting computation answers with `a` and adds the aggregates of `l`. -/
def Collecting.Finds {α : Type} (m : Collecting α) (a : α) (l : List Aggregate) : Prop :=
  ∀ found result, m found = .ok result → result = (a, Aggregate.addAll found l)

namespace Collecting

variable {α β : Type}

theorem Finds.pure (a : α) : Finds (pure a) a [] := by
  intro found result h
  cases h
  rfl

theorem Finds.bind {m : Collecting α} {f : α → Collecting β} {a : α} {b : β}
    {l₁ l₂ : List Aggregate} (hm : m.Finds a l₁) (hf : (f a).Finds b l₂) :
    (m >>= f).Finds b (l₁ ++ l₂) := by
  intro found result h
  change (m found >>= fun p => f p.1 p.2) = .ok result at h
  cases hfirst : m found with
  | error e =>
      rw [hfirst] at h
      cases h
  | ok first =>
      rw [hfirst] at h
      have hresult := hm found first hfirst
      subst hresult
      rw [Aggregate.addAll_append]
      exact hf _ result h

theorem Finds.bind_pure {m : Collecting α} {a : α} {l : List Aggregate} (g : α → β)
    (hm : m.Finds a l) : (m >>= fun x => Pure.pure (g x)).Finds (g a) l := by
  rw [← List.append_nil l]
  exact hm.bind (Finds.pure (g a))

theorem Finds.map {m : Collecting α} {a : α} {l : List Aggregate} (g : α → β)
    (hm : m.Finds a l) : (g <$> m).Finds (g a) l := by
  rw [map_eq_pure_bind]
  exact hm.bind_pure g

/-- A check in front collects nothing. -/
theorem Finds.check {x : Except SemanticError α} {f : α → Collecting β} {b : β}
    {l : List Aggregate} (hf : ∀ a, x = .ok a → (f a).Finds b l) :
    ((liftM x : Collecting α) >>= f).Finds b l := by
  cases x with
  | error e =>
      intro found result h
      cases h
  | ok a => exact hf a rfl

theorem Finds.collect (a : Aggregate) : a.collect.Finds a.toExpr [a] := by
  intro found result h
  cases h
  rfl

end Collecting

namespace Expr

open Collecting

mutual

/-- Telling aggregates apart marks the expression and collects its aggregates in order. -/
theorem identify_finds : ∀ e : Expr, e.identify.Finds e.marked e.aggregates
  | null | bool _ | number _ _ | string _ | identifier _ | star => .pure _
  | aggregate function argument id => .collect ⟨function, argument, id⟩
  | call name args => by
    rw [identify, marked, aggregates]
    cases hname : AggregateFunction.ofName? name with
    | none =>
        rw [Aggregate.ofCall?_eq_none args hname]
        exact (identifyAll_finds args).bind_pure _
    | some function =>
        apply Finds.check
        intro argument hargument
        rw [Aggregate.ofCall?_of_argument hname hargument]
        exact .collect _
  | binary op left right => by
    refine left.identify_finds.bind ?_
    exact right.identify_finds.bind_pure _
  | case subject branches otherwise => by
    rw [aggregates, List.append_assoc]
    refine (identifyOption_finds subject).bind ?_
    refine (identifyBranches_finds branches).bind ?_
    exact (identifyOption_finds otherwise).bind_pure _

theorem identifyAll_finds : ∀ l : List Expr,
    (identifyAll l).Finds (markedAll l) (aggregatesAll l)
  | [] => .pure _
  | e :: rest => by
    refine e.identify_finds.bind ?_
    exact (identifyAll_finds rest).bind_pure _

theorem identifyBranches_finds : ∀ l : List (Expr × Expr),
    (identifyBranches l).Finds (markedBranches l) (aggregatesBranches l)
  | [] => .pure _
  | (condition, result) :: rest => by
    rw [aggregatesBranches, List.append_assoc]
    refine condition.identify_finds.bind ?_
    refine result.identify_finds.bind ?_
    exact (identifyBranches_finds rest).bind_pure _

theorem identifyOption_finds : ∀ o : Option Expr,
    (identifyOption o).Finds (markedOption o) (aggregatesOption o)
  | none => .pure _
  | some e => e.identify_finds.map some

end

end Expr

end TableQuery
