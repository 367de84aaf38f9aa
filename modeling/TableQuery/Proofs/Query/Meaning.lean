import TableQuery.Sorting
import TableQuery.Proofs.Evaluation.Transparency
import TableQuery.Proofs.Expr.Aggregates
import TableQuery.Proofs.Grouping.DepthFirst

/-! # The meaning of a query

The meaning of a query on a list of rows, clause by clause and without stages, states, patterns
or identities. It is read off the query as parsed, in which aggregates are still calls: the value
of such a call on a group is its own function folded over its own argument on the rows of the
group, in their order. -/

namespace TableQuery

variable [PatternEngine]

/-- A group of rows, in the order in which they came. A row that is not grouped is a group of its
own. -/
structure Group where
  /-- The first row, which represents the group. -/
  first : Row
  /-- The other rows. -/
  rest : List Row := []

namespace Group

/-- The rows of the group. -/
def rows (g : Group) : List Row := g.first :: g.rest

/-- The group of a list of rows, unless there are none. -/
def ofRows? : List Row → Option Group
  | [] => none
  | first :: rest => some { first, rest }

end Group

/-- The value of an aggregate on rows: its function folded over its argument. -/
def Aggregate.value (rows : List Row) (a : Aggregate) : Except Error Value :=
  a.function.fold <$> rows.mapM fun row => a.argument.value row

namespace Expr

/-- Whether an expression holds on a row. -/
def holds (row : Row) (e : Expr) : Except Error Bool := Value.isTruthy <$> e.value row

/-- The literal that denotes a value. -/
def ofValue : Value → Expr
  | .null => null
  | .bool b => bool b
  | .number n => number n n.text
  | .text s => string s

variable (rows : List Row)

mutual

/-- The expression with each aggregate replaced by its value on rows. -/
def resolve : Expr → Except Error Expr
  | call name args =>
    match Aggregate.ofCall? name args with
    | some a => ofValue <$> a.value rows
    | none => call name <$> resolveAll args
  | aggregate function argument id => ofValue <$> Aggregate.value rows ⟨function, argument, id⟩
  | binary op left right => do
    let left ← left.resolve
    let right ← right.resolve
    return binary op left right
  | case subject branches otherwise => do
    let subject ← resolveOption subject
    let branches ← resolveBranches branches
    let otherwise ← resolveOption otherwise
    return case subject branches otherwise
  | e => .ok e
termination_by structural e => e

/-- A list of expressions with aggregates replaced by their values. -/
def resolveAll : List Expr → Except Error (List Expr)
  | [] => .ok []
  | e :: rest => do
    let e ← e.resolve
    let rest ← resolveAll rest
    return e :: rest
termination_by structural l => l

/-- Branches with aggregates replaced by their values. -/
def resolveBranches : List (Expr × Expr) → Except Error (List (Expr × Expr))
  | [] => .ok []
  | (condition, result) :: rest => do
    let condition ← condition.resolve
    let result ← result.resolve
    let rest ← resolveBranches rest
    return (condition, result) :: rest
termination_by structural l => l

/-- An expression that may be missing, with aggregates replaced by their values. -/
def resolveOption : Option Expr → Except Error (Option Expr)
  | none => .ok none
  | some e => some <$> e.resolve
termination_by structural o => o

end

/-- The texts of keys on a row. -/
def texts (keys : List Expr) (row : Row) : Except Error (List String) :=
  List.map Value.toText <$> keys.mapM (value row)

end Expr

namespace Group

/-- The value of an expression on a group: on its first row, with aggregates of all its rows. -/
def value (g : Group) (e : Expr) : Except Error Value := do
  let e ← e.resolve g.rows
  e.value g.first

/-- Whether an expression holds on a group. -/
def holds (g : Group) (e : Expr) : Except Error Bool := Value.isTruthy <$> g.value e

/-- Rows in groups: one group for each distinct list of key texts, depth first. -/
def ofKeys (keys : List Expr) (rows : List Row) : Except Error (List Group) := do
  let keyed ← rows.mapM fun row => (·, row) <$> Expr.texts keys row
  return (depthFirst keys.length (keyed.map (·.1))).filterMap fun texts =>
    ofRows? ((keyed.filter (·.1 = texts)).map (·.2))

/-- Groups sorted by terms; those that differ on none keep their order. -/
def sort : Option (List OrderingTerm) → List Group → Except Error (List Group)
  | none, groups => .ok groups
  | some terms, groups => do
    let keyed ← groups.mapM fun g => (·, g) <$> terms.mapM fun t => g.value t.expr
    return (keyed.mergeSort fun a b => (Sorting.compareKeys terms a.1 b.1).isLE).map (·.2)

/-- The row of the result for a group: its first row, or the selected columns, named in the order
in which the names first appear, each with the last value given to its name. -/
def output (select : Selection) (g : Group) : Except Error Row :=
  match select with
  | .all => .ok g.first.dropAggregates
  | .columns l => do
    let cells ← l.mapM fun c => (c.name, ·) <$> g.value c.expr
    return { columns := ⟨OrderedMap.lastPairs cells, OrderedMap.nodup_lastPairs cells⟩ }

end Group

/-- The selected expressions. -/
def Selection.exprs : Selection → List Expr
  | all => []
  | columns l => l.map (·.expr)

/-- The members of a list for which a condition holds, if there is one. -/
def keepWhere {α : Type} (holds : α → Expr → Except Error Bool) :
    Option Expr → List α → Except Error (List α)
  | none, l => .ok l
  | some e, l => l.filterM fun a => holds a e

/-- A list without its first members, up to a limit if there is one. -/
def window {α : Type} (offset limit : Option Nat) (l : List α) : List α :=
  let l := l.drop (offset.getD 0)
  match limit with
  | none => l
  | some n => l.take n

namespace Query

/-- The expressions of a query that may use aggregates. -/
def outer (q : Query) : List Expr :=
  q.select.exprs ++ (q.having.toList ++ (q.orderBy.getD []).map (·.expr))

/-- The occurrences of aggregates in a query, in order. -/
def occurrences (q : Query) : List Aggregate := q.outer.flatMap Expr.aggregates

/-- The groups of a query. Without keys and aggregates every row stands for itself; otherwise the
value of every aggregate is asked for on every group. -/
def groups (q : Query) (rows : List Row) : Except Error (List Group) :=
  if q.groupBy.isSome || !q.occurrences.isEmpty then do
    let groups ← Group.ofKeys (q.groupBy.getD []) rows
    let _ ← groups.mapM fun g => q.occurrences.mapM (Aggregate.value g.rows)
    return groups
  else .ok (rows.map fun row => { first := row })

/-- The rows that a query makes of rows, clause by clause. -/
def meaning (q : Query) (rows : List Row) : Except Error (List Row) := do
  let rows ← keepWhere Expr.holds q.condition rows
  let groups ← q.groups rows
  let groups ← keepWhere Group.holds q.having groups
  let groups ← Group.sort q.orderBy groups
  (window q.offset q.limit groups).mapM (Group.output q.select)

end Query

end TableQuery
