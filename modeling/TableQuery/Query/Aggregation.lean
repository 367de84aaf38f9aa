import TableQuery.Error
import TableQuery.Query.Parser

/-! # Telling aggregates apart

Calls of aggregate functions in the selection, the condition on groups and the ordering become
aggregates, and the distinct ones are collected in the order in which they first occur. In the
clauses that are evaluated row by row they are refused. -/

namespace TableQuery

/-- A computation that collects distinct aggregates and may find one misused. -/
abbrev Collecting (α : Type) := StateT (List Aggregate) (Except SemanticError) α

namespace Aggregate

/-- Adds an aggregate to a list unless one with its identity is there. -/
def addTo (found : List Aggregate) (a : Aggregate) : List Aggregate :=
  if found.any (·.id = a.id) then found else found ++ [a]

/-- Collects an aggregate and answers with its expression. -/
def collect (a : Aggregate) : Collecting Expr := do
  modify (addTo · a)
  return a.toExpr

end Aggregate

/-- The argument of a call of an aggregate function: there must be exactly one, and no
aggregate in it. -/
def AggregateFunction.argument (function : AggregateFunction) (args : List Expr) :
    Except SemanticError Expr :=
  if Expr.hasAggregateAll args then .error .nestedAggregate
  else match args with
    | [argument] => .ok argument
    | _ => .error (.argumentCount function.name args.length)

namespace Expr

mutual

/-- The expression with its calls of aggregate functions made aggregates. -/
def identify : Expr → Collecting Expr
  | call name args =>
    match AggregateFunction.ofName? name with
    | some function => do
      let argument ← function.argument args
      (Aggregate.ofCall function argument).collect
    | none => do
      return call name (← identifyAll args)
  | aggregate function argument id => Aggregate.collect ⟨function, argument, id⟩
  | binary op left right => do
    let left ← left.identify
    let right ← right.identify
    return binary op left right
  | case subject branches otherwise => do
    let subject ← identifyOption subject
    let branches ← identifyBranches branches
    let otherwise ← identifyOption otherwise
    return case subject branches otherwise
  | e => pure e
termination_by structural e => e

/-- Expressions with their aggregates told apart, from left to right. -/
def identifyAll : List Expr → Collecting (List Expr)
  | [] => pure []
  | e :: rest => do
    let e ← e.identify
    let rest ← identifyAll rest
    return e :: rest
termination_by structural l => l

/-- Branches with their aggregates told apart, each condition before its result. -/
def identifyBranches : List (Expr × Expr) → Collecting (List (Expr × Expr))
  | [] => pure []
  | (condition, result) :: rest => do
    let condition ← condition.identify
    let result ← result.identify
    let rest ← identifyBranches rest
    return (condition, result) :: rest
termination_by structural l => l

/-- An expression that may be missing, with its aggregates told apart. -/
def identifyOption : Option Expr → Collecting (Option Expr)
  | none => pure none
  | some e => some <$> e.identify
termination_by structural o => o

end

/-- The expression with its aggregates told apart, and the distinct ones in order. -/
def withAggregates (e : Expr) : Except SemanticError (Expr × List Aggregate) :=
  e.identify []

end Expr

namespace Query

/-- Refuses aggregates in expressions of the named clause. -/
def refuseAggregates (clause : String) (l : List Expr) : Except SemanticError Unit :=
  if Expr.hasAggregateAll l then .error (.misplacedAggregate clause) else .ok ()

/-- The selection with its aggregates told apart. -/
def identifySelection : Selection → Collecting Selection
  | .all => pure .all
  | .columns l => .columns <$> l.mapM fun c => do
    return { c with expr := ← c.expr.identify }

/-- The ordering with its aggregates told apart. -/
def identifyOrdering : Option (List OrderingTerm) → Collecting (Option (List OrderingTerm))
  | none => pure none
  | some l => some <$> l.mapM fun t => do
    return { t with expr := ← t.expr.identify }

/-- The clauses that may use aggregates, with these told apart. -/
def identifyClauses (q : Query) : Collecting Query := do
  let select ← identifySelection q.select
  let having ← Expr.identifyOption q.having
  let orderBy ← identifyOrdering q.orderBy
  return { q with select, having, orderBy }

/-- The query with its aggregates told apart and collected. -/
def identifyAggregates (q : Query) : Except SemanticError Query := do
  refuseAggregates "WHERE" q.condition.toList
  refuseAggregates "GROUP BY" (q.groupBy.getD [])
  let (q, aggregates) ← q.identifyClauses []
  return { q with aggregates }

/-- The query that a text denotes, ready to run. -/
def compile (s : String) : Except Error Query := do
  match (← ofText s).identifyAggregates with
  | .ok q => .ok q
  | .error e => .error (.semantic e)

end Query

end TableQuery
