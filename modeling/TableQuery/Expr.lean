import TableQuery.AggregateFunction
import TableQuery.Operator

/-! # Expressions

The expressions of the query language. An aggregate is a call of an aggregate function whose
value has been computed for a whole group; a parser never produces one, only the pass that
prepares a query for grouping. -/

namespace TableQuery

/-- An expression. -/
inductive Expr where
  /-- The literal NULL. -/
  | null
  /-- The literals TRUE and FALSE. -/
  | bool (b : Bool)
  /-- A numeral: its value, and its text as written. -/
  | number (value : Number) (text : String)
  /-- A string literal. -/
  | string (s : String)
  /-- The column with the given name. -/
  | identifier (name : String)
  /-- The argument of `COUNT(*)`. -/
  | star
  /-- A call of the function with the given name. -/
  | call (name : String) (args : List Expr)
  /-- The value of an aggregate function on a group. -/
  | aggregate (function : AggregateFunction) (argument : Expr) (id : AggregateId)
  /-- A binary operator applied to two operands. -/
  | binary (op : Operator) (left right : Expr)
  /-- A choice between branches. With a subject, a branch is taken when its first component
  equals the subject; without, when it holds. -/
  | case (subject : Option Expr) (branches : List (Expr × Expr)) (otherwise : Option Expr)

namespace Expr

instance : Inhabited Expr := ⟨null⟩

/-- A call, with the name in uppercase. -/
def ofCall (name : String) (args : List Expr) : Expr :=
  call (Text.asciiUpper name) args

/-- Whether the expression applies a binary operator. -/
def isBinary : Expr → Bool
  | binary .. => true
  | _ => false

mutual

/-- The number of expressions on the longest way down from the root. -/
def height : Expr → Nat
  | call _ args => heightAll args + 1
  | aggregate _ argument _ => argument.height + 1
  | binary _ left right => max left.height right.height + 1
  | case subject branches otherwise =>
    max (heightOption subject) (max (heightBranches branches) (heightOption otherwise)) + 1
  | _ => 1
termination_by structural e => e

/-- The greatest height in a list; zero for no expression. -/
def heightAll : List Expr → Nat
  | [] => 0
  | e :: rest => max e.height (heightAll rest)
termination_by structural l => l

/-- The greatest height in a list of branches; zero for no branch. -/
def heightBranches : List (Expr × Expr) → Nat
  | [] => 0
  | (condition, result) :: rest =>
    max (max condition.height result.height) (heightBranches rest)
termination_by structural l => l

/-- The height of an expression that may be missing. -/
def heightOption : Option Expr → Nat
  | none => 0
  | some e => e.height
termination_by structural o => o

end

mutual

/-- Whether an aggregate occurs, as a call of an aggregate function or already as its value. -/
def hasAggregate : Expr → Bool
  | call name args => (AggregateFunction.ofName? name).isSome || hasAggregateAll args
  | aggregate .. => true
  | binary _ left right => left.hasAggregate || right.hasAggregate
  | case subject branches otherwise =>
    hasAggregateOption subject || hasAggregateBranches branches || hasAggregateOption otherwise
  | _ => false
termination_by structural e => e

/-- Whether an aggregate occurs in a list of expressions. -/
def hasAggregateAll : List Expr → Bool
  | [] => false
  | e :: rest => e.hasAggregate || hasAggregateAll rest
termination_by structural l => l

/-- Whether an aggregate occurs in a list of branches. -/
def hasAggregateBranches : List (Expr × Expr) → Bool
  | [] => false
  | (condition, result) :: rest =>
    condition.hasAggregate || result.hasAggregate || hasAggregateBranches rest
termination_by structural l => l

/-- Whether an aggregate occurs in an expression that may be missing. -/
def hasAggregateOption : Option Expr → Bool
  | none => false
  | some e => e.hasAggregate
termination_by structural o => o

end

end Expr

end TableQuery
