import TableQuery.Error
import TableQuery.Expr.Printer
import TableQuery.Pattern
import TableQuery.Row
import TableQuery.ScalarFunction

/-! # Evaluating expressions

An expression is evaluated on a row. Operands are evaluated from left to right, both of them
also under AND and OR; of a choice only the branches that are reached. The patterns read on the
way are remembered, also when the evaluation fails; LIKE fails over a pattern that is refused. -/

namespace TableQuery

/-- A computation that may fail and remembers patterns either way. -/
abbrev Evaluation (α : Type) := ExceptT Error (StateM Patterns) α

namespace Evaluation

/-- The answer `a`, with no pattern read. -/
def answer {α : Type} (a : α) : Evaluation α := fun known => (.ok a, known)

/-- A failure. -/
def fail {α : Type} (e : Error) : Evaluation α := fun known => (.error e, known)

/-- The value of an option; a failure if there is none. -/
def ofOption {α : Type} (e : Error) : Option α → Evaluation α
  | some a => answer a
  | none => fail e

/-- A check against the patterns that are known, which reads none. -/
def ofCheck (check : Patterns → Except Error Unit) : Evaluation Unit := fun known =>
  (check known, known)

/-- A match against a pattern, which may have to be read. -/
def ofMatch (test : StateM Patterns Bool) : Evaluation Value := fun known =>
  let (holds, known) := test known
  (.ok (.bool holds), known)

end Evaluation

/-- A computation that changes a state on the way and may fail. Behind a failure stands the state
as it was left. -/
abbrev Mutation (σ α : Type) := ExceptT Error (StateM (σ × Patterns)) α

namespace Mutation

variable {σ : Type}

/-- The state. -/
def state : Mutation σ σ := fun (s, known) => (.ok s, (s, known))

/-- Changes the state. -/
def modify (f : σ → σ) : Mutation σ Unit := fun (s, known) => (.ok (), (f s, known))

/-- Evaluates something and leaves the state alone. -/
def eval {α : Type} (m : Evaluation α) : Mutation σ α := fun (s, known) =>
  let (answer, known) := m known
  (answer, (s, known))

end Mutation

variable [PatternEngine]

/-- Applies an operator to values. -/
def Operator.apply (op : Operator) (left right : Value) : Evaluation Value :=
  let x := left.toNumber
  let y := right.toNumber
  match op with
  | equal => pure (.bool (left.looseEq right))
  | unequal | lessOrGreater => pure (.bool (!left.looseEq right))
  | is => pure (.bool ((left.isNull && right.isNull) || left.looseEq right))
  | less => pure (.bool (x.less y))
  | greater => pure (.bool (y.less x))
  | atMost => pure (.bool (x.atMost y))
  | atLeast => pure (.bool (y.atMost x))
  | and => pure (.bool (left.isTruthy && right.isTruthy))
  | or => pure (.bool (left.isTruthy || right.isTruthy))
  | like => do
    .ofCheck (Patterns.check right.toText)
    .ofMatch (Patterns.isMatch right.toText left.toText)
  | add => pure (.number (x + y))
  | subtract => pure (.number (x - y))
  | multiply => pure (.number (x * y))
  | divide => pure (.number (x / y))
  | modulo => pure (.number (x.remainder y))
  | power => pure (.number (Float.pow x y))

namespace Expr

/-- Whether a branch is taken: it equals the subject, or holds where there is none. -/
def isTaken (subject : Option Value) (condition : Value) : Bool :=
  match subject with
  | some v => condition.looseEq v
  | none => condition.isTruthy

mutual

/-- The value of an expression on a row. -/
def eval (row : Row) : Expr → Evaluation Value
  | null => pure .null
  | bool b => pure (.bool b)
  | number value _ => pure (.number value)
  | string s => pure (.text s)
  | star => pure (.text "*")
  | identifier name => .ofOption (.columnNotFound (nameText name)) (row.get? name)
  | call name args => do
    let values ← evalAll row args
    .ofOption (.unknownFunction name) ((ScalarFunction.ofName? name).map (·.apply values))
  | aggregate function argument id =>
    .ofOption (.semantic (.ungrouped (aggregate function argument id).text)) (row.aggregate? id)
  | binary op left right => do
    let left ← left.eval row
    let right ← right.eval row
    op.apply left right
  | case subject branches otherwise => do
    let subject ← evalOption row subject
    match ← evalBranches row subject branches with
    | some v => pure v
    | none => return (← evalOption row otherwise).getD .null
termination_by structural e => e

/-- The values of expressions, from left to right. -/
def evalAll (row : Row) : List Expr → Evaluation (List Value)
  | [] => pure []
  | e :: rest => do
    let v ← e.eval row
    let values ← evalAll row rest
    return v :: values
termination_by structural l => l

/-- The result of the first branch that is taken, if one is. -/
def evalBranches (row : Row) (subject : Option Value) :
    List (Expr × Expr) → Evaluation (Option Value)
  | [] => pure none
  | (condition, result) :: rest => do
    let v ← condition.eval row
    if isTaken subject v then some <$> result.eval row
    else evalBranches row subject rest
termination_by structural l => l

/-- The value of an expression that may be missing. -/
def evalOption (row : Row) : Option Expr → Evaluation (Option Value)
  | none => pure none
  | some e => some <$> e.eval row
termination_by structural o => o

end

end Expr

end TableQuery
