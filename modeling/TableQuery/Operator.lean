/-! # Binary operators

Each operator has a symbol, a precedence and an associativity. Only `=` associates to the
right, so that `a = b = TRUE` reads as `a = (b = TRUE)`. -/

namespace TableQuery

/-- A binary operator. The two spellings of inequality are kept apart. -/
inductive Operator where
  | power | divide | multiply | modulo | add | subtract
  | is | like | atMost | atLeast | less | greater | unequal | lessOrGreater | equal
  | and | or
deriving DecidableEq, Repr

namespace Operator

/-- All operators. -/
def all : List Operator :=
  [power, divide, multiply, modulo, add, subtract, is, like, atMost, atLeast, less, greater,
   unequal, lessOrGreater, equal, and, or]

/-- The symbol, words in uppercase. -/
def symbol : Operator → String
  | power => "^"
  | divide => "/"
  | multiply => "*"
  | modulo => "%"
  | add => "+"
  | subtract => "-"
  | is => "IS"
  | like => "LIKE"
  | atMost => "<="
  | atLeast => ">="
  | less => "<"
  | greater => ">"
  | unequal => "!="
  | lessOrGreater => "<>"
  | equal => "="
  | and => "AND"
  | or => "OR"

/-- The operator with a symbol. -/
def ofSymbol? (symbol : String) : Option Operator :=
  all.find? (·.symbol == symbol)

theorem ofSymbol?_symbol (op : Operator) : ofSymbol? op.symbol = some op := by
  cases op <;> decide

/-- How tightly the operator binds. -/
def precedence : Operator → Nat
  | power => 80
  | divide | multiply | modulo => 70
  | add | subtract => 60
  | is | like | atMost | atLeast | less | greater | unequal | lessOrGreater | equal => 50
  | and => 40
  | or => 30

/-- Whether the operator associates to the right. -/
def associatesRight (op : Operator) : Bool :=
  op == equal

/-- Whether the operator, found after an operand of `control`, takes that operand for itself.
Without a controlling operator it always does. -/
def bindsTighter (op : Operator) (control : Option Operator) : Bool :=
  match control with
  | none => true
  | some control =>
    control.precedence < op.precedence ||
      (control.precedence == op.precedence && control.associatesRight)

end Operator

end TableQuery
