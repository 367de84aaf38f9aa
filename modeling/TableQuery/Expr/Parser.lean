import TableQuery.Expr
import TableQuery.Parser

/-! # Parsing expressions

Operators are read by precedence climbing: an operand takes every following operator that binds
tighter than the operator before it. No expression may be nested more than 256 deep, counting
both the parser's own nesting and the height of the resulting tree.

## Implementation notes

The nesting that is left is an argument, `room`; every part of the grammar below an expression
takes the parser of nested expressions as an argument. The recursion is structural on `room`,
and each loop is bounded by the number of tokens. -/

namespace TableQuery

namespace Expr

open TableQuery.Parser

/-- The greatest nesting of expressions and the greatest height of a tree. -/
def maxHeight : Nat := 256

/-- An expression with its height. -/
structure Sized where
  /-- The expression. -/
  expr : Expr
  /-- The height. -/
  height : Nat

/-- A parser of an operand: of everything that binds tighter than the given operator. -/
abbrev OperandParser := Option Operator → Parser Sized

/-- An expression with its height, which must not exceed the limit. -/
def sized (expr : Expr) (height : Nat) : Parser Sized :=
  if maxHeight < height then expected .shallowerExpression else pure ⟨expr, height⟩

/-- The operator at the front, if there is one. A star is the multiplication sign. -/
def frontOperator? : List Token → Except Failure (Option Operator)
  | [] => .ok none
  | t :: rest =>
    if t.kind = .star then .ok (some .multiply)
    else if t.kind = .operator then
      match Operator.ofSymbol? t.text with
      | some op => .ok (some op)
      | none => .error ⟨.unknownOperator, t :: rest⟩
    else .ok none

/-- The branches of a choice between two keywords. -/
def branch (nested : OperandParser) : Parser ((Expr × Expr) × Nat) := do
  let _ ← keyword "WHEN"
  let condition ← nested none
  let _ ← keyword "THEN"
  let result ← nested none
  return ((condition.expr, result.expr), max condition.height result.height)

/-- The subject of a choice, missing where a branch comes first. -/
def subject (nested : OperandParser) : Parser (Option Sized) := do
  if ← atKeyword "WHEN" then return none else some <$> nested none

/-- A choice, behind its first keyword. -/
def choice (nested : OperandParser) : Parser Sized := do
  let subject ← subject nested
  let branches ← list₁ (branch nested) .nothing
  let otherwise ← clause "ELSE" (nested none)
  let _ ← keyword "END"
  let heights := subject.toList.map (·.height) ++ branches.map (·.2) ++
    otherwise.toList.map (·.height)
  sized (case (subject.map (·.expr)) (branches.map (·.1)) (otherwise.map (·.expr)))
    (heights.foldl max 0 + 1)

/-- Whether a call counts the rows of a group: the name is COUNT and the next token a star. -/
def countsRows (name : String) : List Token → Bool
  | t :: _ => Text.asciiUpper name == "COUNT" && t.kind == .star
  | [] => false

/-- The arguments of a call, behind the opening parenthesis. -/
def arguments (nested : OperandParser) (name : String) : Parser Sized := do
  if countsRows name (← get) then
    let _ ← token .expression (·.isKind .star)
    let _ ← token .closingParenthesis (·.isKind .closeParenthesis)
    return ⟨ofCall name [star], 2⟩
  else
    let args ← list₀ (nested none) .comma
    let _ ← token .closingParenthesis (·.isKind .closeParenthesis)
    sized (ofCall name (args.map (·.expr))) ((args.map (·.height)).foldl max 0 + 1)

/-- An expression between parentheses, behind the opening one. -/
def group (nested : OperandParser) : Parser Sized := do
  let inner ← nested none
  let _ ← token .closingParenthesis (·.isKind .closeParenthesis)
  return inner

/-- A call or a column, behind its name. -/
def named (nested : OperandParser) (name : String) : Parser Sized := do
  if ← accept (·.isKind .openParenthesis) then arguments nested name
  else return ⟨identifier name, 1⟩

/-- An expression that applies no operator outside of parentheses. -/
def atom (nested : OperandParser) : Parser Sized
  | [] => .error ⟨.unexpected .expression, []⟩
  | t :: rest =>
    match t.kind with
    | .openParenthesis => group nested rest
    | .identifier => named nested t.name rest
    | .number => .ok (⟨number (t.number?.getD (Number.ofNat 0)) t.text, 1⟩, rest)
    | .string => .ok (⟨string t.name, 1⟩, rest)
    | .keyword =>
      if t.text = "TRUE" then .ok (⟨bool true, 1⟩, rest)
      else if t.text = "FALSE" then .ok (⟨bool false, 1⟩, rest)
      else if t.text = "NULL" then .ok (⟨null, 1⟩, rest)
      else if t.text = "CASE" then choice nested rest
      else .error ⟨.unexpected .expression, t :: rest⟩
    | _ => .error ⟨.unexpected .expression, t :: rest⟩

/-- Applies an operator to a left operand and the one that follows it. -/
def applied (nested : OperandParser) (op : Operator) (left : Sized) : Parser Sized := do
  let right ← nested (some op)
  sized (binary op left.expr right.expr) (max left.height right.height + 1)

/-- Applies the operators that follow an operand of `control` to it, as long as they bind
tighter. Each takes a token at least, so `bound` is enough when it is the number of tokens. -/
def operators (nested : OperandParser) (control : Option Operator) :
    (bound : Nat) → Sized → Parser Sized
  | 0, left, s => .ok (left, s)
  | bound + 1, left, s =>
    match frontOperator? s with
    | .error f => .error f
    | .ok none => .ok (left, s)
    | .ok (some op) =>
      if !op.bindsTighter control then .ok (left, s)
      else
        match applied nested op left (s.drop 1) with
        | .error f => .error f
        | .ok (left, rest) => operators nested control bound left rest

/-- Everything that binds tighter than an operator, with `room` levels of nesting left. -/
def operand : (room : Nat) → OperandParser
  | 0, _ => expected .shallowerExpression
  | room + 1, control => do
    let left ← atom (operand room)
    fun s => operators (operand room) control s.length left s

/-- An expression. -/
def parser : Parser Expr :=
  (·.expr) <$> operand maxHeight none

end Expr

end TableQuery
