import TableQuery.Error
import TableQuery.Operator
import TableQuery.Token

/-! # Parsing tokens

A parser takes tokens off the front of a list. It answers with a value and the tokens that are
left, or fails with what it expected and the tokens it stood at.

Lists end at the first item that does not parse: the parser then stands behind the last complete
item. Only two failures are never the end of a list, exceeding the nesting limit and a symbol
that no operator has. -/

namespace TableQuery

/-- What a parser could not accept. -/
inductive Parser.Refusal where
  /-- Another token than an expected one. -/
  | unexpected (expected : Expectation)
  /-- An operator with an unknown symbol. -/
  | unknownOperator
deriving DecidableEq, Repr

/-- A refusal and the tokens at which it happened. -/
structure Parser.Failure where
  /-- What was refused. -/
  refusal : Parser.Refusal
  /-- The tokens from the refused one on. -/
  rest : List Token
deriving DecidableEq

/-- A parser of values of type `α`: a function from tokens to an answer and the tokens left. -/
abbrev Parser (α : Type) := StateT (List Token) (Except Parser.Failure) α

namespace Parser

variable {α β : Type}

/-- What is reported as found where the tokens have ended. -/
def endMark : String := "(end of input)"

namespace Failure

/-- The text reported as found. At the end of a query these are all tokens that are left. -/
def found (f : Failure) : String :=
  match f.refusal, f.rest with
  | .unexpected .endOfInput, rest => " ".intercalate (rest.map (·.text))
  | _, [] => endMark
  | _, t :: _ => t.text

/-- The failure as an error. -/
def toError (f : Failure) : Error :=
  match f.refusal with
  | .unexpected expected => .unexpected expected f.found
  | .unknownOperator => .unknownOperator f.found

/-- Whether a list of items ends where an item fails like this. -/
def endsList (f : Failure) : Bool :=
  match f.refusal with
  | .unexpected expected => expected != .shallowerExpression
  | .unknownOperator => false

end Failure

/-- Fails at the tokens it is given. -/
def expected (what : Expectation) : Parser α := fun s => .error ⟨.unexpected what, s⟩

/-- Takes a token that satisfies `p`, or fails. -/
def token (what : Expectation) (p : Token → Bool) : Parser Token
  | t :: rest => if p t then .ok (t, rest) else .error ⟨.unexpected what, t :: rest⟩
  | [] => .error ⟨.unexpected what, []⟩

/-- Takes a keyword, or fails. -/
def keyword (word : String) : Parser Token :=
  token (.keyword word) (·.isKeyword word)

/-- Takes the next token if it satisfies `p`, and answers whether it does. -/
def accept (p : Token → Bool) : Parser Bool
  | t :: rest => .ok (if p t then (true, rest) else (false, t :: rest))
  | [] => .ok (false, [])

/-- Takes the next token if it is the given keyword, and answers whether it is. -/
def acceptKeyword (word : String) : Parser Bool :=
  accept (·.isKeyword word)

/-- Whether the next token is the given keyword; takes nothing. -/
def atKeyword (word : String) : Parser Bool
  | t :: rest => .ok (t.isKeyword word, t :: rest)
  | [] => .ok (false, [])

/-- Runs a parser behind a keyword; answers `none` where the keyword is missing. -/
def clause (word : String) (p : Parser α) : Parser (Option α) := do
  if ← acceptKeyword word then return some (← p) else return none

section Lists

/-- Whether the items of a list stand apart by commas. -/
inductive Separator where
  | comma
  | nothing
deriving DecidableEq

/-- The tokens after a separator, if one stands at the front. -/
def Separator.skip? : Separator → List Token → Option (List Token)
  | comma, t :: rest => if t.kind = .comma then some rest else none
  | comma, [] => none
  | nothing, s => some s

/-- Further items of a list, each after a separator. An item takes a token at least, so there
are no more than `bound` of them when that is the number of tokens. -/
def more (item : Parser α) (separator : Separator) : (bound : Nat) → Parser (List α)
  | 0, s => .ok ([], s)
  | bound + 1, s =>
    match separator.skip? s with
    | none => .ok ([], s)
    | some s' =>
      match item s' with
      | .error f => if f.endsList then .ok ([], s) else .error f
      | .ok (a, rest) =>
        match more item separator bound rest with
        | .ok (as, rest) => .ok (a :: as, rest)
        | .error f => .error f

/-- A list of one item or more. -/
def list₁ (item : Parser α) (separator : Separator) : Parser (List α) := do
  let first ← item
  let others ← fun s => more item separator s.length s
  return first :: others

/-- A list of any number of items. -/
def list₀ (item : Parser α) (separator : Separator) : Parser (List α)
  | [] => .ok ([], [])
  | s =>
    match list₁ item separator s with
    | .ok answer => .ok answer
    | .error f => if f.endsList then .ok ([], s) else .error f

end Lists

end Parser

end TableQuery
