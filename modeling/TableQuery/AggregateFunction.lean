import TableQuery.Text.LetterCase
import TableQuery.Value

/-! # Aggregate functions

An aggregate function folds the values of a group into one. `AggregateFunction.reduce` takes one
more value into account, starting from `AggregateFunction.initial`. -/

namespace TableQuery

/-- The identity of an aggregate: equal for calls of one function on equal arguments. -/
structure AggregateId where
  /-- The identity as a machine word. -/
  code : UInt64
deriving DecidableEq

/-- A function of all values of a group. -/
inductive AggregateFunction where
  | count | min | max | sum | groupConcat
deriving DecidableEq, Repr

namespace AggregateFunction

/-- All aggregate functions. -/
def all : List AggregateFunction := [count, min, max, sum, groupConcat]

/-- The name in uppercase. -/
def name : AggregateFunction → String
  | count => "COUNT"
  | min => "MIN"
  | max => "MAX"
  | sum => "SUM"
  | groupConcat => "GROUP_CONCAT"

/-- The function with a name, in any case of its letters. -/
def ofName? (name : String) : Option AggregateFunction :=
  all.find? (·.name == Text.asciiUpper name)

/-- The value on no values. -/
def initial : AggregateFunction → Value
  | count => .number (Number.ofNat 0)
  | _ => .null

/-- Keeps the better one of the accumulated number and a candidate. NULL and what is no number
is no candidate. -/
def extremum (better : Number → Number → Bool) (acc v : Value) : Value :=
  if v.isNull then acc
  else match v.number? with
    | none => acc
    | some candidate =>
      if acc.isNull || better candidate acc.toNumber then .number candidate else acc

/-- Takes one more value into account. NULL is neither counted nor compared nor joined on, and
adds zero to a sum. -/
def reduce : AggregateFunction → (acc v : Value) → Value
  | count, acc, v => .number (if v.isNull then acc.toNumber else acc.toNumber + Number.ofNat 1)
  | min, acc, v => extremum Number.less acc v
  | max, acc, v => extremum (fun candidate current => current.less candidate) acc v
  | sum, acc, v => .number (acc.toNumber + v.toNumber)
  | groupConcat, acc, v => if v.isNull then acc else .text (acc.toText ++ v.toText)

/-- The value on the values of a group, in order. -/
def fold (f : AggregateFunction) (values : List Value) : Value :=
  values.foldl f.reduce f.initial

end AggregateFunction

end TableQuery
