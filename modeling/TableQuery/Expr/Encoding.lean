import TableQuery.Expr
import TableQuery.Fingerprint
import TableQuery.Text.Utf8

/-! # Structural encoding of expressions

An expression is encoded in bytes without ambiguity: a tag for each constructor, counts and
lengths before what they count. Numbers are encoded by their bits and aggregates by their
identities, so the spelling of a numeral does not matter.

The identity of an aggregate is a fingerprint of the encoding of its call. -/

namespace TableQuery

/-- The bytes of a machine word, lowest first. -/
def wordBytes (w : UInt64) : List UInt8 :=
  (List.range 8).map fun i => (w >>> (8 * UInt64.ofNat i)).toUInt8

/-- The bytes of a count. -/
def countBytes (n : Nat) : List UInt8 := wordBytes (UInt64.ofNat n)

/-- The length of a text in bytes, then its bytes. -/
def textBytes (s : String) : List UInt8 :=
  countBytes (Text.encode s).length ++ Text.encode s

namespace Expr

mutual

/-- The encoding. -/
def encode : Expr → List UInt8
  | null => [0]
  | bool b => [1, if b then 1 else 0]
  | number value _ => 2 :: wordBytes value.toBits
  | string s => 3 :: textBytes s
  | identifier name => 4 :: textBytes name
  | star => [5]
  | call name args => 6 :: textBytes name ++ countBytes args.length ++ encodeAll args
  | aggregate _ _ id => 7 :: wordBytes id.code
  | binary op left right => 8 :: textBytes op.symbol ++ left.encode ++ right.encode
  | case none branches otherwise =>
    9 :: countBytes branches.length ++ encodeBranches branches ++ encodeOption otherwise
  | case (some subject) branches otherwise =>
    10 :: subject.encode ++ countBytes branches.length ++ encodeBranches branches ++
      encodeOption otherwise
termination_by structural e => e

/-- The encodings of a list of expressions. -/
def encodeAll : List Expr → List UInt8
  | [] => []
  | e :: rest => e.encode ++ encodeAll rest
termination_by structural l => l

/-- The encodings of branches. -/
def encodeBranches : List (Expr × Expr) → List UInt8
  | [] => []
  | (condition, result) :: rest => condition.encode ++ result.encode ++ encodeBranches rest
termination_by structural l => l

/-- The encoding of an expression that may be missing. -/
def encodeOption : Option Expr → List UInt8
  | none => [0]
  | some e => 1 :: e.encode
termination_by structural o => o

end

end Expr

/-- The identity of an aggregate function applied to an argument. -/
def AggregateId.ofCall (function : AggregateFunction) (argument : Expr) : AggregateId :=
  ⟨Fingerprint.ofBytes (Expr.call function.name [argument]).encode⟩

end TableQuery
