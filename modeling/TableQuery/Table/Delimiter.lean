import TableQuery.Text.Shown

/-! # Delimiters

A delimiter is a byte. Written as a text it is one ASCII character; the tab may also be written as
`\t`. -/

namespace TableQuery

/-- The byte between the fields of a record. -/
structure Delimiter where
  /-- The byte. -/
  byte : UInt8
deriving DecidableEq

namespace Delimiter

/-- The comma. -/
def comma : Delimiter := { byte := 44 }

/-- The tab. -/
def tab : Delimiter := { byte := 9 }

instance : Inhabited Delimiter := ⟨comma⟩

/-- The delimiter that a character stands for, if it is ASCII. -/
def ofChar? (c : Char) : Option Delimiter :=
  if c.val < 128 then some ⟨c.val.toUInt8⟩ else none

/-- The delimiter that a text stands for. -/
def ofText? (s : String) : Option Delimiter :=
  match s.toList with
  | ['\\', 't'] => some tab
  | [c] => ofChar? c
  | _ => none

/-- Says why a text stands for no delimiter. -/
def refusal (s : String) : String :=
  "delimiter must be a single ASCII character, got " ++ Text.shown s

end Delimiter

end TableQuery
