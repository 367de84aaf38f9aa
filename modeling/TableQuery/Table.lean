import TableQuery.Row
import TableQuery.Table.Record
import TableQuery.Text.Utf8

/-! # Tables

A table is read from a delimited file. The first record names the columns; every other record
is a row of texts, unless it has another number of fields or is no valid text. A record that is
no row is an error in its place, and the records behind it are read all the same. -/

namespace TableQuery

namespace Record

/-- Reads the fields of a record, from the one with the given number on. -/
def decodeFrom (position : RecordPosition) :
    Nat → List (List UInt8) → Except TableError (List String)
  | _, [] => .ok []
  | i, field :: rest =>
    match Text.decode field with
    | .error valid => .error (.invalidText position i valid)
    | .ok s => (decodeFrom position (i + 1) rest).map (s :: ·)

/-- The fields of a record as texts. -/
def texts (r : Record) : Except TableError (List String) :=
  decodeFrom r.position 0 r.fields

/-- The fields of a record as texts, if there are as many as there should be. -/
def textsOf (count : Nat) (r : Record) : Except TableError (List String) :=
  if r.fields.length = count then r.texts
  else .error (.unevenRecord r.position count r.fields.length)

end Record

/-- A table. -/
structure Table where
  /-- The names of the columns, as they stand in the file. -/
  columns : List String
  /-- The rows. -/
  rows : List (Except TableError Row)

namespace Table

/-- The row with the given texts under the names of the columns. -/
def row (columns texts : List String) : Row :=
  .ofList (columns.zip (texts.map .text))

/-- The table that records form. -/
def ofRecords : List Record → Except TableError Table
  | [] => .ok ⟨[], []⟩
  | header :: records => do
    let columns ← header.texts
    return ⟨columns, records.map fun r => (r.textsOf columns.length).map (row columns)⟩

/-- The table in a file. -/
def ofBytes (d : Delimiter) (bytes : List UInt8) : Except TableError Table :=
  ofRecords (Record.ofBytes d bytes)

/-- The rows as the source of a query. -/
def source (t : Table) : List (Except Error Row) :=
  t.rows.map (·.mapError .table)

end Table

end TableQuery
