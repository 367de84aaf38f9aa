import TableQuery.Run
import TableQuery.Table

/-! # Writing tables

Rows are written as records of a delimited file, after a header that names the columns of the
first row. A field is quoted if it contains a quote, the delimiter or a line end, and a record
of no more than one empty field is written as an empty field in quotes, so that it is no empty
line. All records must have as many fields as the first one. -/

namespace TableQuery

/-- How a table is written. -/
structure TableFormat where
  /-- The delimiter, which also separates the fields of a table that is read. -/
  delimiter : Delimiter := .comma
  /-- Whether a header is written. -/
  header : Bool := true
deriving DecidableEq

namespace Record

/-- Whether a field has to be quoted. -/
def needsQuotes (d : Delimiter) (field : List UInt8) : Bool :=
  field.any fun b => b == quoteByte || b == d.byte || isLineEnd b

/-- Writes every quote twice. -/
def doubleQuotes (field : List UInt8) : List UInt8 :=
  field.flatMap fun b => if b = quoteByte then [b, b] else [b]

/-- Writes a field up to its closing quote. -/
def openField (d : Delimiter) (field : List UInt8) : List UInt8 :=
  if needsQuotes d field then quoteByte :: doubleQuotes field else field

/-- Writes the closing quote of a field that is quoted. -/
def closeField (d : Delimiter) (field : List UInt8) : List UInt8 :=
  if needsQuotes d field then [quoteByte] else []

/-- Writes a field. -/
def writeField (d : Delimiter) (field : List UInt8) : List UInt8 :=
  openField d field ++ closeField d field

/-- Writes fields with delimiters between them. The last field is left open: what follows a field
closes it. -/
def openFields (d : Delimiter) : List (List UInt8) → List UInt8
  | [] => []
  | [field] => openField d field
  | field :: rest => writeField d field ++ d.byte :: openFields d rest

/-- Closes the last field. -/
def closeFields (d : Delimiter) (fields : List (List UInt8)) : List UInt8 :=
  fields.getLast?.elim [] (closeField d)

/-- Ends a record whose fields are written: closes the last field and ends the line. -/
def writeEnd (d : Delimiter) (fields : List (List UInt8)) : List UInt8 :=
  if (openFields d fields).isEmpty then [quoteByte, quoteByte, 10] else closeFields d fields ++ [10]

/-- Closed fields are written fields with delimiters between them. -/
theorem openFields_append_closeFields (d : Delimiter) (fields : List (List UInt8)) :
    openFields d fields ++ closeFields d fields =
      List.intercalate [d.byte] (fields.map (writeField d)) := by
  induction fields with
  | nil => rfl
  | cons field rest ih =>
    cases rest with
    | nil => simp [openFields, closeFields, writeField, List.intercalate]
    | cons next rest =>
      have hlast : closeFields d (field :: next :: rest) = closeFields d (next :: rest) := by
        simp [closeFields]
      rw [openFields, hlast, List.append_assoc, List.cons_append, ih]
      · simp [List.intercalate]
      · simp

end Record

/-- A table that is being written. -/
structure TableWriter where
  /-- How it is written. -/
  format : TableFormat
  /-- What is written. -/
  output : Array UInt8 := #[]
  /-- The number of fields of the first record. -/
  width : Option Nat := none
deriving DecidableEq

namespace TableWriter

/-- Writes a record. One of another width than the first is refused where it would end: its
fields stand there with the last one left open, and there is no line end. -/
def writeRecord (texts : List String) (w : TableWriter) : Except TableError Unit × TableWriter :=
  let fields := texts.map Text.encode
  let d := w.format.delimiter
  let w := { w with output := w.output ++ Record.openFields d fields }
  let width := w.width.getD fields.length
  if fields.length = width then
    (.ok (), { w with output := w.output ++ Record.writeEnd d fields, width := some width })
  else (.error (.unevenRow width fields.length), w)

/-- Writes the header, unless there is none or something is written. -/
def writeHeader (columns : List String) (w : TableWriter) :
    Except TableError Unit × TableWriter :=
  if w.format.header && w.width.isNone then w.writeRecord columns else (.ok (), w)

/-- Writes a row. -/
def writeRow (row : Row) (w : TableWriter) : Except TableError Unit × TableWriter :=
  match w.writeHeader row.columns.keys with
  | (.error e, w) => (.error e, w)
  | (.ok (), w) => w.writeRecord (row.columns.values.map Value.field)

/-- The writer as the destination of a query. -/
def sink : Sink TableWriter where
  write row w :=
    let (result, w) := w.writeRow row
    (result.mapError .table, w)

end TableWriter

end TableQuery
