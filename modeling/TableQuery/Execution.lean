import TableQuery.Table.Writer

/-! # Executing queries on files

A query reads the table in the file that it names and writes its result as a table of the same
format. Where files come from is left open: they are read by an action of any monad. -/

namespace TableQuery

variable [PatternEngine]

/-- Reads the content of the file with a name. -/
abbrev FileReader (m : Type → Type) := String → m (Except Error (List UInt8))

/-- What is left of an execution. -/
structure Execution where
  /-- Whether it fails. -/
  result : Except Error Unit
  /-- What is written, also by one that fails. -/
  output : Array UInt8 := #[]

namespace Query

/-- Runs a query on the content of a file. -/
def executeOn (q : Query) (format : TableFormat) (content : List UInt8) : Execution :=
  match Table.ofBytes format.delimiter content with
  | .error e => { result := .error (.table e) }
  | .ok table =>
    let outcome := q.run table.source TableWriter.sink { format }
    { result := outcome.result, output := outcome.output.output }

/-- Runs the query that a text denotes. A file is read only for a query without errors. -/
def execute {m : Type → Type} [Monad m] (read : FileReader m) (format : TableFormat)
    (text : String) : m Execution :=
  match compile text with
  | .error e => pure { result := .error e }
  | .ok q => do
    match ← read q.source with
    | .error e => pure { result := .error e }
    | .ok content => pure (q.executeOn format content)

end Query

end TableQuery
