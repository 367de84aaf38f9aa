import TableQuery.Session

/-! # Invocations

The program is invoked with at most one query, at most one delimiter, behind `-d` or
`--delimiter`, and at most one `--no-headers`. Behind `--` nothing is an option. With a query the
program runs it; without one it holds a session. -/

namespace TableQuery

variable [PatternEngine]

/-- What the arguments of the program say. -/
structure Invocation where
  /-- The query. -/
  query : Option String := none
  /-- The delimiter. -/
  delimiter : Option Delimiter := none
  /-- Whether headers are left out. -/
  noHeader : Bool := false
deriving DecidableEq

namespace Invocation

/-- What an argument is. -/
inductive Argument where
  /-- A query. -/
  | query (text : String)
  /-- The option for the delimiter, perhaps with its value. -/
  | delimiter (value : Option String)
  /-- The option that leaves headers out. -/
  | noHeader
  /-- Everything behind it is no option. -/
  | separator
  /-- Something unknown. -/
  | unknown
deriving DecidableEq, Repr

namespace Argument

/-- The name of a long option, and the value behind its equals sign. -/
def longParts (s : List Char) : String × Option String :=
  let (name, rest) := s.span (· ≠ '=')
  (String.ofList name, match rest with
    | [] => none
    | _ :: value => some (String.ofList value))

/-- What a text is as an argument. -/
def ofText (s : String) : Argument :=
  match s.toList with
  | ['-', '-'] => separator
  | '-' :: '-' :: option =>
    match longParts option with
    | ("delimiter", value) => delimiter value
    | ("no-headers", none) => noHeader
    | _ => unknown
  | ['-', 'd'] => delimiter none
  | '-' :: 'd' :: '=' :: value => delimiter (some (String.ofList value))
  | '-' :: 'd' :: value => delimiter (some (String.ofList value))
  | '-' :: _ :: _ => unknown
  | _ => query s

end Argument

/-- Takes a query, the only one. -/
def withQuery (i : Invocation) (text : String) : Option Invocation :=
  if i.query.isSome then none else some { i with query := some text }

/-- Takes a delimiter, the only one. -/
def withDelimiter (i : Invocation) (text : String) : Option Invocation :=
  if i.delimiter.isSome then none
  else (Delimiter.ofText? text).map fun d => { i with delimiter := some d }

/-- Takes the option that leaves headers out, the only one. -/
def withNoHeader (i : Invocation) : Option Invocation :=
  if i.noHeader then none else some { i with noHeader := true }

/-- Takes arguments that are no options. -/
def takeQueries (i : Invocation) (args : List String) : Option Invocation :=
  args.foldlM withQuery i

/-- Takes arguments. The value of an option is no option itself. -/
def take (i : Invocation) : List String → Option Invocation
  | [] => some i
  | arg :: rest =>
    match Argument.ofText arg with
    | .query text => (i.withQuery text).bind (·.take rest)
    | .noHeader => i.withNoHeader.bind (·.take rest)
    | .delimiter (some value) => (i.withDelimiter value).bind (·.take rest)
    | .delimiter none =>
      match rest with
      | [] => none
      | value :: rest =>
        match Argument.ofText value with
        | .query value => (i.withDelimiter value).bind (·.take rest)
        | _ => none
    | .separator => i.takeQueries rest
    | .unknown => none

/-- What arguments say, unless they are wrong. -/
def ofArguments? (args : List String) : Option Invocation :=
  take {} args

/-- The format of tables. -/
def format (i : Invocation) : TableFormat where
  delimiter := i.delimiter.getD .comma
  header := !i.noHeader

/-- How the program ends. -/
structure Exit where
  /-- The exit code. -/
  code : Nat
  /-- What it prints. -/
  transcript : Transcript

/-- Runs the program on an input. -/
def run {m : Type → Type} [Monad m] (i : Invocation) (read : FileReader m)
    (input : List UInt8) : m Exit := do
  match i.query with
  | some text =>
    let e ← Query.execute read i.format text
    return ⟨if e.result.toBool then 0 else 1, .ofExecution e⟩
  | none =>
    let session : Session := { format := i.format }
    return ⟨0, ← Session.Action.performAll read (session.actionsOf input)⟩

end Invocation

end TableQuery
