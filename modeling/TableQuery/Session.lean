import TableQuery.Session.Command
import TableQuery.Statement
import TableQuery.Transcript

/-! # Sessions

A session takes lines. A line may be a command; all others are collected until they hold the end
of a statement, and then all statements in them are run. A command is recognised only where
nothing is collected. What is collected at the end of the input is never run.

A session only says what has to be done: `Session.actions` is a list of actions, and
`Action.perform` does one of them. -/

namespace TableQuery

/-- What a session knows between two lines. -/
structure Session where
  /-- The format of tables. -/
  format : TableFormat := {}
  /-- The lines that do not hold the end of a statement yet. -/
  pending : String := ""
deriving DecidableEq

namespace Session

/-- What a session finds fault with. -/
inductive Complaint where
  /-- It is not said whether headers are to be turned on or off. -/
  | headerUnclear
  /-- There is no such command. -/
  | unknownCommand (name : String)
  /-- A line is no text. -/
  | unreadable
deriving DecidableEq, Repr

/-- The complaint in words. -/
def Complaint.message : Complaint → String
  | headerUnclear => "Usage: .headers on|off"
  | unknownCommand name =>
    "Error: unknown command or invalid arguments: \"" ++ name ++
      "\". Enter \".help\" for help"
  | unreadable => "Error reading input: stream did not contain valid UTF-8"

/-- Something to be done in a session. -/
inductive Action where
  /-- Run a statement. -/
  | run (format : TableFormat) (statement : String)
  /-- Show the list of commands. -/
  | help
  /-- Complain. -/
  | complain (c : Complaint)
deriving DecidableEq

/-- Obeys a command: what has to be done, and the session afterwards unless it ends. -/
def obey (s : Session) : Command → List Action × Option Session
  | .quit => ([], none)
  | .header shown => ([], some { s with format := { s.format with header := shown } })
  | .headerUnclear => ([.complain .headerUnclear], some s)
  | .help => ([.help], some s)
  | .unknown name => ([.complain (.unknownCommand name)], some s)

/-- Collects a line, and lets the statements run if it ends one. -/
def collect (s : Session) (line : String) : List Action × Session :=
  let text := s.pending ++ line
  if Statement.isComplete text then
    ((Statement.split text).map (.run s.format), { s with pending := "" })
  else ([], { s with pending := text })

/-- Takes a line: what has to be done, and the session afterwards unless it ends. -/
def take (s : Session) (line : String) : List Action × Option Session :=
  let command := Text.trim line
  if s.pending.isEmpty && Command.isCommand command then s.obey (.ofText command)
  else
    let (actions, s) := s.collect line
    (actions, some s)

/-- What has to be done for lines, of which those that are no texts are missing. The first
missing one ends the session. -/
def actions (s : Session) : List (Option String) → List Action
  | [] => []
  | none :: _ => [.complain .unreadable]
  | some line :: rest =>
    match s.take line with
    | (now, none) => now
    | (now, some s) => now ++ s.actions rest

/-- The lines of an input, each with the line feed that ends it. -/
def lines : List UInt8 → List (List UInt8)
  | [] => []
  | b :: rest =>
    if b = 10 then [b] :: lines rest
    else match lines rest with
      | [] => [[b]]
      | line :: lines => (b :: line) :: lines

/-- The lines make up the input. -/
theorem flatten_lines (input : List UInt8) : (lines input).flatten = input := by
  induction input with
  | nil => rfl
  | cons b rest ih =>
    simp only [lines]
    split
    · simp [ih]
    · split <;> simp_all

/-- What has to be done for an input. -/
def actionsOf (s : Session) (input : List UInt8) : List Action :=
  s.actions ((lines input).map fun line => (Text.decode line).toOption)

end Session

namespace Session.Action

/-- The list of commands. -/
def helpText : String :=
  ".exit                  Exit this program\n" ++
  ".headers on|off        Turn display of headers on or off\n" ++
  ".help                  Show this help\n" ++
  ".quit                  Exit this program\n"

variable [PatternEngine] {m : Type → Type} [Monad m]

/-- Does what an action says. -/
def perform (read : FileReader m) : Action → m Transcript
  | run format statement => Transcript.ofExecution <$> Query.execute read format statement
  | help => pure { out := (Text.encode helpText).toArray }
  | complain c => pure { err := c.message ++ "\n" }

/-- Does what actions say, one after another. -/
def performAll (read : FileReader m) : List Action → m Transcript
  | [] => pure {}
  | action :: rest => do
    let now ← action.perform read
    let later ← performAll read rest
    return now ++ later

end Session.Action

end TableQuery
