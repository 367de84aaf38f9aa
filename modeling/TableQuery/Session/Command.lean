import TableQuery.Text.Blank
import TableQuery.Text.LetterCase

/-! # Commands of a session

A command is a name that starts with a dot and what stands behind it on its line. Letter case
does not matter. -/

namespace TableQuery.Session

/-- A command. -/
inductive Command where
  /-- Ends the session. -/
  | quit
  /-- Turns headers on or off. -/
  | header (shown : Bool)
  /-- Should turn headers on or off, but does not say which. -/
  | headerUnclear
  /-- Asks for the list of commands. -/
  | help
  /-- There is no command of this name. -/
  | unknown (name : String)
deriving DecidableEq, Repr

namespace Command

/-- Whether a line without white space around it is a command. -/
def isCommand (line : String) : Bool := line.toList.head? == some '.'

/-- The name of a command in lowercase, and its argument. -/
def parts (line : String) : String × String :=
  let (name, rest) := line.toList.span (!Text.isBlank ·)
  (Text.lower (String.ofList name), Text.trim (String.ofList (rest.drop 1)))

/-- The command on a line. -/
def ofText (line : String) : Command :=
  let (name, argument) := parts line
  if name = ".quit" ∨ name = ".exit" then quit
  else if name = ".headers" then
    let setting := Text.lower argument
    if setting = "on" then header true
    else if setting = "off" then header false
    else headerUnclear
  else if name = ".help" then help
  else unknown name

end Command

end TableQuery.Session
