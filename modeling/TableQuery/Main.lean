import TableQuery.Invocation

/-! # Command line

Files are read from where the program runs. A session is held line by line. -/

namespace TableQuery.CommandLine

/-- Why the system does not open a file. -/
def openError : IO.Error → OpenError
  | .noFileOrDirectory _ _ _ => .notFound
  | .inappropriateType _ 20 _ => .notDirectory
  | .noSuchThing _ code description => .refused description code.toNat
  | .permissionDenied _ code description => .refused description code.toNat
  | .resourceExhausted _ code description => .refused description code.toNat
  | .invalidArgument _ 36 _ => .nameTooLong
  | .invalidArgument _ code description => .refused description code.toNat
  | e => .refused (toString e) 0

/-- Reads a file. -/
def readFile : FileReader IO := fun name => do
  if name.toList.contains '\x00' then return .error (.cannotOpen name .nulInName)
  match ← (IO.FS.Handle.mk name .read).toBaseIO with
  | .error e => return .error (.cannotOpen name (openError e))
  | .ok file =>
    match ← file.readBinToEnd.toBaseIO with
    | .error _ => return .error (.table .isDirectory)
    | .ok content => return .ok content.data.toList

/-- Prints a transcript. -/
def printTranscript (t : Transcript) : IO Unit := do
  let out ← IO.getStdout
  out.write ⟨t.out⟩
  out.flush
  (← IO.getStderr).putStr t.err

/-- Reads a line with the line feed that ends it. -/
partial def readLine (input : IO.FS.Stream) (line : ByteArray) : IO ByteArray := do
  let byte ← input.read 1
  let line := line ++ byte
  if byte.isEmpty || byte == ⟨#[10]⟩ then return line else readLine input line

/-- Holds a session. -/
partial def hold (input : IO.FS.Stream) (session : Session) : IO Unit := do
  let line ← readLine input .empty
  if line.isEmpty then return
  match Text.decode line.data.toList with
  | .error _ => printTranscript (← Session.Action.perform readFile (.complain .unreadable))
  | .ok line =>
    let (actions, next) := session.take line
    for action in actions do
      printTranscript (← action.perform readFile)
    match next with
    | none => return
    | some session => hold input session

/-- How the program is used. -/
def usage : String := "Usage: tablequery [-d <DELIMITER>] [--no-headers] [QUERY]\n"

/-- Runs the program on its arguments. -/
def run (args : List String) : IO UInt32 := do
  match Invocation.ofArguments? args with
  | none =>
    (← IO.getStderr).putStr usage
    return 2
  | some i =>
    if i.query.isSome then
      let exit ← i.run readFile []
      printTranscript exit.transcript
      return exit.code.toUInt32
    else
      hold (← IO.getStdin) { format := i.format }
      return 0

end TableQuery.CommandLine

/-- The program. -/
def main (args : List String) : IO UInt32 :=
  TableQuery.CommandLine.run args
