import TableQuery.Execution

/-! # Transcripts

What a program prints: its output as bytes, and beside it texts that report what went wrong. -/

namespace TableQuery

/-- What a program prints. -/
structure Transcript where
  /-- The output. -/
  out : Array UInt8 := #[]
  /-- What it reports besides. -/
  err : String := ""

namespace Transcript

instance : Append Transcript := ⟨fun s t => ⟨s.out ++ t.out, s.err ++ t.err⟩⟩

/-- The transcript of a run. -/
def ofExecution (e : Execution) : Transcript where
  out := e.output
  err := match e.result with
    | .ok () => ""
    | .error cause => "Error: " ++ cause.message ++ "\n"

end Transcript

end TableQuery
