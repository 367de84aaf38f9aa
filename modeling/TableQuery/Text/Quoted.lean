/-! # Quoted literals

A literal stands between two copies of a delimiter. Inside, a backslash takes the next character
as it is. `encodeQuoted` writes a backslash before each delimiter and each backslash;
`decodeQuoted` reads a literal's contents up to its closing delimiter. -/

namespace TableQuery.Text

/-- The contents with a backslash before each delimiter and each backslash. -/
def escapeQuoted (delimiter : Char) (s : List Char) : List Char :=
  s.flatMap fun c => if c = delimiter || c = '\\' then ['\\', c] else [c]

/-- The literal for the text `s`. -/
def encodeQuoted (delimiter : Char) (s : String) : String :=
  String.ofList (delimiter :: escapeQuoted delimiter s.toList ++ [delimiter])

/-- Reads what follows an opening delimiter. The answer is the contents and what comes after
the closing delimiter, or `none` when the delimiter is never closed. -/
def decodeQuoted (delimiter : Char) : List Char → Option (List Char × List Char)
  | [] => none
  | c :: rest =>
    if c = delimiter then some ([], rest)
    else if c = '\\' then
      match rest with
      | [] => none
      | d :: rest => (decodeQuoted delimiter rest).map fun (s, after) => (d :: s, after)
    else (decodeQuoted delimiter rest).map fun (s, after) => (c :: s, after)

end TableQuery.Text
