import TableQuery.Error
import TableQuery.OrderedMap
import TableQuery.Text.Folding

/-! # Patterns

In a pattern `_` stands for one character, `%` for any run of characters, and every other
character for itself in either case. A pattern must cover the whole text.

Patterns are compiled by an engine, which may refuse one, for example because it is too long. This
is all that is left open of an engine: which patterns it refuses, and for what reason.

`Patterns` remembers the patterns that have been read, each under its text. -/

namespace TableQuery

/-- What compiles patterns. -/
class PatternEngine where
  /-- Why the engine refuses a pattern; `none` if it compiles it. -/
  refusal? : String → Option String

/-- The engine that compiles every pattern, which is meant where none is named. -/
instance PatternEngine.unrefusing : PatternEngine := ⟨fun _ => none⟩

namespace Pattern

/-- A piece of a pattern. -/
inductive Piece where
  /-- Any one character. -/
  | one
  /-- Any run of characters, also none. -/
  | run
  /-- A character with the given case folding. -/
  | letter (folded : Char)
deriving DecidableEq, Repr

/-- The piece that a character of a pattern denotes. -/
def Piece.ofChar (c : Char) : Piece :=
  if c = '_' then one else if c = '%' then run else letter (Text.fold c)

end Pattern

/-- The pieces of a pattern, in order. -/
abbrev Pattern := List Pattern.Piece

namespace Pattern

/-- The pattern that a text denotes. -/
def ofText (s : String) : Pattern :=
  s.toList.map Piece.ofChar

/-- Fails where the engine refuses the pattern. -/
def check [engine : PatternEngine] (s : String) : Except Error Unit :=
  match engine.refusal? s with
  | some reason => .error (.semantic (.invalidPattern s reason))
  | none => .ok ()

/-- For each position of the text, the end included, whether the rest of a pattern covers the
text from there on: here for the pattern without pieces. -/
def coverNothing (text : List Char) : List Bool :=
  List.replicate text.length false ++ [true]

/-- The same for a pattern with one more piece in front, from what holds without it. -/
def coverPiece (text : List Char) : Piece → List Bool → List Bool
  | .one, later => later.drop 1 ++ [false]
  | .run, later => later.foldr (fun here found => (here || found.headD false) :: found) []
  | .letter folded, later =>
    List.zipWith (fun c rest => c == folded && rest) text (later.drop 1) ++ [false]

/-- Whether the pattern covers the text, given by its folded characters. -/
def covers (pattern : Pattern) (folded : List Char) : Bool :=
  (pattern.foldr (coverPiece folded) (coverNothing folded)).headD false

/-- Whether the pattern covers the whole text, up to case. -/
def isMatch (pattern : Pattern) (text : String) : Bool :=
  pattern.covers (text.toList.map Text.fold)

end Pattern

/-- The patterns read so far, each under its text. -/
abbrev Patterns := OrderedMap String Pattern

namespace Patterns

/-- Fails where a pattern is not known and the engine refuses it. -/
def check [PatternEngine] (pattern : String) (known : Patterns) : Except Error Unit :=
  if (known.get? pattern).isSome then .ok () else Pattern.check pattern

/-- Matches a text against the pattern that another text denotes, which is read at its first
use. -/
def isMatch (pattern text : String) : StateM Patterns Bool := fun known =>
  match known.get? pattern with
  | some p => (p.isMatch text, known)
  | none =>
    let p := Pattern.ofText pattern
    (p.isMatch text, known.insert pattern p)

end Patterns

end TableQuery
