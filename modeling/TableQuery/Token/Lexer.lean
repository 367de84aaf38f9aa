import TableQuery.Error
import TableQuery.Number.Numeral
import TableQuery.Text.Quoted
import TableQuery.Token

/-! # Cutting a text into tokens

`Token.next` reads one token off the front of a text, white space before it aside; it can be
called again on what is left, also after a failure. `Token.ofText` reads them all.

Words, numbers and operators are read as far as they go. A literal in double or single quotes
is a string, one in backticks an identifier. -/

namespace TableQuery.Token

/-- What a reader of tokens finds at the front of a text, and what is left of the text. -/
structure Reading where
  /-- The token, `none` at the end of the text. -/
  answer : Except LexicalError (Option Token)
  /-- The text that is left. After an unclosed literal it starts behind the opening quote; where
  no token starts, nothing is consumed. -/
  rest : List Char

/-- A token and the text after it. -/
def Reading.token (t : Token) (rest : List Char) : Reading := ⟨.ok (some t), rest⟩

/-- The longest numeral at the front: digits, and a point if digits follow it. -/
def splitNumeral (s : List Char) : List Char × List Char :=
  let (whole, rest) := Number.splitDigits s
  match rest with
  | '.' :: d :: after =>
    if d.isDigit then
      let (fraction, after) := Number.splitDigits (d :: after)
      (whole ++ '.' :: fraction, after)
    else (whole, rest)
  | _ => (whole, rest)

/-- The tokens of a single character. -/
def ofChar? : Char → Option Kind
  | '(' => some .openParenthesis
  | ')' => some .closeParenthesis
  | '*' => some .star
  | ',' => some .comma
  | ';' => some .semicolon
  | _ => none

/-- The longest operator at the front that is no word. -/
def splitOperator? : List Char → Option (List Char × List Char)
  | '<' :: '=' :: rest => some (['<', '='], rest)
  | '<' :: '>' :: rest => some (['<', '>'], rest)
  | '>' :: '=' :: rest => some (['>', '='], rest)
  | '!' :: '=' :: rest => some (['!', '='], rest)
  | c :: rest =>
    if ['=', '<', '>', '+', '-', '/', '%', '^'].contains c then some ([c], rest) else none
  | [] => none

/-- The kind of a literal between two copies of the character. -/
def literalKind? : Char → Option Kind
  | '\x22' | '\x27' => some .string
  | '\x60' => some .identifier
  | _ => none

/-- Reads a literal whose opening delimiter is consumed; `rest` is what follows it. -/
def readLiteral (kind : Kind) (delimiter : Char) (rest : List Char) : Reading :=
  match Text.decodeQuoted delimiter rest with
  | some (contents, after) =>
    let written := delimiter :: rest.take (rest.length - after.length)
    .token ⟨kind, String.ofList written, some (.text (String.ofList contents))⟩ after
  | none => ⟨.error .openLiteral, rest⟩

/-- Reads the token that starts with the character `c`, with `rest` after it. -/
def readToken (c : Char) (rest : List Char) : Reading :=
  if isWordStart c then
    .token (ofWord (String.ofList (c :: rest.takeWhile isWordPart))) (rest.dropWhile isWordPart)
  else if c.isDigit then
    let (numeral, after) := splitNumeral (c :: rest)
    .token ⟨.number, String.ofList numeral, some (.number (Number.ofDecimalText numeral))⟩ after
  else match ofChar? c, literalKind? c with
    | some kind, _ => .token ⟨kind, c.toString, none⟩ rest
    | none, some kind => readLiteral kind c rest
    | none, none =>
      match splitOperator? (c :: rest) with
      | some (symbol, after) => .token (operator (String.ofList symbol)) after
      | none => ⟨.error (.stray (String.ofList (c :: rest))), c :: rest⟩

/-- Reads the first token of a text. -/
def next (s : List Char) : Reading :=
  match s.dropWhile Text.isBlank with
  | [] => ⟨.ok none, []⟩
  | c :: rest => readToken c rest

/-- Reads tokens to the end of a text. Each takes a character at least, so a text holds no more
than `bound` of them when it is at most that long. -/
def readAll : (bound : Nat) → List Char → Except LexicalError (List Token)
  | 0, _ => .ok []
  | bound + 1, s =>
    let reading := next s
    match reading.answer with
    | .error e => .error e
    | .ok none => .ok []
    | .ok (some t) => (readAll bound reading.rest).map (t :: ·)

/-- The tokens of a text. -/
def ofText (s : String) : Except LexicalError (List Token) :=
  if s.toList.all Text.isBlank then .error .blank
  else readAll s.toList.length s.toList

end TableQuery.Token
