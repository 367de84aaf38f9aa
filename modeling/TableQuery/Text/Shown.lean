import TableQuery.Text.HiddenTable

/-! # Texts shown in messages

A text named in a message stands between double quotes. What would not show, or would break the
line, is written as an escape; single quotes stay as they are. -/

namespace TableQuery.Text

/-- The code point in lowercase hexadecimal digits. -/
def hexadecimal (n : Nat) : List Char :=
  Nat.toDigits 16 n

/-- How one character appears in a shown text. -/
def shownChar (c : Char) : List Char :=
  if c = '"' then ['\\', '"']
  else if c = '\\' then ['\\', '\\']
  else if c = '\t' then ['\\', 't']
  else if c = '\n' then ['\\', 'n']
  else if c = '\r' then ['\\', 'r']
  else if c = Char.ofNat 0 then ['\\', '0']
  else if hiddenRanges.contains c then ['\\', 'u', '\x7b'] ++ hexadecimal c.toNat ++ ['\x7d']
  else [c]

/-- The text between double quotes, with escapes for what would not show. -/
def shown (s : String) : String :=
  String.ofList ('"' :: s.toList.flatMap shownChar ++ ['"'])

end TableQuery.Text
