import TableQuery.Error
import TableQuery.Table.Delimiter

/-! # Records of a delimited file

A file is cut into records at line ends, which are carriage returns and line feeds, and a record
into fields at the delimiter. A field that starts with a quote is quoted up to the next quote
that stands alone; inside it a quote is written twice, and delimiters and line ends have no
meaning. What follows the closing quote belongs to the field as it stands. Empty lines are no
records.

A scan reads the bytes one by one: `Place.step` says what each of them means. -/

namespace TableQuery

/-- Whether a byte ends a line. -/
def isLineEnd (b : UInt8) : Bool := b == 10 || b == 13

/-- The byte of a quote. -/
def quoteByte : UInt8 := 34

namespace RecordPosition

/-- The position of the first record. -/
def first : RecordPosition := ⟨0, 1, 0⟩

/-- The position behind one more byte. -/
def past (p : RecordPosition) (b : UInt8) : RecordPosition :=
  { p with line := if b = 10 then p.line + 1 else p.line, byte := p.byte + 1 }

/-- The same place as the start of the next record. -/
def next (p : RecordPosition) : RecordPosition :=
  { p with record := p.record + 1 }

end RecordPosition

/-- A record of a file. -/
structure Record where
  /-- Where it starts: behind the line end of the record before it. -/
  position : RecordPosition
  /-- Its fields. -/
  fields : List (List UInt8)
deriving DecidableEq

namespace Record

/-- Where a byte stands. -/
inductive Place where
  /-- Between records. -/
  | between
  /-- At the start of a field. -/
  | start
  /-- In a field, outside quotes. -/
  | plain
  /-- In quotes. -/
  | quoted
  /-- Behind a quote in quotes: it closes them, unless a second one follows. -/
  | closing
deriving DecidableEq, Repr

/-- What a byte does. -/
inductive Effect where
  /-- It has no effect on the field. -/
  | skip
  /-- It belongs to the field. -/
  | keep
  /-- It ends the field. -/
  | endField
  /-- It ends the record. -/
  | endRecord
deriving DecidableEq, Repr

namespace Place

/-- What a byte outside quotes does, and where the next one stands. -/
def stepPlain (d : Delimiter) (b : UInt8) : Effect × Place :=
  if b = d.byte then (.endField, start)
  else if isLineEnd b then (.endRecord, between)
  else (.keep, plain)

/-- What a byte at the start of a field does. -/
def stepStart (d : Delimiter) (b : UInt8) : Effect × Place :=
  if b = quoteByte then (.skip, quoted) else stepPlain d b

/-- What a byte does, and where the next one stands. -/
def step (d : Delimiter) (b : UInt8) : Place → Effect × Place
  | between => if isLineEnd b then (.skip, between) else stepStart d b
  | start => stepStart d b
  | plain => stepPlain d b
  | quoted => if b = quoteByte then (.skip, closing) else (.keep, quoted)
  | closing => if b = quoteByte then (.keep, quoted) else stepPlain d b

end Place

/-- What is known after some bytes of a file. -/
structure Scan where
  /-- The complete records. -/
  records : Array Record := #[]
  /-- The complete fields of the current record. -/
  fields : Array (List UInt8) := #[]
  /-- The current field so far. -/
  field : Array UInt8 := #[]
  /-- Where the next byte stands. -/
  place : Place := .between
  /-- The position of the current record. -/
  start : RecordPosition := .first
  /-- The position of the next byte. -/
  here : RecordPosition := .first

namespace Scan

/-- Ends the current field. -/
def endField (s : Scan) : Scan :=
  { s with fields := s.fields.push s.field.toList, field := #[] }

/-- Ends the current record, whose last field has ended. -/
def endRecord (s : Scan) : Scan :=
  { s with
    records := s.records.push ⟨s.start, s.fields.toList⟩
    fields := #[]
    start := s.here.next
    here := s.here.next }

/-- Lets a byte take its effect. -/
def apply (s : Scan) (b : UInt8) : Effect → Scan
  | .skip => s
  | .keep => { s with field := s.field.push b }
  | .endField => s.endField
  | .endRecord => s.endField.endRecord

/-- Reads a byte. -/
def feed (d : Delimiter) (s : Scan) (b : UInt8) : Scan :=
  let (effect, place) := s.place.step d b
  { s with place, here := s.here.past b }.apply b effect

/-- All records at the end of the file, which ends the current one. -/
def finish (s : Scan) : List Record :=
  match s.place with
  | .between => s.records.toList
  | _ => s.endField.endRecord.records.toList

end Scan

/-- The mark that may stand in front of a text in UTF-8. -/
def byteOrderMark : List UInt8 := [0xef, 0xbb, 0xbf]

/-- The records of a file. A mark in front of them is left out, but counts in positions. -/
def ofBytes (d : Delimiter) (bytes : List UInt8) : List Record :=
  if byteOrderMark.isPrefixOf bytes then
    let here := byteOrderMark.foldl RecordPosition.past .first
    ((bytes.drop byteOrderMark.length).foldl (Scan.feed d) { here }).finish
  else (bytes.foldl (Scan.feed d) {}).finish

end Record

end TableQuery
