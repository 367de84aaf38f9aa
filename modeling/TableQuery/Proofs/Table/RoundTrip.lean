import TableQuery.Proofs.OrderedMap
import TableQuery.Proofs.Table.Scanning

/-!
# Reading undoes writing

A table that is written with a header is read back with the same columns and the same rows, in
which every value is the text that was written for it. A byte order mark is the one thing that
must not come first, since it would be taken for a mark in front of the file.
-/

namespace TableQuery

/-- A written row as it is read: every value is its text. -/
def Row.asRead (row : Row) : Row :=
  { columns := row.columns.mapValues fun _ v => .text v.field }

variable {names texts : List String} {cells : List (List String)} {row : Row} {rows : List Row}
  {record : Record} {records : List Record} {d : Delimiter} {s : String} {c c' : Char} {b : UInt8}
  {bytes bytes' : List UInt8}

theorem utf8EncodeChar_append_inj
    (h : String.utf8EncodeChar c ++ bytes = String.utf8EncodeChar c' ++ bytes') : c = c' := by
  have hread := congrArg (fun l => l.toByteArray.utf8DecodeChar? 0) h
  simp only [List.toByteArray_append, ByteArray.utf8DecodeChar?_utf8EncodeChar_append] at hread
  exact Option.some.inj hread

theorem utf8EncodeChar_mark : String.utf8EncodeChar '\uFEFF' = Record.byteOrderMark := by
  decide

/-- No character starts with the byte that comes second in the mark. -/
theorem utf8EncodeChar_append_ne : String.utf8EncodeChar c ++ bytes ≠ 0xbb :: bytes' := by
  intro h
  obtain ⟨first, rest, hfirst⟩ := List.exists_cons_of_ne_nil (@String.utf8EncodeChar_ne_nil c)
  have hstarts := @UInt8.isUTF8FirstByte_getElem_zero_utf8EncodeChar c
  simp only [hfirst, List.getElem_cons_zero] at hstarts
  rw [hfirst, List.cons_append] at h
  rw [(List.cons.inj h).1] at hstarts
  exact absurd hstarts (by decide)

namespace Record

/-- A written field starts with a quote or with its first character. An empty one leaves the
start to what stands behind it. -/
theorem writeField_cases (d : Delimiter) (s : String) :
    (∃ rest, writeField d (Text.encode s) = quoteByte :: rest) ∨
      (∃ c rest, s.toList.head? = some c ∧
        writeField d (Text.encode s) = String.utf8EncodeChar c ++ rest) ∨
      writeField d (Text.encode s) = [] := by
  rw [writeField, openField, closeField]
  cases needsQuotes d (Text.encode s) with
  | true => exact .inl ⟨_, rfl⟩
  | false =>
      rw [if_neg Bool.false_ne_true, if_neg Bool.false_ne_true, List.append_nil, Text.encode]
      cases s.toList with
      | nil => exact .inr (.inr rfl)
      | cons c chars => exact .inr (.inl ⟨c, _, rfl, rfl⟩)

theorem writeField_append_ne (hb : b ≠ 0xbb) :
    writeField d (Text.encode s) ++ b :: bytes ≠ 0xbb :: bytes' := by
  intro h
  obtain ⟨rest, hfield⟩ | ⟨c, rest, -, hfield⟩ | hfield := writeField_cases d s
  · rw [hfield] at h
    exact absurd (List.cons.inj h).1 (by decide)
  · rw [hfield, List.append_assoc] at h
    exact utf8EncodeChar_append_ne h
  · rw [hfield] at h
    exact hb (List.cons.inj h).1

/-- A line of texts starts with a byte order mark only where the first text does, whatever byte
the delimiter is. -/
theorem not_mark_prefix_line {texts : List String}
    (hmark : ∀ text ∈ texts.head?, text.toList.head? ≠ some '\uFEFF') :
    ¬byteOrderMark <+: Record.line d (texts.map Text.encode) := by
  rintro ⟨after, h⟩
  have hpair : ¬byteOrderMark ++ after = [quoteByte, quoteByte, 10] := nofun
  cases texts with
  | nil => exact hpair h
  | cons s texts =>
      rw [List.map_cons] at h
      by_cases hempty : Text.encode s :: texts.map Text.encode = [[]]
      · rw [hempty] at h
        exact hpair h
      rw [line_eq (List.cons_ne_nil _ _) hempty] at h
      obtain ⟨b, more, -, hline⟩ := fields_line_eq d (Text.encode s) (texts.map Text.encode)
      obtain ⟨rest, hfield⟩ | ⟨c, rest, hc, hfield⟩ | hfield := writeField_cases d s
      · rw [hline, hfield] at h
        exact absurd (List.cons.inj h).1 (by decide)
      · rw [hline, hfield, ← utf8EncodeChar_mark, List.append_assoc] at h
        exact hmark s rfl (hc.trans (congrArg some (utf8EncodeChar_append_inj h).symm))
      · -- the delimiter comes first, and behind it no byte from inside a character
        cases texts with
        | nil =>
            rw [List.map_nil, List.map_singleton, List.intercalate_singleton, hfield] at h
            cases h
        | cons t texts =>
            obtain ⟨b, more, hb, htail⟩ :=
              fields_line_eq d (Text.encode t) (texts.map Text.encode)
            rw [List.map_cons, List.map_cons, List.map_cons, List.intercalate_cons_cons, hfield,
              ← List.map_cons, List.append_assoc, List.append_assoc, htail] at h
            obtain ⟨hdelimiter, h⟩ := List.cons.inj h
            refine writeField_append_ne ?_ h.symm
            rintro rfl
            obtain hb | hb := hb
            · exact absurd (hdelimiter.trans hb.symm) (by decide)
            · exact absurd hb.1 (by decide)

theorem decodeFrom_map_encode (position : RecordPosition) (i : Nat) (texts : List String) :
    decodeFrom position i (texts.map Text.encode) = .ok texts := by
  induction texts generalizing i with
  | nil => rfl
  | cons text texts ih =>
      rw [List.map_cons, decodeFrom, Text.decode_encode]
      simp only
      rw [ih]
      rfl

theorem texts_of_fields (h : record.fields = texts.map Text.encode) :
    record.texts = .ok texts := by
  rw [Record.texts, h, decodeFrom_map_encode]

end Record

theorem Row.fields_eq (row : Row) :
    row.fields = (row.columns.values.map Value.field).map Text.encode := by
  rw [Row.fields, List.map_map]
  rfl

theorem Row.length_fields (h : row.columns.keys = names) : row.fields.length = names.length := by
  rw [← h, Row.fields, OrderedMap.values, OrderedMap.keys, List.length_map, List.length_map,
    List.length_map]

namespace Table

theorem readRow_of_texts (hlength : texts.length = names.length)
    (h : record.fields = texts.map Text.encode) :
    (record.textsOf names.length).map (Table.row names) = .ok (Table.row names texts) := by
  rw [Record.textsOf, h, List.length_map, if_pos hlength, Record.texts_of_fields h]
  rfl

theorem ofRecords_of_texts (hcells : ∀ texts ∈ cells, texts.length = names.length)
    (h : records.map Record.fields = (names :: cells).map (·.map Text.encode)) :
    ofRecords records = .ok ⟨names, cells.map fun texts => .ok (Table.row names texts)⟩ := by
  obtain ⟨header, rest, rfl, hheader, hrest⟩ := List.map_eq_cons_iff.1 h
  have hrows : (cells.map fun texts => .ok (Table.row names texts)) =
      rest.map fun r => (r.textsOf names.length).map (Table.row names) := by
    have hfields := hrest.symm
    rw [← List.forall₂_eq_eq_eq, List.forall₂_map_left_iff, List.forall₂_map_right_iff] at hfields ⊢
    refine ((List.forall₂_and_left _ _).2 ⟨hcells, hfields⟩).imp ?_
    rintro texts record ⟨hlength, hrecord⟩
    exact (readRow_of_texts hlength hrecord.symm).symm
  rw [ofRecords, Record.texts_of_fields hheader, hrows]
  rfl

/-- Lines of equally many texts are read as a table under the texts of the first line. -/
theorem ofBytes_lines (hnames : names ≠ [])
    (hcells : ∀ texts ∈ cells, texts.length = names.length)
    (hmark : ∀ name ∈ names.head?, name.toList.head? ≠ some '\uFEFF')
    (hquote : d.byte ≠ quoteByte) (hend : isLineEnd d.byte = false) :
    Table.ofBytes d (((names :: cells).map (·.map Text.encode)).flatMap (Record.line d)) =
      .ok ⟨names, cells.map fun texts => .ok (Table.row names texts)⟩ := by
  refine ofRecords_of_texts hcells (Record.fields_ofBytes_lines hquote hend ?_ ?_)
  · rw [List.forall_mem_map]
    intro texts htexts hnil
    have hlength : texts.length = names.length := by
      rcases List.mem_cons.1 htexts with rfl | htexts
      · rfl
      · exact hcells texts htexts
    rw [List.map_eq_nil_iff.1 hnil, List.length_nil] at hlength
    exact hnames (List.length_eq_zero_iff.1 hlength.symm)
  · intro line hline
    cases hline
    exact Record.not_mark_prefix_line hmark

/-- Texts under the names of the columns that they were written for. -/
theorem row_fields (row : Row) :
    Table.row row.columns.keys (row.columns.values.map Value.field) = row.asRead := by
  have hcells : row.columns.keys.zip ((row.columns.values.map Value.field).map Value.text) =
      row.asRead.columns.entries := by
    rw [OrderedMap.keys, OrderedMap.values, List.map_map, List.map_map, List.zip_map']
    rfl
  rw [Table.row, Row.ofList, hcells, OrderedMap.ofList_eq_of_nodup row.asRead.columns.nodup_keys]
  rfl

/-- Rows with the same columns are written as lines of texts, of which the first has the names of
the columns. -/
theorem exists_writeAll_lines (d : Delimiter) (hrows : rows ≠ [])
    (hkeys : ∀ row ∈ rows, row.columns.keys = names) :
    ∃ w : TableWriter,
      TableWriter.sink.writeAll rows { format := { delimiter := d } } = (.ok (), w) ∧
      w.output.toList =
        ((names :: rows.map fun row => row.columns.values.map Value.field).map
          (·.map Text.encode)).flatMap (Record.line d) := by
  obtain ⟨w, hwrite, houtput⟩ := TableWriter.writeAll_start { delimiter := d } hkeys
  have hfields : (rows.map fun row => row.columns.values.map Value.field).map
      (·.map Text.encode) = rows.map Row.fields := by
    rw [List.map_map]
    exact List.map_congr_left fun row _ => row.fields_eq.symm
  refine ⟨w, hwrite, ?_⟩
  rw [houtput, List.isEmpty_eq_false_iff.2 hrows, List.map_cons, hfields]
  rfl

/-- The lines of rows are read back: under the names of the columns, and in every row the texts of
its values. -/
theorem ofBytes_rows (hnames : names ≠ []) (hkeys : ∀ row ∈ rows, row.columns.keys = names)
    (hmark : ∀ name ∈ names.head?, name.toList.head? ≠ some '\uFEFF')
    (hquote : d.byte ≠ quoteByte) (hend : isLineEnd d.byte = false) :
    Table.ofBytes d (((names :: rows.map fun row => row.columns.values.map Value.field).map
        (·.map Text.encode)).flatMap (Record.line d)) =
      .ok ⟨names, rows.map fun row => .ok row.asRead⟩ := by
  have hcells : ∀ texts ∈ rows.map fun row => row.columns.values.map Value.field,
      texts.length = names.length := by
    refine List.forall_mem_map.2 fun row hrow => ?_
    rw [← Row.length_fields (hkeys row hrow), Row.fields_eq]
    exact (List.length_map _).symm
  rw [ofBytes_lines hnames hcells hmark hquote hend, List.map_map]
  congr 2
  refine List.map_congr_left fun row hrow => ?_
  rw [Function.comp_apply, ← hkeys row hrow, row_fields]

/-- Rows with the same columns, written with a header, are read back: the columns have the same
names, and every row holds the texts that were written for its values. -/
theorem ofBytes_written {d : Delimiter} (hrows : rows ≠ []) (hnames : names ≠ [])
    (hkeys : ∀ row ∈ rows, row.columns.keys = names)
    (hmark : ∀ name ∈ names.head?, name.toList.head? ≠ some '\uFEFF')
    (hquote : d.byte ≠ quoteByte) (hend : isLineEnd d.byte = false) :
    ∃ w : TableWriter,
      TableWriter.sink.writeAll rows { format := { delimiter := d } } = (.ok (), w) ∧
      TableWriter.sink.finish w = (.ok (), w) ∧
      Table.ofBytes d w.output.toList = .ok ⟨names, rows.map fun row => .ok row.asRead⟩ := by
  obtain ⟨w, hwrite, hlines⟩ := exists_writeAll_lines d hrows hkeys
  refine ⟨w, hwrite, rfl, ?_⟩
  rw [hlines]
  exact ofBytes_rows hnames hkeys hmark hquote hend

theorem ofBytes_written_special :
    let names := ["", "say \"a\";b"]
    let row := Row.ofList [("", .text "\r\n"), ("say \"a\";b", .text " ")]
    let empty := Row.ofList [("", .text ""), ("say \"a\";b", .null)]
    let d : Delimiter := { byte := 59 }
    ∃ w : TableWriter,
      TableWriter.sink.writeAll [row, empty] { format := { delimiter := d } } = (.ok (), w) ∧
      TableWriter.sink.finish w = (.ok (), w) ∧
      Table.ofBytes d w.output.toList =
        .ok ⟨names, [row, empty].map fun row => .ok row.asRead⟩ := by
  intro names row empty d
  exact ofBytes_written (List.cons_ne_nil _ _) (List.cons_ne_nil _ _) (by decide) (by decide)
    (by decide) (by decide)

end Table

end TableQuery
