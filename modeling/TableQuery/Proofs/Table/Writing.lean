import TableQuery.Table.Writer

/-!
# What is written

Rows with the same columns are accepted one after another, and each of them adds a line to what is
written. The first one is preceded by a line with the names of the columns, if there is a header.
-/

namespace TableQuery

/-- Writes a record and ends it. -/
def Record.line (d : Delimiter) (fields : List (List UInt8)) : List UInt8 :=
  openFields d fields ++ writeEnd d fields

/-- The fields that are written for a row. -/
def Row.fields (row : Row) : List (List UInt8) :=
  row.columns.values.map fun v => Text.encode v.field

namespace TableWriter

/-- The fields that are written for rows with the given columns. -/
def records (w : TableWriter) (names : List String) (rows : List Row) : List (List (List UInt8)) :=
  (if w.format.header && w.width.isNone && !rows.isEmpty then [names.map Text.encode] else []) ++
    rows.map Row.fields

/-- The writer takes records of the given width. -/
def Takes (w : TableWriter) (width : Nat) : Prop := ∀ n ∈ w.width, n = width

/-- The writer after records of the given width. -/
def extend (w : TableWriter) (width : Nat) (records : List (List (List UInt8))) : TableWriter :=
  { w with
    output := w.output ++ records.flatMap (Record.line w.format.delimiter)
    width := if records.isEmpty then w.width else some width }

variable {w : TableWriter} {texts names : List String} {row : Row} {rows : List Row} {n : Nat}
  {front back : List (List (List UInt8))}

theorem append_list_append {α : Type} (a : Array α) (l m : List α) :
    a ++ (l ++ m) = a ++ l ++ m := by
  apply Array.toList_inj.1
  simp

theorem extend_nil : w.extend n [] = w := by
  simp [extend]

theorem extend_append : w.extend n (front ++ back) = (w.extend n front).extend n back := by
  cases front with
  | nil => rw [List.nil_append, extend_nil]
  | cons => cases back <;> simp [extend, append_list_append]

theorem takes_start (format : TableFormat) (n : Nat) : ({ format } : TableWriter).Takes n := by
  intro m hm
  cases hm

theorem Takes.extend (h : w.Takes n) (records : List (List (List UInt8))) :
    (w.extend n records).Takes n := by
  intro m hm
  rw [TableWriter.extend] at hm
  cases records with
  | nil => exact h m hm
  | cons => exact (Option.some.inj hm).symm

theorem writeRecord_of_takes (h : w.Takes texts.length) :
    w.writeRecord texts = (.ok (), w.extend texts.length [texts.map Text.encode]) := by
  have hwidth : w.width.getD texts.length = texts.length := by
    cases hw : w.width with
    | none => rfl
    | some m => exact h m hw
  simp [writeRecord, extend, Record.line, hwidth, append_list_append]

theorem writeRow_of_takes (hrow : row.columns.keys = names) (h : w.Takes names.length) :
    w.writeRow row = (.ok (), w.extend names.length (w.records names [row])) := by
  have hlength : (row.columns.values.map Value.field).length = names.length := by
    rw [← hrow, OrderedMap.values, OrderedMap.keys, List.length_map, List.length_map,
      List.length_map]
  have hfields : (row.columns.values.map Value.field).map Text.encode = row.fields :=
    List.map_map
  have hvalues : ∀ {v : TableWriter}, v.Takes names.length →
      v.writeRecord (row.columns.values.map Value.field) =
        (.ok (), v.extend names.length [row.fields]) := by
    intro v hv
    rw [← hlength] at hv ⊢
    rw [writeRecord_of_takes hv, hfields]
  rw [writeRow, writeHeader, hrow]
  split
  · next e v heq =>
    split at heq
    · rw [writeRecord_of_takes h] at heq
      cases heq
    · cases heq
  · next v heq =>
    split at heq
    · next hheader =>
      rw [writeRecord_of_takes h] at heq
      cases heq
      rw [hvalues (h.extend _), ← extend_append, records, hheader]
      rfl
    · next hheader =>
      cases heq
      rw [hvalues h, records, Bool.eq_false_iff.2 hheader]
      rfl

/-- The header stands in front of the first row only. -/
theorem records_cons : w.records names (row :: rows) =
    w.records names [row] ++ (w.extend n (w.records names [row])).records names rows := by
  have hsome : (w.records names [row]).isEmpty = false := by
    simp [records]
  have hwidth : (w.extend n (w.records names [row])).width = some n := by
    rw [extend, hsome]
    rfl
  have hrest : (w.extend n (w.records names [row])).records names rows = rows.map Row.fields := by
    rw [records, hwidth]
    simp
  rw [hrest]
  simp [records]

/-- Rows with the same columns are written. -/
theorem writeAll_of_takes (hrows : ∀ row ∈ rows, row.columns.keys = names)
    (h : w.Takes names.length) :
    sink.writeAll rows w = (.ok (), w.extend names.length (w.records names rows)) := by
  induction rows generalizing w with
  | nil =>
      have hnone : w.records names [] = [] := by simp [records]
      rw [hnone, extend_nil]
      rfl
  | cons row rows ih =>
      obtain ⟨hrow, hrows⟩ := List.forall_mem_cons.1 hrows
      have hwrite : sink.write row w =
          (.ok (), w.extend names.length (w.records names [row])) := by
        rw [sink]
        simp only [writeRow_of_takes hrow h]
        rfl
      rw [Sink.writeAll, hwrite]
      simp only
      rw [ih hrows (h.extend _), ← extend_append, ← records_cons]

/-- Rows with the same columns are written as lines, behind a line with the names of the columns if
there is a header. -/
theorem writeAll_start (format : TableFormat) (hrows : ∀ row ∈ rows, row.columns.keys = names) :
    ∃ w : TableWriter, sink.writeAll rows { format } = (.ok (), w) ∧
      w.output.toList = ((if format.header && !rows.isEmpty then [names.map Text.encode] else []) ++
        rows.map Row.fields).flatMap (Record.line format.delimiter) := by
  refine ⟨_, writeAll_of_takes hrows (takes_start format _), ?_⟩
  simp [extend, records]

end TableWriter

end TableQuery
