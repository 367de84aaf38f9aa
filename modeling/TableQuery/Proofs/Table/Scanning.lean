import TableQuery.Proofs.Table.Writing

/-!
# Reading back what is written

A written field is read from its first byte to its last and leaves the scan outside quotes, where
a delimiter or a line end ends it. So a written line is read as its fields, and the lines of a
file as its records.
-/

namespace TableQuery

namespace Record

namespace Place

/-- Outside quotes, behind what a field may consist of. -/
inductive Outside : Place → Prop where
  | start : Outside start
  | plain : Outside plain
  | closing : Outside closing

section Outside

variable {d : Delimiter} {b : UInt8} {p : Place} (h : p.Outside)
include h

theorem Outside.step (hb : b ≠ quoteByte) : p.step d b = stepPlain d b := by
  cases h with
  | start => exact if_neg hb
  | plain => rfl
  | closing => exact if_neg hb

theorem Outside.step_ordinary (hb : b ≠ quoteByte) (hdelimiter : b ≠ d.byte)
    (hend : isLineEnd b = false) : p.step d b = (.keep, Place.plain) := by
  rw [h.step hb, stepPlain, if_neg hdelimiter, hend]
  rfl

theorem Outside.step_delimiter (hquote : d.byte ≠ quoteByte) :
    p.step d d.byte = (.endField, Place.start) := by
  rw [h.step hquote, stepPlain, if_pos rfl]

theorem Outside.step_lineFeed (hend : isLineEnd d.byte = false) :
    p.step d 10 = (.endRecord, between) := by
  have hdelimiter : 10 ≠ d.byte := by
    intro heq
    rw [← heq] at hend
    cases hend
  rw [h.step (by decide), stepPlain, if_neg hdelimiter]
  rfl

end Outside

end Place

open Place

/-- What a scan has read, wherever it started: the complete records, the complete fields of the
current record and the current field, and where the next byte stands. -/
structure Scan.Shows (s : Scan) (records : List (List (List UInt8)))
    (fields : List (List UInt8)) (field : List UInt8) (place : Place) : Prop where
  records : s.records.toList.map Record.fields = records
  fields : s.fields.toList = fields
  field : s.field.toList = field
  place : s.place = place

variable {d : Delimiter} {s : Scan} {records lines : List (List (List UInt8))}
  {fields line : List (List UInt8)} {field bytes : List UInt8} {p q : Place} {b : UInt8}

namespace Scan.Shows

section Byte

variable (h : s.Shows records fields field p)
include h

theorem skip (hstep : p.step d b = (.skip, q)) :
    (s.feed d b).Shows records fields field q := by
  rw [feed, h.place, hstep]
  exact ⟨h.records, h.fields, h.field, rfl⟩

theorem keep (hstep : p.step d b = (.keep, q)) :
    (s.feed d b).Shows records fields (field ++ [b]) q := by
  rw [feed, h.place, hstep]
  refine ⟨h.records, h.fields, ?_, rfl⟩
  rw [← h.field]
  exact Array.toList_push

theorem endField (hstep : p.step d b = (.endField, q)) :
    (s.feed d b).Shows records (fields ++ [field]) [] q := by
  rw [feed, h.place, hstep]
  refine ⟨h.records, ?_, rfl, rfl⟩
  rw [← h.field, ← h.fields]
  exact Array.toList_push

theorem endRecord (hstep : p.step d b = (.endRecord, q)) :
    (s.feed d b).Shows (records ++ [fields ++ [field]]) [] [] q := by
  rw [feed, h.place, hstep]
  refine ⟨?_, rfl, rfl, rfl⟩
  rw [← h.field, ← h.fields, ← h.records]
  simp [Scan.apply, Scan.endField, Scan.endRecord]

end Byte

end Scan.Shows

theorem needsQuotes_cons_eq_false (h : needsQuotes d (b :: bytes) = false) :
    (b ≠ quoteByte ∧ b ≠ d.byte ∧ isLineEnd b = false) ∧ needsQuotes d bytes = false := by
  rw [needsQuotes, List.any_cons, Bool.or_eq_false_iff] at h
  obtain ⟨hb, hbytes⟩ := h
  refine ⟨?_, hbytes⟩
  simpa [and_assoc] using hb

namespace Scan.Shows

theorem unquoted (h : s.Shows records fields field p) (hp : p.Outside)
    (hbytes : needsQuotes d bytes = false) :
    ∃ q : Place, q.Outside ∧
      (bytes.foldl (feed d) s).Shows records fields (field ++ bytes) q := by
  induction bytes generalizing s field p with
  | nil =>
      rw [List.append_nil]
      exact ⟨p, hp, h⟩
  | cons b bytes ih =>
      obtain ⟨⟨hquote, hdelimiter, hend⟩, hbytes⟩ := needsQuotes_cons_eq_false hbytes
      rw [List.append_cons]
      exact ih (h.keep (hp.step_ordinary hquote hdelimiter hend)) .plain hbytes

theorem quoted (h : s.Shows records fields field .quoted) :
    ((doubleQuotes bytes).foldl (feed d) s).Shows records fields (field ++ bytes) .quoted := by
  induction bytes generalizing s field with
  | nil =>
      rw [List.append_nil]
      exact h
  | cons b bytes ih =>
      rw [List.append_cons, doubleQuotes, List.flatMap_cons, List.foldl_append]
      apply ih
      by_cases hb : b = quoteByte
      · have hclosing : (s.feed d b).Shows records fields field .closing := h.skip (if_pos hb)
        rw [if_pos hb]
        exact hclosing.keep (if_pos hb)
      · rw [if_neg hb]
        exact h.keep (if_neg hb)

/-- A written field is read as that field. -/
theorem writeField (h : s.Shows records fields [] .start) (field : List UInt8) :
    ∃ q : Place, q.Outside ∧
      ((writeField d field).foldl (feed d) s).Shows records fields field q := by
  rw [Record.writeField, openField, closeField]
  cases hquotes : needsQuotes d field with
  | false =>
      rw [if_neg Bool.false_ne_true, if_neg Bool.false_ne_true, List.append_nil]
      exact h.unquoted .start hquotes
  | true =>
      have hopen : (s.feed d quoteByte).Shows records fields [] .quoted := h.skip rfl
      rw [if_pos rfl, if_pos rfl, List.cons_append, List.foldl_cons, List.foldl_append]
      exact ⟨.closing, .closing, hopen.quoted.skip rfl⟩

end Scan.Shows

section Separated

variable (hquote : d.byte ≠ quoteByte) (hend : isLineEnd d.byte = false)

include hquote hend in
/-- Written fields with delimiters between them and a line end behind them are read as a
record. -/
theorem Scan.Shows.intercalate (h : s.Shows records fields [] .start) (hline : line ≠ []) :
    ((List.intercalate [d.byte] (line.map (Record.writeField d)) ++ [10]).foldl (feed d) s).Shows
      (records ++ [fields ++ line]) [] [] .between := by
  induction line generalizing s fields with
  | nil => exact absurd rfl hline
  | cons field rest ih =>
      obtain ⟨q, hq, hfield⟩ := h.writeField field
      cases rest with
      | nil =>
          rw [List.map_singleton, List.intercalate_singleton, List.foldl_append]
          exact hfield.endRecord (hq.step_lineFeed hend)
      | cons next rest =>
          have hnext := hfield.endField (hq.step_delimiter hquote)
          have hread := ih hnext (List.cons_ne_nil next rest)
          rw [← List.append_cons] at hread
          rw [List.map_cons, List.map_cons, List.intercalate_cons_cons, List.append_assoc,
            List.append_assoc, List.foldl_append, ← List.map_cons]
          exact hread

/-- A record of one empty field is written in a form of its own. -/
theorem openFields_eq_nil (hline : line ≠ []) (h : openFields d line = []) : line = [[]] := by
  cases line with
  | nil => exact absurd rfl hline
  | cons field rest =>
      cases rest with
      | nil =>
          rw [openFields, openField] at h
          split at h
          · cases h
          · rw [h]
      | cons next rest =>
          rw [openFields] at h
          · exact absurd (List.append_eq_nil_iff.1 h).2 (List.cons_ne_nil _ _)
          · exact List.cons_ne_nil next rest

theorem line_eq (hline : line ≠ []) (h : line ≠ [[]]) :
    Record.line d line =
      List.intercalate [d.byte] (line.map (writeField d)) ++ [10] := by
  have hopen : (openFields d line).isEmpty = false := by
    rw [List.isEmpty_eq_false_iff]
    exact fun hnil => h (openFields_eq_nil hline hnil)
  rw [Record.line, writeEnd, hopen, ← openFields_append_closeFields, List.append_assoc]
  rfl

/-- The fields of a line start with the first one and a byte that ends it. -/
theorem fields_line_eq (d : Delimiter) (field : List UInt8) (rest : List (List UInt8)) :
    ∃ b more, (b = d.byte ∨ b = 10 ∧ rest = []) ∧
      List.intercalate [d.byte] ((field :: rest).map (writeField d)) ++ [10] =
        writeField d field ++ b :: more := by
  cases rest with
  | nil =>
      refine ⟨10, [], .inr ⟨rfl, rfl⟩, ?_⟩
      rw [List.map_singleton, List.intercalate_singleton]
  | cons next rest =>
      refine ⟨d.byte, List.intercalate [d.byte] ((next :: rest).map (writeField d)) ++ [10],
        .inl rfl, ?_⟩
      rw [List.map_cons, List.map_cons, List.intercalate_cons_cons, List.append_assoc,
        List.append_assoc]
      rfl

/-- No line is empty up to its end. -/
theorem exists_line_eq_cons (hend : isLineEnd d.byte = false) (field : List UInt8)
    (rest : List (List UInt8)) :
    ∃ b bytes, Record.line d (field :: rest) = b :: bytes ∧ isLineEnd b = false := by
  by_cases hempty : field :: rest = [[]]
  · rw [hempty]
    exact ⟨quoteByte, _, rfl, rfl⟩
  obtain ⟨b, more, hb, hline⟩ := fields_line_eq d field rest
  rw [line_eq (List.cons_ne_nil field rest) hempty, hline, writeField, openField, closeField]
  cases hquotes : needsQuotes d field with
  | true => exact ⟨quoteByte, _, rfl, rfl⟩
  | false =>
      cases field with
      | nil =>
          have hb : b = d.byte := hb.resolve_right fun h => hempty (congrArg ([] :: ·) h.2)
          exact ⟨b, more, rfl, hb ▸ hend⟩
      | cons a field => exact ⟨a, _, rfl, (needsQuotes_cons_eq_false hquotes).1.2.2⟩

namespace Scan.Shows

/-- At the start of a record, a byte that ends no line stands at the start of a field. -/
theorem feed_between (h : s.Shows records [] [] .between) (hb : isLineEnd b = false) :
    ∃ s' : Scan, s'.Shows records [] [] .start ∧ s.feed d b = s'.feed d b := by
  refine ⟨{ s with place := .start }, ⟨h.records, h.fields, h.field, rfl⟩, ?_⟩
  rw [feed, feed, h.place, step, hb]
  rfl

include hquote hend in
theorem line_of_start (h : s.Shows records [] [] .start) (hline : line ≠ []) :
    ((Record.line d line).foldl (feed d) s).Shows (records ++ [line]) [] [] .between := by
  by_cases hempty : line = [[]]
  · -- two quotes stand for the empty field, which alone would leave an empty line
    rw [hempty]
    have hopen : (s.feed d quoteByte).Shows records [] [] .quoted := h.skip rfl
    have hclose : ((s.feed d quoteByte).feed d quoteByte).Shows records [] [] .closing :=
      hopen.skip rfl
    exact hclose.endRecord (Outside.closing.step_lineFeed hend)
  · rw [line_eq hline hempty]
    exact h.intercalate hquote hend hline

include hquote hend in
/-- A written line is read as a record. -/
theorem readLine (h : s.Shows records [] [] .between) (hline : line ≠ []) :
    ((Record.line d line).foldl (feed d) s).Shows (records ++ [line]) [] [] .between := by
  obtain ⟨field, rest, rfl⟩ := List.exists_cons_of_ne_nil hline
  obtain ⟨b, bytes, hbytes, hb⟩ := exists_line_eq_cons hend field rest
  obtain ⟨s', hs', hfeed⟩ := h.feed_between (d := d) hb
  have hread := hs'.line_of_start hquote hend hline
  rw [hbytes, List.foldl_cons] at hread ⊢
  rw [hfeed]
  exact hread

include hquote hend in
theorem readLines (h : s.Shows records [] [] .between) (hlines : ∀ line ∈ lines, line ≠ []) :
    ((lines.flatMap (Record.line d)).foldl (feed d) s).Shows (records ++ lines) [] [] .between := by
  induction lines generalizing s records with
  | nil =>
      rw [List.append_nil]
      exact h
  | cons line lines ih =>
      obtain ⟨hline, hlines⟩ := List.forall_mem_cons.1 hlines
      rw [List.flatMap_cons, List.foldl_append, List.append_cons]
      exact ih (h.readLine hquote hend hline) hlines

theorem finish (h : s.Shows records [] [] .between) :
    s.finish.map Record.fields = records := by
  rw [Scan.finish, h.place]
  exact h.records

end Scan.Shows

theorem lineFeed_mem_line (d : Delimiter) (fields : List (List UInt8)) :
    10 ∈ Record.line d fields := by
  rw [Record.line, writeEnd]
  split
  · exact List.mem_append_right _ (by decide)
  · exact List.mem_append_right _ (List.mem_append_right _ List.mem_cons_self)

/-- What starts with a byte order mark has it in its first line. -/
theorem mark_prefix_line {more : List UInt8} {fields : List (List UInt8)}
    (h : byteOrderMark <+: Record.line d fields ++ more) :
    byteOrderMark <+: Record.line d fields := by
  refine (List.prefix_or_prefix_of_prefix h (List.prefix_append _ more)).resolve_right ?_
  intro hshort
  exact absurd (hshort.subset (lineFeed_mem_line d fields)) (by decide)

include hquote hend in
/-- Records that are written are read. -/
theorem fields_ofBytes_lines (hlines : ∀ line ∈ lines, line ≠ [])
    (hmark : ∀ line ∈ lines.head?, ¬byteOrderMark <+: Record.line d line) :
    (ofBytes d (lines.flatMap (Record.line d))).map Record.fields = lines := by
  have hempty : ({} : Scan).Shows [] [] [] .between := ⟨rfl, rfl, rfl, rfl⟩
  have hnomark : byteOrderMark.isPrefixOf (lines.flatMap (Record.line d)) = false := by
    rw [Bool.eq_false_iff, ne_eq, List.isPrefixOf_iff_prefix]
    intro hprefix
    cases lines with
    | nil => exact absurd (List.prefix_nil.1 hprefix) (by decide)
    | cons line lines => exact hmark line rfl (mark_prefix_line hprefix)
  rw [ofBytes, hnomark]
  exact (hempty.readLines hquote hend hlines).finish

end Separated

end Record

end TableQuery
