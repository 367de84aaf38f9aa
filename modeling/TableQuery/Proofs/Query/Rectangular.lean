import TableQuery.Directory
import TableQuery.Execution
import TableQuery.Proofs.Pipeline.Collecting
import TableQuery.Proofs.Pipeline.Failures
import TableQuery.Proofs.Pipeline.Shapes
import TableQuery.Proofs.Query.RefusedPatterns
import TableQuery.Proofs.Table.Reading
import TableQuery.Proofs.Table.Writing

/-!
# What a query writes is rectangular

All rows of a table have the same columns, so have all rows that a query makes of them, and a writer
takes every one of them. It never meets a row of another width.
-/

namespace TableQuery

theorem TableWriter.accepts_sink (names : List String) :
    sink.Accepts (sharedColumns.row names) fun w => w.Takes names.length where
  writeAll hrows hw := ⟨_, writeAll_of_takes hrows hw, hw.extend _⟩
  finish _ := rfl

/-- The error is that of a writer which is given a row of another width. -/
def Error.IsUnevenRow (e : Error) : Prop := ∃ width found, e = .table (.unevenRow width found)

theorem TableError.FromReading.not_isUnevenRow {e : TableError} (h : e.FromReading) :
    ¬(Error.table e).IsUnevenRow := by
  rintro ⟨width, found, heq⟩
  cases heq
  cases h

theorem Error.not_isUnevenRow {e : Error} (h : e.kind ≠ .table) : ¬e.IsUnevenRow := by
  rintro ⟨width, found, rfl⟩
  exact h rfl

theorem Directory.not_isUnevenRow_of_read {d : Directory} {path : String} {e : Error}
    (h : d.read path = .error e) : ¬e.IsUnevenRow := by
  rw [read] at h
  rintro ⟨width, found, rfl⟩
  split at h <;> cases h

namespace Query

variable {q : Query} {text : String} {content : List UInt8} {format : TableFormat} {t : Table}
  {e : Error}

theorem not_isUnevenRow_of_compile (h : compile text = .error e) : ¬e.IsUnevenRow := by
  apply Error.not_isUnevenRow
  rcases kind_of_compile_error h with hkind | hkind | hkind <;> rw [hkind] <;> exact nofun

theorem not_isUnevenRow_of_unrefusing_run (hcompile : compile text = .ok q)
    (ht : Table.ofBytes format.delimiter content = .ok t)
    (h : (q.run t.source Sink.rows #[]).result = .error e) : ¬e.IsUnevenRow := by
  obtain ⟨parsed, hparse, -⟩ := except_bind_eq_ok.1 hcompile
  obtain rfl := eq_marked_of_compile hparse hcompile
  have hfit := fit_stages_marked (written_of_ofText hparse).1
  rcases Pipeline.run_error hfit h with hname | ⟨front, rest, hsource, -⟩ | ⟨_, _, h⟩ | ⟨_, h⟩
  · apply Error.not_isUnevenRow
    rcases hname with hkind | hkind <;> rw [hkind] <;> exact nofun
  · have hmem : .error e ∈ t.source := by
      rw [hsource]
      exact List.mem_append_right front List.mem_cons_self
    obtain ⟨item, hitem, heq⟩ := List.mem_map.1 hmem
    cases item with
    | ok row => cases heq
    | error cause =>
        cases heq
        exact (Table.fromReading_of_mem_rows ht hitem).not_isUnevenRow
  · cases h
  · cases h

/-- A query that collects rows of a table that is read meets no row of another width. -/
theorem not_isUnevenRow_of_run [PatternEngine] (hcompile : compile text = .ok q)
    (ht : Table.ofBytes format.delimiter content = .ok t)
    (h : (q.run t.source Sink.rows #[]).result = .error e) : ¬e.IsUnevenRow := by
  rcases q.refines_run t.source Sink.rows #[] with hsame | ⟨_, hresult, _, _, _, rfl⟩
  · rw [hsame] at h
    exact not_isUnevenRow_of_unrefusing_run hcompile ht h
  · cases h.symm.trans hresult
    exact Error.not_isUnevenRow nofun

/-- The source of a query has the columns that are named in the header. -/
theorem keys_of_mem_source (ht : Table.ofBytes format.delimiter content = .ok t) {row : Row}
    (hrow : .ok row ∈ t.source) : row.columns.keys = t.columns.eraseDups := by
  obtain ⟨item, hitem, heq⟩ := List.mem_map.1 hrow
  cases item with
  | error cause => cases heq
  | ok row =>
      cases heq
      exact Table.keys_of_mem_rows ht hitem

section Execution

variable [PatternEngine]

/-- A query over a table writes what it would collect. -/
theorem run_writes (q : Query) (ht : Table.ofBytes format.delimiter content = .ok t) :
    ∃ out, HaveColumns (q.select.namesAfter t.columns.eraseDups) out ∧
      Outcome.Writes TableWriter.sink { format } #[] out
        (q.run t.source TableWriter.sink { format }) (q.run t.source Sink.rows #[]) := by
  have hsource : ∀ row, .ok row ∈ t.source →
      sharedColumns.row t.columns.eraseDups row := fun row => keys_of_mem_source ht
  exact kept_sharedColumns.run_writes (TableWriter.accepts_sink _) hsource
    (q.chain_sharedColumns _) (q.last_sharedColumns _) (TableWriter.takes_start format _) #[]

theorem execute_of_error {read : FileReader Id} (h : compile text = .error e) :
    execute read format text = { result := .error e } := by
  rw [execute, h]
  rfl

theorem execute_of_ok {read : FileReader Id} (hcompile : compile text = .ok q)
    (hread : read q.source = .ok content) :
    execute read format text = q.executeOn format content := by
  rw [execute, hcompile]
  simp only [hread]
  rfl

theorem execute_of_read_error {read : FileReader Id} (hcompile : compile text = .ok q)
    (hread : read q.source = .error e) : execute read format text = { result := .error e } := by
  rw [execute, hcompile]
  simp only [hread]
  rfl

/-- The rows that a query writes have the columns it selects, in the same order in all of them, and
the header names these columns. So the writer takes every row: the execution ends as a run that
collects the rows would end, and never for a row of another width. -/
theorem execute_rectangular (d : Directory) (format : TableFormat) (text : String) :
    (∀ e, (execute (m := Id) d.read format text).result = .error e → ¬e.IsUnevenRow) ∧
      ∀ q content t, compile text = .ok q → d.read q.source = .ok content →
        Table.ofBytes format.delimiter content = .ok t →
        ∃ rows w, HaveColumns (q.select.namesAfter t.columns.eraseDups) rows ∧
          (q.run t.source Sink.rows #[]).output = rows.toArray ∧
          TableWriter.sink.writeAll rows { format } = (.ok (), w) ∧
          w.output.toList = ((if format.header && !rows.isEmpty then
            [(q.select.namesAfter t.columns.eraseDups).map Text.encode] else []) ++
              rows.map Row.fields).flatMap (Record.line format.delimiter) ∧
          execute (m := Id) d.read format text =
            { result := (q.run t.source Sink.rows #[]).result, output := w.output } := by
  constructor
  · intro e he
    cases hcompile : compile text with
    | error e' =>
        rw [execute_of_error hcompile] at he
        cases he
        exact not_isUnevenRow_of_compile hcompile
    | ok q =>
        cases hread : d.read q.source with
        | error e' =>
            rw [execute_of_read_error hcompile hread] at he
            cases he
            exact Directory.not_isUnevenRow_of_read hread
        | ok content =>
            rw [execute_of_ok hcompile hread, executeOn] at he
            cases ht : Table.ofBytes format.delimiter content with
            | error cause =>
                rw [ht] at he
                cases he
                exact (Table.fromReading_of_ofRecords ht).not_isUnevenRow
            | ok t =>
                obtain ⟨rows, -, hwrites⟩ := run_writes q ht
                rw [ht] at he
                exact not_isUnevenRow_of_run hcompile ht (hwrites.result.symm.trans he)
  · intro q content t hcompile hread ht
    obtain ⟨rows, hrows, hwrites⟩ := run_writes q ht
    obtain ⟨w, hwrite, houtput⟩ := TableWriter.writeAll_start format hrows
    refine ⟨rows, w, hrows, ?_, hwrite, houtput, ?_⟩
    · rw [hwrites.rows, Array.empty_append]
    · obtain rfl : w = _ := (Prod.mk.inj (hwrite.symm.trans hwrites.output)).2
      rw [execute_of_ok hcompile hread, executeOn, ht]
      simp only [hwrites.result]

end Execution

/-- Names that are repeated, in the file as in the query, name one column, and what is written
stands before an error of the file. -/
theorem execute_rectangular_repeated_names :
    let text := "SELECT v AS x, a AS x, a FROM 't'"
    let content := Text.encode "a,a,v\n1,2,3\n4\n"
    let d : Directory := .ofList [("t", content)]
    let e : Error := .table (.unevenRecord ⟨2, 3, 12⟩ 3 1)
    ¬e.IsUnevenRow ∧ ∃ q t rows output, compile text = .ok q ∧ d.read q.source = .ok content ∧
      Table.ofBytes .comma content = .ok t ∧ HaveColumns ["x", "a"] rows ∧ rows ≠ [] ∧
      output = (Text.encode "x,a\n2,2\n").toArray ∧
      execute (m := Id) d.read {} text = { result := .error e, output } := by
  intro text content d e
  let q : Query := {
    select := .columns [⟨.identifier "v", "x"⟩, ⟨.identifier "a", "x"⟩, ⟨.identifier "a", "a"⟩]
    source := "t" }
  let t : Table := {
    columns := ["a", "a", "v"]
    rows := [.ok (Row.ofList [("a", .text "2"), ("v", .text "3")]),
      .error (.unevenRecord ⟨2, 3, 12⟩ 3 1)] }
  have htokens : Token.ofText text = .ok
      [.keyword "SELECT", .identifier "v", .keyword "AS", .identifier "x", ⟨.comma, ",", none⟩,
        .identifier "a", .keyword "AS", .identifier "x", ⟨.comma, ",", none⟩, .identifier "a",
        .keyword "FROM", ⟨.string, "'t'", some (.text "t")⟩] := by
    decide +kernel
  have hcompile : compile text = .ok q := by
    rw [compile, ofText, htokens]
    rfl
  have hsplit : "t".splitOn "/" = ["t"] := by
    rw [String.splitOn, if_neg (by decide), String.splitOnAux, if_neg (by decide),
      if_neg (by decide), String.splitOnAux, if_pos (by decide)]
    decide
  have hread : d.read "t" = .ok content := by
    rw [Directory.read, Directory.resolve, hsplit]
    rfl
  have hrecords : Record.ofBytes .comma content =
      [⟨⟨0, 1, 0⟩, ["a", "a", "v"].map Text.encode⟩,
        ⟨⟨1, 2, 6⟩, ["1", "2", "3"].map Text.encode⟩, ⟨⟨2, 3, 12⟩, ["4"].map Text.encode⟩] := by
    decide +kernel
  have ht : Table.ofBytes .comma content = .ok t := by
    rw [Table.ofBytes, hrecords]
    rfl
  have hresult : (q.run t.source Sink.rows #[]).result = .error e := by decide +kernel
  have houtput : (q.run t.source Sink.rows #[]).output =
      #[Row.ofList [("x", .text "2"), ("a", .text "2")]] := by
    decide +kernel
  obtain ⟨herrors, hwritten⟩ := execute_rectangular d {} text
  obtain ⟨rows, w, hcolumns, hrows, -, hlines, hexecute⟩ := hwritten q content t hcompile hread ht
  rw [hresult] at hexecute
  obtain rfl : rows = [Row.ofList [("x", .text "2"), ("a", .text "2")]] :=
    Array.toList_inj.2 (hrows.symm.trans houtput)
  refine ⟨herrors e (congrArg Execution.result hexecute), q, t, _, w.output, hcompile, hread, ht,
    hcolumns, List.cons_ne_nil _ _, ?_, hexecute⟩
  apply Array.toList_inj.1
  rw [hlines]
  decide +kernel

end Query

end TableQuery
