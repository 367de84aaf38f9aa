import TableQuery.Proofs.Failure
import TableQuery.Proofs.OrderedMap
import TableQuery.Table

/-!
# The rows of a table that is read

Every row has the same columns: the distinct names of the header, each where it first stands in it.
A record that is no row is an error of reading.
-/

namespace TableQuery

/-- The error comes from reading a record. -/
inductive TableError.FromReading : TableError → Prop where
  | unevenRecord (position : RecordPosition) (expected count : Nat) :
      FromReading (.unevenRecord position expected count)
  | invalidText (position : RecordPosition) (field valid : Nat) :
      FromReading (.invalidText position field valid)

namespace Record

variable {record : Record} {texts : List String} {e : TableError}

theorem decodeFrom_cases (position : RecordPosition) (i : Nat) (fields : List (List UInt8)) :
    (∀ texts, decodeFrom position i fields = .ok texts → texts.length = fields.length) ∧
      ∀ e, decodeFrom position i fields = .error e → e.FromReading := by
  induction fields generalizing i with
  | nil =>
      refine ⟨fun texts h => ?_, nofun⟩
      cases h
      rfl
  | cons field rest ih =>
      obtain ⟨hlength, hreading⟩ := ih (i + 1)
      rw [decodeFrom]
      split
      · refine ⟨nofun, fun e h => ?_⟩
        cases h
        exact .invalidText ..
      · refine ⟨fun texts h => ?_, fun e h => ?_⟩
        · obtain ⟨others, hothers, rfl⟩ := except_map_eq_ok.1 h
          rw [List.length_cons, List.length_cons, hlength others hothers]
        · exact hreading e (except_map_eq_error.1 h)

theorem length_of_textsOf {count : Nat} (h : record.textsOf count = .ok texts) :
    texts.length = count := by
  rw [textsOf] at h
  split at h
  · next hcount => exact ((decodeFrom_cases ..).1 texts h).trans hcount
  · cases h

theorem fromReading_of_textsOf {count : Nat} (h : record.textsOf count = .error e) :
    e.FromReading := by
  rw [textsOf] at h
  split at h
  · exact (decodeFrom_cases ..).2 e h
  · cases h
    exact .unevenRecord ..

end Record

namespace Table

variable {d : Delimiter} {content : List UInt8} {records : List Record} {t : Table} {row : Row}
  {e : TableError}

theorem keys_row {columns texts : List String} (h : texts.length = columns.length) :
    (Table.row columns texts).columns.keys = columns.eraseDups := by
  have hlength : columns.length ≤ (texts.map Value.text).length :=
    Nat.le_of_eq (h.symm.trans (List.length_map _).symm)
  rw [Table.row, Row.ofList, OrderedMap.keys_ofList, List.map_fst_zip hlength]

theorem keys_of_mem_rows (h : ofRecords records = .ok t) (hrow : .ok row ∈ t.rows) :
    row.columns.keys = t.columns.eraseDups := by
  cases records with
  | nil =>
      cases h
      cases hrow
  | cons header records =>
      obtain ⟨columns, -, h⟩ := except_bind_eq_ok.1 h
      cases h
      obtain ⟨record, -, hread⟩ := List.mem_map.1 hrow
      obtain ⟨texts, htexts, rfl⟩ := except_map_eq_ok.1 hread
      exact keys_row (Record.length_of_textsOf htexts)

theorem fromReading_of_mem_rows (h : ofRecords records = .ok t) (he : .error e ∈ t.rows) :
    e.FromReading := by
  cases records with
  | nil =>
      cases h
      cases he
  | cons header records =>
      obtain ⟨columns, -, h⟩ := except_bind_eq_ok.1 h
      cases h
      obtain ⟨record, -, hread⟩ := List.mem_map.1 he
      exact Record.fromReading_of_textsOf (except_map_eq_error.1 hread)

theorem fromReading_of_ofRecords (h : ofRecords records = .error e) : e.FromReading := by
  cases records with
  | nil => cases h
  | cons header records =>
      rw [ofRecords] at h
      cases hheader : header.texts with
      | error e' =>
          rw [hheader] at h
          cases h
          exact (Record.decodeFrom_cases ..).2 e hheader
      | ok columns =>
          rw [hheader] at h
          cases h

end Table

end TableQuery
