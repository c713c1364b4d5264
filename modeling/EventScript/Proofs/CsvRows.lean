import EventScript.Proofs.CsvReading
import EventScript.Proofs.EarliestFault

/-!
# The rows of a written CSV table

A table may be written in many ways: each field with or without quotes, each row with a line end of its own,
blank lines anywhere. A row whose only field is empty and not quoted is a blank line itself. So the grammar of
records, which has no such record and takes line ends octet by octet, is not the grammar that a writer has in
mind; here the two are related.

* `Csv.SpellsFile`: the texts that rows may be written as.
* `Csv.SpellsLines.exists_spellsRecords`: the records of such a text are its rows, blank ones apart.
* `Table.cells_ofCsv`, `Table.index_ofCsv`: the rows of a table by its records.
* `Table.rows_spelled`: reading a written table gives back the rows.
-/

namespace EventScript

namespace Csv

/-! ## Writing rows -/

/-- A line end. -/
inductive LineEnd : Bytes → Prop
  | lineFeed : LineEnd [Ascii.lineFeed]
  | carriageReturn : LineEnd [Ascii.carriageReturn]
  | both : LineEnd [Ascii.carriageReturn, Ascii.lineFeed]

/-- Rows, each with a line end after it, and blank lines wherever a row could start. The last row may go
without a line end, unless nothing would be left of it. -/
inductive SpellsLines : List (List Bytes) → Bytes → Prop
  | nil : SpellsLines [] []
  | blank {rows : List (List Bytes)} {e s : Bytes} (he : LineEnd e) (hs : SpellsLines rows s) :
      SpellsLines rows (e ++ s)
  | last {fields : List Bytes} {s : Bytes} (h : SpellsFields fields s) (hne : s ≠ []) :
      SpellsLines [fields] s
  | row {fields : List Bytes} {rows : List (List Bytes)} {s e t : Bytes} (h : SpellsFields fields s)
      (he : LineEnd e) (ht : SpellsLines rows t) : SpellsLines (fields :: rows) (s ++ (e ++ t))

/-- A file with a list of rows. A file without the mark must not look as if it had it. -/
inductive SpellsFile (rows : List (List Bytes)) : Bytes → Prop
  | plain {s : Bytes} (h : SpellsLines rows s) (hmark : byteOrderMark.isPrefixOf s = false) :
      SpellsFile rows s
  | marked {s : Bytes} (h : SpellsLines rows s) : SpellsFile rows (byteOrderMark ++ s)

/-! ## Rows and records -/

/-- A line end is an octet that ends a record and octets that are skipped. -/
theorem LineEnd.eq_cons {e : Bytes} (he : LineEnd e) :
    ∃ b rest, e = b :: rest ∧ State.isLineEnd b = true ∧ ∀ x ∈ rest, State.isLineEnd x = true := by
  cases he with
  | lineFeed => exact ⟨_, _, rfl, rfl, by simp⟩
  | carriageReturn => exact ⟨_, _, rfl, rfl, by simp⟩
  | both => exact ⟨_, _, rfl, rfl, by simp [State.isLineEnd]⟩

theorem SpellsRecords.skip {rows : List (List Bytes)} {s : Bytes} (hs : SpellsRecords rows s) {blanks : Bytes}
    (h : ∀ b ∈ blanks, State.isLineEnd b = true) : SpellsRecords rows (blanks ++ s) := by
  induction blanks with
  | nil => exact hs
  | cons b blanks ih =>
    exact .blank (h b List.mem_cons_self) (ih fun x hx => h x (List.mem_cons_of_mem b hx))

/-- Only a single empty field can be written as nothing. -/
theorem SpellsFields.eq_of_nil {fields : List Bytes} {s : Bytes} (h : SpellsFields fields s) (hs : s = []) :
    fields = [[]] := by
  cases h with
  | last h =>
    cases h with
    | quoted => cases hs
    | bare => rw [hs]
  | comma _ _ => simp at hs

/-- The records of a text are the rows that it was written for, blank ones apart: those that are left out of a
table in any case. -/
theorem SpellsLines.exists_spellsRecords {rows : List (List Bytes)} {s : Bytes} (h : SpellsLines rows s) :
    ∃ records, SpellsRecords records s ∧ records.filter (· != [[]]) = rows.filter (· != [[]]) := by
  induction h with
  | nil => exact ⟨[], .nil, rfl⟩
  | blank he _ ih =>
    obtain ⟨records, hrecords, hkept⟩ := ih
    obtain ⟨b, rest, rfl, hb, hrest⟩ := he.eq_cons
    exact ⟨records, .blank hb (hrecords.skip hrest), hkept⟩
  | last h hne => exact ⟨_, .last h hne, rfl⟩
  | @row fields rows s e t h he _ ih =>
    obtain ⟨records, hrecords, hkept⟩ := ih
    obtain ⟨b, rest, rfl, hb, hrest⟩ := he.eq_cons
    have hafter := hrecords.skip hrest
    by_cases hs : s = []
    · cases h.eq_of_nil hs
      subst hs
      exact ⟨records, .blank hb hafter, hkept⟩
    · refine ⟨fields :: records, .record h hs hb hafter, ?_⟩
      rw [List.filter_cons, List.filter_cons, hkept]

theorem SpellsFile.exists_spellsText {rows : List (List Bytes)} {text : Bytes} (h : SpellsFile rows text) :
    ∃ records, SpellsText records text ∧ records.filter (· != [[]]) = rows.filter (· != [[]]) := by
  cases h with
  | plain h hmark =>
    obtain ⟨records, hrecords, hkept⟩ := h.exists_spellsRecords
    exact ⟨records, .plain hrecords hmark, hkept⟩
  | marked h =>
    obtain ⟨records, hrecords, hkept⟩ := h.exists_spellsRecords
    exact ⟨records, .marked hrecords, hkept⟩

end Csv

namespace Table

/-! ## Rows of a table -/

/-- The rows of a table are the records that have more than a single empty field, field by field. -/
theorem cells_ofCsv (input : Bytes) :
    (ofCsv input).map Row.cells =
      (((Csv.read input).map Csv.Record.fields).filter (· != [[]])).map
        fun fields => some (fields.map Cell.text) := by
  rw [List.filter_map, List.map_map]
  apply List.ext_getElem
  · simp [ofCsv, Function.comp_def]
  · intro i _ _
    simp [ofCsv, rowOfRecord, Function.comp_def]

/-- The rows of a table are numbered without gaps, whatever was left out. -/
theorem index_ofCsv (input : Bytes) :
    (ofCsv input).map Row.index = List.range' 1 (ofCsv input).length := by
  rw [ofCsv, index_mapIdx fun _ _ => rfl, List.length_mapIdx]

/-- **Reading undoes writing.** Whatever rows of octet strings are written, however each field is quoted,
whichever line end each row has, with blank lines anywhere and with the mark or without it: the file is a
table, and its rows are those written that are not a single empty field, octet for octet, in order and
numbered from 1. -/
theorem rows_spelled {rows : List (List Bytes)} {text : Bytes} (h : Csv.SpellsFile rows text) :
    ∃ rs, Table.rows .csv text = .ok rs ∧
      rs.map Row.cells = (rows.filter (· != [[]])).map (fun fields => some (fields.map Cell.text)) ∧
      rs.map Row.index = List.range' 1 rs.length := by
  obtain ⟨records, hrecords, hkept⟩ := h.exists_spellsText
  refine ⟨ofCsv text, rfl, ?_, index_ofCsv text⟩
  rw [cells_ofCsv, Csv.read_spelled hrecords, hkept]

/-- A file with the mark, blank lines and each line end. Of its rows, the second is an empty field between
quotes and the third one without; the last is no text and has no line end. -/
theorem rows_spelled_mixed :
    Csv.SpellsFile [[[0x61], [0x62, 0x22, 0x0A], []], [[]], [[]], [[0xFF]]]
        (Csv.byteOrderMark ++ [0x0D, 0x0A, 0x61, 0x2C, 0x22, 0x62, 0x22, 0x22, 0x0A, 0x22, 0x2C, 0x0D, 0x0A,
          0x0A, 0x22, 0x22, 0x0D, 0x0D, 0xFF]) ∧
      ∃ rs, Table.rows .csv
          (Csv.byteOrderMark ++ [0x0D, 0x0A, 0x61, 0x2C, 0x22, 0x62, 0x22, 0x22, 0x0A, 0x22, 0x2C, 0x0D, 0x0A,
            0x0A, 0x22, 0x22, 0x0D, 0x0D, 0xFF]) = .ok rs ∧
        rs.map Row.cells =
          [some [.text [0x61], .text [0x62, 0x22, 0x0A], .text []], some [.text [0xFF]]] ∧
        rs.map Row.index = List.range' 1 rs.length := by
  have hempty : Csv.SpellsField [] [] := .bare (List.forall_mem_nil _) (by decide)
  have hfirst : Csv.SpellsFields [[0x61], [0x62, 0x22, 0x0A], []]
      ([0x61] ++ Ascii.comma :: (Csv.quoted [0x62, 0x22, 0x0A] ++ Ascii.comma :: [])) :=
    .comma (.bare (List.forall_mem_singleton.mpr (by decide)) (by decide)) (.comma .quoted (.last hempty))
  have hquoted : Csv.SpellsFields [[]] (Csv.quoted []) := .last .quoted
  have hlast : Csv.SpellsLines [[[0xFF]]] [0xFF] :=
    .last (.last (.bare (List.forall_mem_singleton.mpr (by decide)) (by decide))) (by decide)
  have hlines := Csv.SpellsLines.blank .both (.row hfirst .both (.blank .lineFeed
    (.row hquoted .carriageReturn (.row (.last hempty) .carriageReturn hlast))))
  exact ⟨.marked hlines, rows_spelled (.marked hlines)⟩

end Table

end EventScript
