import EventScript.Proofs.Compiling
import EventScript.Proofs.CsvReading
import EventScript.Proofs.JsonWriting

/-!
# Tables of texts in either format

A table of texts reads as the same rows from CSV and from JSON, but for the lines that only CSV has, and
a line is told in a hint and nowhere else.

* `rows_ofCsv`, `ofJson_spelled`: the rows of a table of texts in each format.
* `compileRows_agree`: rows that differ in their lines only compile alike.
* `agree_csv_json`: a table of texts compiles alike from CSV and from JSON.
-/

namespace EventScript

open Table (Row Cell)

/-! ## Agreement -/

/-- Two results agree: they are the same value, or faults of the same kind, message, row and field. -/
inductive Agree {α : Type} : Except Fault α → Except Fault α → Prop
  | ok (a : α) : Agree (.ok a) (.ok a)
  | error {f g : Fault} (kind : f.kind = g.kind) (message : f.message = g.message) (row : f.row = g.row)
      (field : f.field = g.field) : Agree (.error f) (.error g)

theorem Agree.refl {α : Type} (x : Except Fault α) : Agree x x := by
  cases x with
  | error f => exact .error rfl rfl rfl rfl
  | ok a => exact .ok a

theorem Agree.bind {α β : Type} {x y : Except Fault α} {k l : α → Except Fault β} (h : Agree x y)
    (hrest : ∀ a, Agree (k a) (l a)) : Agree (x >>= k) (y >>= l) := by
  cases h with
  | ok a => exact hrest a
  | error kind message row field => exact .error kind message row field

namespace Table

/-- Rows with the same cells under the same number. -/
structure Row.SameCells (r r' : Row) : Prop where
  index : r.index = r'.index
  cells : r.cells = r'.cells

/-- The line of a row is told in a hint and nowhere else. -/
theorem Row.SameCells.agree_event {r r' : Row} (h : r.SameCells r') : Agree r.event r'.event := by
  obtain ⟨index, line, cells⟩ := r
  obtain ⟨index', line', cells'⟩ := r'
  obtain ⟨hindex, hcells⟩ := h
  cases hindex
  cases hcells
  cases cells with
  | none => exact .refl _
  | some cells =>
    simp only [Row.event, Event.ofRow, Event.ofCells]
    split
    · exact .refl _
    · exact .error rfl rfl rfl rfl

/-! ## Rows -/

theorem ofJson_eq {input : Bytes} {document : Json.Value} {values : List Json.Value}
    (hread : Json.read input = .ok document) (hvalues : rowValues document = .ok values) :
    ofJson input = .ok (values.mapIdx rowOfValue) := by
  rw [ofJson, hread]
  simp only [Except.mapError, bind, Except.bind, hvalues]
  rfl

/-- The JSON array of a row of texts. -/
def textArray (row : List String) : Json.Value :=
  .array (row.map .string)

/-- A JSON value that holds rows of texts: their array, or an object with each under a key of its own. -/
inductive HoldsTexts (rows : List (List String)) : Json.Value → Prop
  | array : HoldsTexts rows (.array (rows.map textArray))
  | object {keys : List String} (distinct : keys.Nodup) (h : keys.length = rows.length) :
      HoldsTexts rows (.object (keys.zip (rows.map textArray)))

theorem rowValues_of_holdsTexts {rows : List (List String)} {document : Json.Value}
    (h : HoldsTexts rows document) : rowValues document = .ok (rows.map textArray) := by
  cases h with
  | array => rfl
  | object distinct h => rw [rowValues, List.map_snd_zip (by simp [h])]

/-- Rows are numbered by their places, so it is the cells that decide. -/
theorem forall₂_sameCells {records : List Csv.Record} {values : List Json.Value}
    (h : (records.map fun r => some (r.fields.map Cell.text)) = values.map cellsOfValue) :
    List.Forall₂ Row.SameCells (records.mapIdx rowOfRecord) (values.mapIdx rowOfValue) := by
  have hlength : records.length = values.length := by simpa using congrArg List.length h
  rw [List.forall₂_iff_get]
  refine ⟨by simpa using hlength, ?_⟩
  intro i hi hi'
  have hcells := congrArg (fun l => l[i]?) h
  simp only [List.length_mapIdx] at hi hi'
  simp only [List.getElem?_map, List.getElem?_eq_getElem hi, List.getElem?_eq_getElem hi', Option.map_some,
    Option.some.injEq] at hcells
  refine ⟨?_, ?_⟩
  · simp [rowOfRecord, rowOfValue]
  · simp [rowOfRecord, rowOfValue, hcells]

theorem eq_empty_of_encode {s : String} (h : Utf8.encode s = []) : s = "" := by
  have hdecode := Utf8.decode?_encode s
  rw [h] at hdecode
  exact (Option.some.inj hdecode).symm

/-- A table of texts, none of whose rows is a single empty text, has the same rows in either format. -/
theorem sameCells_of_spelled {rows : List (List String)} (hrows : ∀ row ∈ rows, row ≠ [""])
    {csv json : Bytes} {document : Json.Value}
    (hcsv : Csv.SpellsText (rows.map fun row => row.map Utf8.encode) csv)
    (hdocument : HoldsTexts rows document) (hjson : Json.SpellsText document json) :
    ∃ rs, ofJson json = .ok rs ∧ List.Forall₂ Row.SameCells (ofCsv csv) rs := by
  have hread := Csv.read_spelled hcsv
  have hkeep : (Csv.read csv).filter (fun r => r.fields != [[]]) = Csv.read csv := by
    rw [List.filter_eq_self]
    intro r hr
    have hfields : r.fields ∈ rows.map fun row => row.map Utf8.encode := hread ▸ List.mem_map_of_mem hr
    obtain ⟨row, hrow, heq⟩ := List.mem_map.mp hfields
    rw [bne_iff_ne]
    intro hempty
    rw [hempty] at heq
    obtain ⟨s, rfl, hs⟩ := List.map_eq_singleton_iff.mp heq
    exact hrows _ hrow (by rw [eq_empty_of_encode hs])
  have hcells : ((Csv.read csv).map fun r => some (r.fields.map Cell.text)) =
      (rows.map textArray).map cellsOfValue := by
    have hmap : ((Csv.read csv).map fun r => some (r.fields.map Cell.text)) =
        ((Csv.read csv).map Csv.Record.fields).map fun fields => some (fields.map Cell.text) := by
      rw [List.map_map]
      rfl
    rw [hmap, hread, List.map_map, List.map_map]
    apply List.map_congr_left
    intro row _
    simp [textArray, cellsOfValue, cellOfValue, Function.comp_def]
  refine ⟨_, ofJson_eq (Json.read_spelled hjson) (rowValues_of_holdsTexts hdocument), ?_⟩
  rw [ofCsv, hkeep]
  exact forall₂_sameCells hcells

end Table

namespace Compile

theorem pushRows_cons (b : Script.Builder) (row : Row) (rows : List Row) :
    pushRows b (row :: rows) = row.event >>= fun e => pushRows (b.push e) rows := by
  rw [pushRows]
  cases row.event <;> rfl

theorem pushRows_agree {rows rows' : List Row} (h : List.Forall₂ Row.SameCells rows rows')
    (b : Script.Builder) : Agree (pushRows b rows) (pushRows b rows') := by
  induction h generalizing b with
  | nil => exact .refl _
  | cons hrow _ ih =>
    rw [pushRows_cons, pushRows_cons]
    exact hrow.agree_event.bind fun e => ih (b.push e)

/-- Rows that differ in their lines only compile alike. -/
theorem compileRows_agree {rows rows' : List Row} (h : List.Forall₂ Row.SameCells rows rows') :
    Agree (compileRows rows) (compileRows rows') :=
  (pushRows_agree h _).bind fun _ => .refl _

/-- A table of texts compiles alike from each of its CSV and JSON texts. -/
theorem compileTable_agree {rows : List (List String)} (hrows : ∀ row ∈ rows, row ≠ [""])
    {csv json : Bytes} {document : Json.Value}
    (hcsv : Csv.SpellsText (rows.map fun row => row.map Utf8.encode) csv)
    (hdocument : Table.HoldsTexts rows document) (hjson : Json.SpellsText document json) :
    Agree (compileTable .csv csv) (compileTable .json json) := by
  obtain ⟨rs, hrs, hsame⟩ := Table.sameCells_of_spelled hrows hcsv hdocument hjson
  have hjsonRows : Table.rows .json json = .ok rs := by
    rw [Table.rows, Table.read, hrs]
    rfl
  have hcsvRows : Table.rows .csv csv = .ok (Table.ofCsv csv) := rfl
  rw [compileTable, compileTable, hjsonRows, hcsvRows]
  exact compileRows_agree hsame

/-- **Formats agree.** Take rows of texts, each with at least one text and none a single empty one. Written as
CSV, with every text between quotes and a line feed after each row, and as JSON, as an array or an object of
arrays, with every string escaped in any way, they compile to the same script of the same records, or are
refused by faults of the same kind and message for the same row and field. -/
theorem agree_csv_json {rows : List (List String)} (hrows : ∀ row ∈ rows, row ≠ [] ∧ row ≠ [""])
    {document : Json.Value} (hdocument : Table.HoldsTexts rows document) {json : Bytes}
    (hjson : Json.SpellsText document json) :
    Agree (compileTable .csv (Csv.write (rows.map fun row => row.map Utf8.encode)))
      (compileTable .json json) := by
  have hcsv : Csv.SpellsText (rows.map fun row => row.map Utf8.encode)
      (Csv.write (rows.map fun row => row.map Utf8.encode)) := by
    apply Csv.spellsText_write
    intro fields hfields
    obtain ⟨row, hrow, rfl⟩ := List.mem_map.mp hfields
    rw [ne_eq, List.map_eq_nil_iff]
    exact (hrows row hrow).1
  exact compileTable_agree (fun row hrow => (hrows row hrow).2) hcsv hdocument hjson

/-- Rows with a comma, a quote and a line feed in their texts. -/
def twoRows : List (List String) :=
  [["7", "a,b", "c\"d", "e\nf", "", "g"], ["-8", "h", "", "i", "j", "k"]]

/-- A row that is whole, and a short one after it. -/
def secondShort : List (List String) :=
  [["7", "a", "b", "c", "d", "e"], ["8", "f"]]

/-- What ends or separates fields in CSV is escaped there, and what ends strings in JSON is escaped there. Under the
keys of an object, rows are numbered as they stand. -/
theorem agree_csv_json_under_keys :
    Agree
        (compileTable .csv
          (Utf8.encode "\"7\",\"a,b\",\"c\"\"d\",\"e\nf\",\"\",\"g\"\n\"-8\",\"h\",\"\",\"i\",\"j\",\"k\"\n"))
        (compileTable .json
          (Utf8.encode ("\x7b\"z\":[\"7\",\"a,b\",\"c\\\"d\",\"e\\nf\",\"\",\"g\"]," ++
            "\"b\":[\"-8\",\"h\",\"\",\"i\",\"j\",\"k\"]\x7d"))) ∧
      Agree
        (compileTable .csv (Utf8.encode "\"7\",\"a\",\"b\",\"c\",\"d\",\"e\"\n\"8\",\"f\"\n"))
        (compileTable .json (Utf8.encode "[[\"7\",\"a\",\"b\",\"c\",\"d\",\"e\"],[\"8\",\"f\"]]")) := by
  have hobject : Table.HoldsTexts twoRows (.object (["z", "b"].zip (twoRows.map Table.textArray))) :=
    .object (by decide) rfl
  have harray : Table.HoldsTexts secondShort (.array (secondShort.map Table.textArray)) := .array
  have hobjectKept :
      (Json.Value.object (["z", "b"].zip (twoRows.map Table.textArray))).Kept Json.maxDepth := by
    simp [twoRows, Table.textArray, Json.Value.Kept, Json.maxDepth]
  have harrayKept : (Json.Value.array (secondShort.map Table.textArray)).Kept Json.maxDepth := by
    simp [secondShort, Table.textArray, Json.Value.Kept, Json.maxDepth]
  have hobjectAgree := agree_csv_json (by simp [twoRows]) hobject (Json.spellsText_text hobjectKept)
  have harrayAgree := agree_csv_json (by simp [secondShort]) harray (Json.spellsText_text harrayKept)
  exact ⟨hobjectAgree, harrayAgree⟩

end Compile

end EventScript
