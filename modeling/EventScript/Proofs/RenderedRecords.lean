import EventScript.Proofs.TableFormats
import EventScript.Report

/-!
# What inspecting a script shows is enough to compile it again

* `Event.read_json`: the JSON object of an event is read back from its text.
* `Event.event_of_columns`: the row that the object has under the names of the columns gives the event again,
  if the texts of the event are UTF-8.
* `compileTable_rendered`: the rows of all events of a script compile to the script.
-/

namespace EventScript

open Outcome
open Table (Cell Row)

/-! ## Objects of events -/

/-- The members of a JSON object that are named for the columns of a table, as a row in their order. -/
def columnsOf? : Json.Value → Option Json.Value
  | .object members =>
    (["timer", "system", "to", "from", "command", "arguments"].mapM fun name => members.lookup name).map
      .array
  | _ => none

namespace Event

/-- Every text of an event is UTF-8. -/
def IsUtf8 (e : Event) : Prop :=
  ∀ octets ∈ e.octets.toList, ∃ text, Utf8.encode text = octets

/-- The row of an event as it is shown. -/
def shownRow (e : Event) : Json.Value :=
  .array
    [.number (.whole (.ofInt64 e.timer)), .string (Utf8.lossy e.system.octets),
      .string (Utf8.lossy e.target.octets), .string (Utf8.lossy e.source.octets),
      .string (Utf8.lossy e.command.octets), .string (Utf8.lossy e.arguments.octets)]

theorem columnsOf?_json (index : Nat) (e : Event) : columnsOf? (e.json index) = some e.shownRow := by
  rfl

theorem kept_json (index : Nat) (e : Event) {depth : Nat} : (e.json index).Kept (depth + 2) := by
  have hkeys : ["index", "timer", "system", "to", "from", "command", "arguments", "args"].Nodup := by
    decide
  refine ⟨hkeys, ?_⟩
  simp [Json.Value.Kept, Json.Number.Kept, Json.Value.count]

/-- The object of an event is read back from its text. -/
theorem read_json (index : Nat) (e : Event) :
    Json.read (Utf8.encode (e.json index).text) = .ok (e.json index) :=
  Json.read_text (kept_json index e)

/-- The cell of a UTF-8 text as it is shown gives the text. -/
theorem fieldOfCell_lossy (column : Column) {field : Field} (h : ∃ text, Utf8.encode text = field.octets) :
    fieldOfCell column (Table.cellOfValue (.string (Utf8.lossy field.octets))) = .ok field := by
  obtain ⟨text, htext⟩ := h
  have hoctets : Utf8.encode (Utf8.lossy field.octets) = field.octets := by
    rw [← htext, Utf8.lossy_encode]
  simp only [Table.cellOfValue, fieldOfCell, textOfCell?, hoctets, Event.field, Field.ofBytes?_octets]
  rfl

/-- The row of an event as it is shown gives the event. -/
theorem event_rowOfValue {e : Event} (h : e.IsUtf8) (position : Nat) :
    (Table.rowOfValue position e.shownRow).event = .ok e := by
  have htimer : timerOfCell (Table.cellOfValue (.number (.whole (.ofInt64 e.timer)))) = .ok e.timer := by
    simp only [Table.cellOfValue, timerOfCell, timerOfNumber?_ofInt64, Option.elim_some]
  have hfields : Texts.traverse fieldOfCell
      ⟨Table.cellOfValue (.string (Utf8.lossy e.system.octets)),
        Table.cellOfValue (.string (Utf8.lossy e.target.octets)),
        Table.cellOfValue (.string (Utf8.lossy e.source.octets)),
        Table.cellOfValue (.string (Utf8.lossy e.command.octets)),
        Table.cellOfValue (.string (Utf8.lossy e.arguments.octets))⟩ = .ok e.toTexts := by
    simp only [IsUtf8, octets, Texts.toList, List.forall_mem_cons] at h
    obtain ⟨hsystem, htarget, hsource, hcommand, harguments, -⟩ := h
    simp only [Texts.traverse, fieldOfCell_lossy _ hsystem, fieldOfCell_lossy _ htarget,
      fieldOfCell_lossy _ hsource, fieldOfCell_lossy _ hcommand, fieldOfCell_lossy _ harguments]
    rfl
  have hcells : Event.ofRow (Table.rowOfValue position e.shownRow) = .ok e := by
    show (timerOfCell _).mapError RowDefect.timer >>= _ = _
    rw [htimer]
    show Texts.traverse fieldOfCell _ >>= _ = _
    rw [hfields]
    rfl
  rw [Table.Row.event, hcells]
  rfl

end Event

/-! ## Scripts -/

theorem columnsOf?_mapIdx (es : List Event) (number : Nat → Nat) :
    (es.mapIdx fun i e => e.json (number i)).mapM columnsOf? = some (es.map Event.shownRow) := by
  induction es generalizing number with
  | nil => rfl
  | cons e es ih =>
    have hrest := ih fun i => number (i + 1)
    simp only [List.mapIdx_cons, List.mapM_cons, Event.columnsOf?_json, hrest]
    rfl

theorem kept_shownRows (es : List Event) : (Json.Value.array (es.map Event.shownRow)).Kept Json.maxDepth := by
  intro v hv
  obtain ⟨e, -, rfl⟩ := List.mem_map.mp hv
  simp [Event.shownRow, Json.Value.Kept, Json.Number.Kept]

theorem events_shownRows {es : List Event} (h : ∀ e ∈ es, e.IsUtf8) :
    List.Forall₂ (fun row e => row.event = .ok e) ((es.map Event.shownRow).mapIdx Table.rowOfValue) es := by
  rw [List.forall₂_iff_get]
  refine ⟨by simp, ?_⟩
  intro i hi hi'
  simp only [List.get_eq_getElem, List.getElem_mapIdx, List.getElem_map]
  exact Event.event_rowOfValue (h _ (List.getElem_mem hi')) i

namespace Compile

/-- **Inspecting loses nothing.** Take a script with at least one event, all of whose texts are UTF-8. The
JSON objects that inspecting it shows are read back from their compact text, together or one by one; and the
array of the rows that they have under the names of the columns, as compact text, is a table that compiles to
the very octets of the script, and to as many records as its header counts. -/
theorem compileTable_rendered {script : Bytes} {f : Script} (hdecode : Script.decode script = .ok f)
    (hcount : 1 ≤ f.header.count.toNat) (hutf8 : ∀ e ∈ f.events, e.IsUtf8) :
    ∃ objects rows,
      Json.read (Utf8.encode (Json.Value.array f.recordsJson).text) = .ok (.array objects) ∧
      f.recordsJson.mapM (fun v => Json.read (Utf8.encode v.text)) = .ok objects ∧
      objects.mapM columnsOf? = some rows ∧
      compileTable .json (Utf8.encode (Json.Value.array rows).text) =
        .ok ⟨script, f.header.count.toNat⟩ := by
  obtain ⟨hconsistent, rfl⟩ := Script.decode_eq_ok_iff.mp hdecode
  have hobject : ∀ v ∈ f.recordsJson, ∃ index e, v = Event.json index e := by
    intro v hv
    obtain ⟨i, hi, rfl⟩ := List.mem_mapIdx.mp hv
    exact ⟨i + 1, f.events[i], rfl⟩
  refine ⟨f.recordsJson, f.events.map Event.shownRow, ?_, ?_, ?_, ?_⟩
  · apply Json.read_text
    intro v hv
    obtain ⟨index, e, rfl⟩ := hobject v hv
    exact e.kept_json index
  · rw [mapM_eq_ok_iff, List.forall₂_same]
    intro v hv
    obtain ⟨index, e, rfl⟩ := hobject v hv
    exact e.read_json index
  · exact columnsOf?_mapIdx f.events Nat.succ
  · have hread := Json.read_text (kept_shownRows f.events)
    have hrows : Table.rows .json (Utf8.encode (Json.Value.array (f.events.map Event.shownRow)).text) =
        .ok ((f.events.map Event.shownRow).mapIdx Table.rowOfValue) := by
      rw [Table.rows, Table.read, Table.ofJson_eq hread rfl]
      rfl
    rw [compileTable_eq_ok_iff]
    refine ⟨_, f.events, hrows, events_eq_ok_iff.mpr (events_shownRows hutf8), ?_, hconsistent.length_le, ?_⟩
    · rw [hconsistent.count] at hcount
      exact List.length_pos_iff.mp hcount
    · rw [← hconsistent.eq_ofEvents, hconsistent.count]

/-- An event at the earliest time, whose texts have what JSON escapes, what is not ASCII, and nothing. -/
def earliest : Event where
  system := ⟨Utf8.encode "a\"\\", by decide⟩
  target := ⟨Utf8.encode "\n\x7f", by decide⟩
  source := ⟨Utf8.encode "é😀", by decide⟩
  command := ⟨Utf8.encode "", by decide⟩
  arguments := ⟨Utf8.encode "x;;\t", by decide⟩
  timer := Int64.minValue

/-- An event at the latest time, without texts but one. -/
def latest : Event where
  system := ⟨[], List.not_mem_nil⟩
  target := ⟨[], List.not_mem_nil⟩
  source := ⟨[], List.not_mem_nil⟩
  command := ⟨Utf8.encode "y", by decide⟩
  arguments := ⟨[], List.not_mem_nil⟩
  timer := Int64.maxValue

theorem isUtf8_earliest_latest : ∀ e ∈ [latest, earliest], e.IsUtf8 := by
  simp only [Event.IsUtf8, Event.octets, Texts.toList, List.forall_mem_cons]
  exact ⟨⟨⟨"", rfl⟩, ⟨"", rfl⟩, ⟨"", rfl⟩, ⟨_, rfl⟩, ⟨"", rfl⟩, by simp⟩,
    ⟨⟨_, rfl⟩, ⟨_, rfl⟩, ⟨_, rfl⟩, ⟨_, rfl⟩, ⟨_, rfl⟩, by simp⟩, by simp⟩

/-- Events keep their order, whatever their times are. -/
theorem compileTable_rendered_in_order :
    ∃ objects rows,
      Json.read (Utf8.encode (Json.Value.array [latest.json 1, earliest.json 2]).text) =
        .ok (.array objects) ∧
      objects.mapM columnsOf? = some rows ∧
      compileTable .json (Utf8.encode (Json.Value.array rows).text) =
        .ok ⟨(Script.ofEvents [latest, earliest]).encode, 2⟩ := by
  have hdecode : Script.decode (Script.ofEvents [latest, earliest]).encode =
      .ok (Script.ofEvents [latest, earliest]) :=
    Script.decode_eq_ok_iff.mpr ⟨Script.consistent_ofEvents (by decide), rfl⟩
  obtain ⟨objects, rows, hread, -, hrows, hcompile⟩ :=
    compileTable_rendered hdecode (by decide) isUtf8_earliest_latest
  exact ⟨objects, rows, hread, hrows, hcompile⟩

end Compile

end EventScript
