import EventScript.Compile
import EventScript.Proofs.ScriptRoundTrip

/-!
# What tables compile to

* `compileRows_eq`: turning rows into events one at a time and giving each to the builder at once comes to the
  same as turning all of them into events first and assembling these.
* `compileTable_eq_ok_iff`: a table compiles exactly when its rows can be read, each of them gives an event,
  and a header can count them; what it compiles to is the script of these events.
* `compileTable_decode`: the script that a table compiles to is read back as the events of its rows.
-/

namespace EventScript

open Outcome

namespace Compile

open Table (Format Row)

/-! ## Rows -/

theorem pushRows_eq (b : Script.Builder) (rows : List Row) :
    pushRows b rows = (Table.events rows).map b.pushAll := by
  induction rows generalizing b with
  | nil => rfl
  | cons row rows ih =>
    rw [pushRows, Table.events, List.mapM_cons]
    cases row.event with
    | error fault => rfl
    | ok e =>
      have htail := ih (b.push e)
      rw [Table.events] at htail
      show pushRows (b.push e) rows = _
      rw [htail]
      cases rows.mapM Row.event <;> rfl

theorem compileRows_eq (rows : List Row) :
    compileRows rows = do
      let es ← Table.events rows
      let script ← (Script.assemble es).mapError Script.Refusal.fault
      return ⟨script, es.length⟩ := by
  rw [compileRows, pushRows_eq]
  cases Table.events rows with
  | error fault => rfl
  | ok es =>
    have hcount : (Script.Builder.empty.pushAll es).count = es.length := by
      rw [Script.Builder.count_pushAll]
      exact Nat.zero_add _
    show ((Script.assemble es).mapError Script.Refusal.fault >>= fun script =>
      Except.ok (Compiled.mk script (Script.Builder.empty.pushAll es).count)) = _
    rw [hcount]
    rfl

theorem events_eq_ok_iff {rows : List Row} {es : List Event} :
    Table.events rows = .ok es ↔ List.Forall₂ (fun row e => row.event = .ok e) rows es :=
  mapM_eq_ok_iff

/-- Rows have events all together when each of them has one. -/
theorem exists_events_iff {rows : List Row} :
    (∃ es, Table.events rows = .ok es) ↔ ∀ row ∈ rows, ∃ e, row.event = .ok e := by
  simp only [events_eq_ok_iff]
  induction rows with
  | nil => simp
  | cons row rows ih =>
    rw [List.forall_mem_cons, ← ih]
    constructor
    · rintro ⟨es, h⟩
      obtain ⟨e, es, hrow, hrows, rfl⟩ := List.forall₂_cons_left_iff.mp h
      exact ⟨⟨e, hrow⟩, es, hrows⟩
    · rintro ⟨⟨e, hrow⟩, es, hrows⟩
      exact ⟨e :: es, .cons hrow hrows⟩

/-! ## Tables -/

theorem compileTable_eq_ok_iff {format : Format} {input : Bytes} {c : Compiled} :
    compileTable format input = .ok c ↔
      ∃ rows es, Table.rows format input = .ok rows ∧ Table.events rows = .ok es ∧ es ≠ [] ∧
        es.length ≤ Script.maxCount ∧ c = ⟨(Script.ofEvents es).encode, es.length⟩ := by
  simp only [compileTable, compileRows_eq, bind_eq_ok_iff, mapError_eq_ok_iff,
    Script.assemble_eq_ok_iff]
  constructor
  · rintro ⟨rows, hrows, es, hes, script, ⟨hne, hlength, rfl⟩, h⟩
    exact ⟨rows, es, hrows, hes, hne, hlength, (Except.ok.inj h).symm⟩
  · rintro ⟨rows, es, hrows, hes, hne, hlength, rfl⟩
    exact ⟨rows, hrows, es, hes, _, ⟨hne, hlength, rfl⟩, rfl⟩

theorem length_encode_ofEvents (es : List Event) :
    (Script.ofEvents es).encode.length = 14 + (es.map Event.encodedLength).sum := by
  have hheader (count : UInt32) : (Script.Header.ofCount count).encode.length = 14 := by
    have htag : (Script.magic ++ Utf8.encode Script.currentVersion).length = 10 := by decide
    rw [Script.Header.encode, List.length_append, LittleEndian.length_encode]
    exact congrArg (· + 4) htag
  rw [Script.encode, List.length_append, List.length_flatMap]
  simp only [Event.length_encode]
  exact congrArg (· + _) (hheader _)

/-- **Compiling.** A table compiles exactly when it can be read as at least one row and at most as many as a
header can count, and each of them gives an event. The script is then read back, under a header of the
current version that counts the rows, as the events of the rows, all of them and in their order; it is
as long as the header and the records of these events. -/
theorem compileTable_decode (format : Format) (input : Bytes) :
    ((∃ c, compileTable format input = .ok c) ↔
      ∃ rows, Table.rows format input = .ok rows ∧ 1 ≤ rows.length ∧ rows.length ≤ 4294967295 ∧
        ∀ row ∈ rows, ∃ e, row.event = .ok e) ∧
    ∀ c, compileTable format input = .ok c →
      ∃ rows es count, Table.rows format input = .ok rows ∧
        List.Forall₂ (fun row e => row.event = .ok e) rows es ∧
        Script.decode c.script = .ok ⟨⟨"v0.9.0", count⟩, es⟩ ∧
        count.toNat = c.records ∧ c.records = rows.length ∧
        c.script.length = 14 + (es.map Event.encodedLength).sum := by
  constructor
  · constructor
    · rintro ⟨c, h⟩
      obtain ⟨rows, es, hrows, hes, hne, hlength, -⟩ := compileTable_eq_ok_iff.mp h
      have hsame : rows.length = es.length := (events_eq_ok_iff.mp hes).length_eq
      refine ⟨rows, hrows, ?_, ?_, exists_events_iff.mp ⟨es, hes⟩⟩
      · rw [hsame]
        exact List.length_pos_iff.mpr hne
      · rw [hsame]
        exact hlength
    · rintro ⟨rows, hrows, hpos, hlength, hall⟩
      obtain ⟨es, hes⟩ := exists_events_iff.mpr hall
      have hsame : rows.length = es.length := (events_eq_ok_iff.mp hes).length_eq
      rw [hsame] at hpos hlength
      exact ⟨_, compileTable_eq_ok_iff.mpr
        ⟨rows, es, hrows, hes, List.length_pos_iff.mp hpos, hlength, rfl⟩⟩
  · intro c h
    obtain ⟨rows, es, hrows, hes, hne, hlength, rfl⟩ := compileTable_eq_ok_iff.mp h
    have hall := events_eq_ok_iff.mp hes
    refine ⟨rows, es, UInt32.ofNat es.length, hrows, hall, ?_, ?_, ?_, ?_⟩
    · exact Script.decode_eq_ok_iff.mpr ⟨Script.consistent_ofEvents hlength, rfl⟩
    · exact Script.toNat_count_ofEvents hlength
    · exact hall.length_eq.symm
    · exact length_encode_ofEvents es

/-- A table of two rows, the second of which has empty texts only. -/
theorem compileTable_decode_two_rows :
    ∃ c es count, compileTable .csv (Utf8.encode "-1,a,b,c,d,e\n7,,,,,\n") = .ok c ∧
      Script.decode c.script = .ok ⟨⟨"v0.9.0", count⟩, es⟩ ∧ count.toNat = 2 := by
  obtain ⟨c, hc, htwo⟩ : ∃ c, compileTable .csv (Utf8.encode "-1,a,b,c,d,e\n7,,,,,\n") = .ok c ∧
      c.records = 2 :=
    ⟨_, rfl, rfl⟩
  obtain ⟨rows, es, count, -, -, hdecode, hcount, -⟩ := (compileTable_decode _ _).2 c hc
  exact ⟨c, es, count, hc, hdecode, hcount.trans htwo⟩

end Compile

end EventScript
