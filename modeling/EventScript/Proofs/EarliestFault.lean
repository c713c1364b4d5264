import EventScript.Proofs.Compiling

/-!
# The fault that a table is refused for

* `numbered_of_rows`: the rows of a table are numbered by their places, from 1 and without gaps, in either
  format.
* `compileRows_eq_error_iff`: rows are refused for the earliest of them that gives no event, and only if each
  of them gives one as too few or too many for a script.
* `compileTable_earliest_fault`: compiling row by row comes to the same as compiling stage by stage, fault by
  fault; where the fault of a row stands, and which kinds of fault there are.
-/

namespace EventScript

open Outcome

/-! ## Faults of the stages -/

@[simp]
theorem RowDefect.row_fault (d : RowDefect) (index : Nat) : (d.fault index).row = some index := by
  cases d <;> rfl

/-- The kinds of fault that a row can be refused for. -/
theorem RowDefect.kind_fault (d : RowDefect) (index : Nat) :
    (d.fault index).kind ∈ [Fault.Kind.rowArity, .fieldType, .embeddedTerminator] := by
  cases d <;> simp [fault, EmbeddedNul.fault]

@[simp]
theorem Table.Malformed.kind_fault (m : Table.Malformed) : m.fault.kind = .parse := by
  cases m <;> rfl

namespace Table

theorem Row.event_eq_error_iff {row : Row} {fault : Fault} :
    row.event = .error fault ↔ ∃ d, Event.ofRow row = .error d ∧ d.fault row.index = fault :=
  mapError_eq_error_iff

theorem rows_eq_error_iff {format : Format} {input : Bytes} {fault : Fault} :
    rows format input = .error fault ↔ ∃ m, read format input = .error m ∧ m.fault = fault :=
  mapError_eq_error_iff

/-! ## Numbers of rows -/

/-- Rows are numbered by their places, from 1 and without gaps. -/
def Numbered (rows : List Row) : Prop :=
  ∀ before row after, rows = before ++ row :: after → row.index = before.length + 1

theorem numbered_mapIdx {α : Type} {f : Nat → α → Row} (h : ∀ i a, (f i a).index = i + 1) (as : List α) :
    Numbered (as.mapIdx f) := by
  intro before row after heq
  have hget : (as.mapIdx f)[before.length]? = some row := by
    rw [heq, List.getElem?_append_right (Nat.le_refl _), Nat.sub_self, List.getElem?_cons_zero]
  rw [List.getElem?_mapIdx, Option.map_eq_some_iff] at hget
  obtain ⟨a, -, rfl⟩ := hget
  exact h _ a

theorem index_mapIdx {α : Type} {f : Nat → α → Row} (h : ∀ i a, (f i a).index = i + 1) (as : List α) :
    (as.mapIdx f).map Row.index = List.range' 1 as.length := by
  apply List.ext_getElem
  · simp
  · intro i _ _
    simp [h, Nat.add_comm]

/-- Records that are skipped and values that are no arrays leave no gap. -/
theorem numbered_of_rows {format : Format} {input : Bytes} {rs : List Row}
    (h : rows format input = .ok rs) : Numbered rs := by
  rw [rows, mapError_eq_ok_iff] at h
  cases format with
  | csv =>
    cases h
    exact numbered_mapIdx (fun _ _ => rfl) _
  | json =>
    obtain ⟨document, -, h⟩ := bind_eq_ok_iff.mp h
    obtain ⟨values, -, h⟩ := bind_eq_ok_iff.mp h
    cases h
    exact numbered_mapIdx (fun _ _ => rfl) _

end Table

namespace Compile

open Table (Format Row)

/-! ## Rows one at a time and all together -/

/-- The script of some rows, each of which is turned into an event before any event is used. -/
def assembleRows (rows : List Row) : Except Fault Bytes := do
  let es ← Table.events rows
  (Script.assemble es).mapError Script.Refusal.fault

/-- Each event is used as soon as there is one, and it makes no difference. -/
theorem map_script_compileRows (rows : List Row) :
    (compileRows rows).map Compiled.script = assembleRows rows := by
  rw [compileRows_eq, assembleRows]
  cases Table.events rows with
  | error fault => rfl
  | ok es =>
    show ((Script.assemble es).mapError Script.Refusal.fault >>= fun script =>
      Except.ok (Compiled.mk script es.length)).map Compiled.script =
        (Script.assemble es).mapError Script.Refusal.fault
    cases (Script.assemble es).mapError Script.Refusal.fault <;> rfl

/-- The fault of the earliest row that gives no event, whatever comes after that row. -/
theorem compileRows_append_cons {before : List Row} {row : Row} {fault : Fault}
    (hbefore : ∀ r ∈ before, ∃ e, r.event = .ok e) (hrow : row.event = .error fault) (after : List Row) :
    compileRows (before ++ row :: after) = .error fault := by
  have hevents : Table.events (before ++ row :: after) = .error fault :=
    mapM_eq_error_iff.mpr ⟨before, row, after, rfl, hbefore, hrow⟩
  rw [compileRows_eq, hevents]
  rfl

theorem compileRows_eq_error_iff {rows : List Row} {fault : Fault} :
    compileRows rows = .error fault ↔
      (∃ before row after, rows = before ++ row :: after ∧ (∀ r ∈ before, ∃ e, r.event = .ok e) ∧
        row.event = .error fault) ∨
      ∃ es r, Table.events rows = .ok es ∧ Script.assemble es = .error r ∧ r.fault = fault := by
  rw [compileRows_eq, bind_eq_error_iff, Table.events, mapM_eq_error_iff]
  refine or_congr_right (exists_congr fun es => ?_)
  rw [exists_and_left, bind_eq_error_iff, mapError_eq_error_iff]
  refine and_congr_right fun _ => ⟨?_, .inl⟩
  rintro (h | ⟨script, -, h⟩)
  · exact h
  · cases h

/-- Rows are refused as no data exactly if there are none. -/
theorem compileRows_noData_iff {rows : List Row} :
    (∃ fault, compileRows rows = .error fault ∧ fault.kind = .noData) ↔ rows = [] := by
  constructor
  · rintro ⟨fault, h, hkind⟩
    rcases compileRows_eq_error_iff.mp h with ⟨-, row, -, -, -, hrow⟩ | ⟨es, r, hes, hassemble, rfl⟩
    · obtain ⟨d, -, rfl⟩ := Row.event_eq_error_iff.mp hrow
      have hmem := d.kind_fault row.index
      rw [hkind] at hmem
      exact absurd hmem (by decide)
    · rcases Script.assemble_eq_error_iff.mp hassemble with ⟨rfl, -⟩ | ⟨-, rfl⟩
      · exact List.forall₂_nil_right_iff.mp (events_eq_ok_iff.mp hes)
      · cases hkind
  · rintro rfl
    exact ⟨_, rfl, rfl⟩

/-! ## Tables -/

theorem compileTable_of_rows {format : Format} {input : Bytes} {rows : List Row}
    (h : Table.rows format input = .ok rows) : compileTable format input = compileRows rows := by
  rw [compileTable, h]
  rfl

theorem kind_of_compileTable {format : Format} {input : Bytes} {fault : Fault}
    (h : compileTable format input = .error fault) :
    fault.kind ∈
      [Fault.Kind.parse, .rowArity, .fieldType, .embeddedTerminator, .noData, .usage] := by
  rcases bind_eq_error_iff.mp h with hrows | ⟨rows, -, hcompile⟩
  · obtain ⟨m, -, rfl⟩ := Table.rows_eq_error_iff.mp hrows
    simp
  · rcases compileRows_eq_error_iff.mp hcompile with ⟨-, row, -, -, -, hrow⟩ | ⟨-, r, -, -, rfl⟩
    · obtain ⟨d, -, rfl⟩ := Row.event_eq_error_iff.mp hrow
      have hmem := d.kind_fault row.index
      simp only [List.mem_cons, List.not_mem_nil, or_false] at hmem ⊢
      tauto
    · cases r <;> simp [Script.Refusal.fault]

/-- **The earliest fault.** If a table can be read, compiling it row by row gives the same script, or the same
fault in all its parts, as turning all of its rows into events and then assembling these. If some row gives no
event, the fault is that of the earliest such row: it names this row by its place, counted from 1, each row
before gives an event, and the rows after do not matter. Whatever the table, the fault is of one of six kinds,
and it is that there is no data exactly if the table can be read and has no rows. -/
theorem compileTable_earliest_fault (format : Format) (input : Bytes) :
    (∀ rows, Table.rows format input = .ok rows →
      (compileTable format input).map Compiled.script = assembleRows rows ∧
      ((∃ row ∈ rows, ∃ fault, row.event = .error fault) →
        ∃ before row after fault, rows = before ++ row :: after ∧
          (∀ r ∈ before, ∃ e, r.event = .ok e) ∧ row.event = .error fault ∧
          fault.row = some (before.length + 1) ∧ compileTable format input = .error fault ∧
          ∀ others, compileRows (before ++ row :: others) = .error fault)) ∧
    (∀ fault, compileTable format input = .error fault →
      fault.kind ∈
        [Fault.Kind.parse, .rowArity, .fieldType, .embeddedTerminator, .noData, .usage]) ∧
    ((∃ fault, compileTable format input = .error fault ∧ fault.kind = .noData) ↔
      Table.rows format input = .ok []) := by
  refine ⟨fun rows hrows => ⟨?_, ?_⟩, fun fault => kind_of_compileTable, ?_⟩
  · rw [compileTable_of_rows hrows, map_script_compileRows]
  · rintro ⟨row, hmem, fault, hrow⟩
    have hnone : ¬ ∃ es, Table.events rows = .ok es := by
      rw [exists_events_iff]
      intro hall
      obtain ⟨e, he⟩ := hall row hmem
      cases he.symm.trans hrow
    cases hevents : Table.events rows with
    | ok es => exact absurd ⟨es, hevents⟩ hnone
    | error first =>
      obtain ⟨before, row, after, rfl, hbefore, hrow⟩ := mapM_eq_error_iff.mp hevents
      have hcompile := compileRows_append_cons hbefore hrow
      obtain ⟨d, -, rfl⟩ := Row.event_eq_error_iff.mp hrow
      refine ⟨before, row, after, _, rfl, hbefore, hrow, ?_, ?_, hcompile⟩
      · rw [RowDefect.row_fault, Table.numbered_of_rows hrows before row after rfl]
      · rw [compileTable_of_rows hrows, hcompile]
  · cases hrows : Table.rows format input with
    | error fault =>
      obtain ⟨m, -, rfl⟩ := Table.rows_eq_error_iff.mp hrows
      have hcompile : compileTable format input = .error m.fault := by
        rw [compileTable, hrows]
        rfl
      simp [hcompile]
    | ok rows =>
      rw [compileTable_of_rows hrows, compileRows_noData_iff, Except.ok.injEq]

/-- The second row of a table is at fault, and so is the third. A record that is no row stands before it. -/
theorem compileTable_earliest_fault_second :
    ∃ before row after fault,
      Table.ofCsv (Utf8.encode "0,a,b,c,d,e\n\"\"\nsoon,a,b,c,d,e\n1\n") = before ++ row :: after ∧
        before.length = 1 ∧ fault.kind = .fieldType ∧
        ∀ others, compileRows (before ++ row :: others) = .error fault := by
  have hfault : ∃ fault,
      compileTable .csv (Utf8.encode "0,a,b,c,d,e\n\"\"\nsoon,a,b,c,d,e\n1\n") = .error fault ∧
        fault.row = some 2 ∧ fault.kind = .fieldType :=
    ⟨_, rfl, rfl, rfl⟩
  obtain ⟨fault, hcompiled, hrow, hkind⟩ := hfault
  obtain ⟨before, row, after, first, hrows, -, -, hplace, hcompile, hothers⟩ :=
    ((compileTable_earliest_fault .csv (Utf8.encode "0,a,b,c,d,e\n\"\"\nsoon,a,b,c,d,e\n1\n")).1 _ rfl).2
      ⟨_, List.mem_cons_of_mem _ List.mem_cons_self, _, rfl⟩
  cases hcompiled.symm.trans hcompile
  rw [hrow, Option.some.injEq] at hplace
  exact ⟨before, row, after, fault, hrows, by omega, hkind, hothers⟩

end Compile

end EventScript
