import EventScript.Proofs.JudgedRows
import EventScript.Proofs.TextTimers

/-!
# The fault that a row is refused for

What stands in a row decides what becomes of it: which cells are nested, which octets the others write, and which
integer the first one tells.

* `timerOfCell_eq_ok_iff`: the cells that tell a timer, and the timer of each.
* `exists_leftmost`: the leftmost cell at fault has a column, whose name is told by the place of the cell.
* `event_leftmost`: the fault of a row is that of its leftmost cell at fault, and a row without one gives the
  event of its cells.
-/

namespace EventScript

open Table (Cell Row)

/-- A cell tells a timer: a text is a numeral of it, white space around that allowed, and a number has it for its
exact value. No other cell tells any. -/
inductive TimerForm : Cell → Int64 → Prop
  | text {octets : Bytes} {timer : Int64} (h : PaddedNumeral octets timer.toInt) :
      TimerForm (.text octets) timer
  | number {n : Json.Number} {timer : Int64} (h : (timer.toInt : ℚ) = n.exact) : TimerForm (.number n) timer

theorem timerOfCell_eq_ok_iff {cell : Cell} {timer : Int64} :
    timerOfCell cell = .ok timer ↔ TimerForm cell timer := by
  have hnumber (n : Json.Number) : timerOfCell (.number n) = .ok timer ↔ (timer.toInt : ℚ) = n.exact := by
    rw [timerOfCell_number, timerOfNumber?_eq_some_iff]
  constructor
  · intro h
    cases cell with
    | text octets => exact .text (timerOfCell_text_iff.mp h)
    | number n => exact .number ((hnumber n).mp h)
    | bool b => cases h
    | null => cases h
    | nested => cases h
  · intro h
    cases h with
    | text h => exact timerOfCell_text_iff.mpr h
    | number h => exact (hnumber _).mpr h

/-- The names of the columns that hold text, in order. -/
def textNames : List String :=
  ["system", "to", "from", "command", "arguments"]

theorem exists_leftmost {texts before after : List Cell} {cell : Cell} (hlength : texts.length = 5)
    (hsplit : texts = before ++ cell :: after) (hbefore : ∀ c ∈ before, HoldsText c) :
    ∃ column, Leftmost texts column cell ∧ textNames[before.length]? = some column.name := by
  have hlt : before.length < Column.texts.length := by
    have hcolumns : Column.texts.length = 5 := rfl
    rw [hsplit, List.length_append, List.length_cons] at hlength
    omega
  have hcolumn : Column.texts[before.length]? = some Column.texts[before.length] :=
    List.getElem?_eq_getElem hlt
  have hnames : textNames = Column.texts.map Column.name := rfl
  refine ⟨_, ⟨before, after, hsplit, hcolumn, hbefore⟩, ?_⟩
  rw [hnames, List.getElem?_map, hcolumn]
  rfl

namespace Table.Row

/-- **The leftmost fault.** A row is refused for its number of cells exactly if it is no list of six; else for its
timer exactly if the first cell holds none, whatever the others hold; else for the leftmost of the other cells
that is nested, or whose text form has a NUL, told by its place, under the name of its column. Each fault carries
the number of the row. All other rows, and no more, give the event of their timer and of the five text forms in
order, none of which has a NUL. -/
theorem event_leftmost (row : Row) :
    ((∃ fault, row.event = .error fault ∧ fault.kind = .rowArity) ↔
      ∀ cells, row.cells = some cells → cells.length ≠ 6) ∧
    (∀ first texts, row.cells = some (first :: texts) → texts.length = 5 →
      ((∃ fault, row.event = .error fault ∧ fault.kind = .fieldType ∧ fault.field = some "timer") ↔
        ∀ timer, ¬ TimerForm first timer) ∧
      ∀ timer, TimerForm first timer → ∀ before cell after, texts = before ++ cell :: after →
        (∀ c ∈ before, HoldsText c) →
        (cell = .nested → ∃ fault, row.event = .error fault ∧ fault.kind = .fieldType ∧
          fault.field = textNames[before.length]?) ∧
        ∀ text tail, TextForm cell (text ++ Ascii.nul :: tail) → Ascii.nul ∉ text →
          ∃ fault, row.event = .error fault ∧ fault.kind = .embeddedTerminator ∧
            fault.field = textNames[before.length]? ∧
            fault.message = some ("field contains a NUL byte at position " ++ Decimal.nat text.length)) ∧
    (∀ fault, row.event = .error fault → fault.row = some row.index) ∧
    ((∃ e, row.event = .ok e) ↔
      ∃ first texts, row.cells = some (first :: texts) ∧ texts.length = 5 ∧
        (∃ timer, TimerForm first timer) ∧ ∀ cell ∈ texts, HoldsText cell) ∧
    (∀ e, row.event = .ok e →
      ∃ first texts, row.cells = some (first :: texts) ∧ TimerForm first e.timer ∧
        List.Forall₂ TextForm texts e.octets.toList ∧ ∀ octets ∈ e.octets.toList, Ascii.nul ∉ octets) := by
  simp only [← timerOfCell_eq_ok_iff]
  refine ⟨exists_rowArity_iff, ?_, ?_, exists_event_iff, ?_⟩
  · intro first texts hcells hlength
    refine ⟨exists_timer_iff hcells hlength, ?_⟩
    intro timer hfirst before cell after hsplit hbefore
    obtain ⟨column, hleft, hname⟩ := exists_leftmost hlength hsplit hbefore
    rw [hname]
    constructor
    · intro hnested
      have hcell : fieldOfCell column cell = .error (.nested column) :=
        fieldOfCell_eq_error_iff.mpr (.inl ⟨hnested, rfl⟩)
      exact ⟨_, event_of_judged (.text hcells hlength hfirst hleft hcell), rfl, rfl⟩
    · intro text tail hform htext
      have hcell : fieldOfCell column cell = .error (.embeddedNul ⟨column, text.length⟩) :=
        fieldOfCell_eq_error_iff.mpr (.inr ⟨text, tail, hform, htext, rfl⟩)
      exact ⟨_, event_of_judged (.text hcells hlength hfirst hleft hcell), rfl, rfl, rfl⟩
  · intro fault h
    obtain ⟨d, -, rfl⟩ := event_eq_error_iff.mp h
    exact RowDefect.row_fault d row.index
  · intro e h
    cases event_eq_ok_iff.mp h with
    | event hcells hfirst htexts =>
      exact ⟨_, _, hcells, hfirst, htexts, fun _ hoctets => Event.nulFree_of_mem_octets hoctets⟩

/-- A row with a NUL in one cell, twice, and a nested cell to the right of it. -/
def severalFaults : Row :=
  ⟨3, none, some [.text [0x37], .null, .text [0x61, 0x00, 0x00], .nested, .bool true, .nested]⟩

/-- A row with a nested cell, and a NUL to the right of it. -/
def nestedFirst : Row :=
  ⟨4, none, some [.text [0x37], .bool false, .number (.whole (.ofInt64 5)), .nested, .text [0x00], .null]⟩

/-- A row without a timer, and nested cells to the right of that. -/
def timerless : Row :=
  ⟨5, none, some [.bool true, .nested, .nested, .null, .null, .null]⟩

theorem event_leftmost_severalFaults :
    (∃ fault, severalFaults.event = .error fault ∧ fault.kind = .embeddedTerminator ∧
      fault.field = some "to" ∧ fault.row = some 3) ∧
    (∃ fault, nestedFirst.event = .error fault ∧ fault.kind = .fieldType ∧ fault.field = some "from" ∧
      fault.row = some 4) ∧
    ∃ fault, timerless.event = .error fault ∧ fault.kind = .fieldType ∧ fault.field = some "timer" ∧
      fault.row = some 5 := by
  have htimer : TimerForm (.text [0x37]) 7 := timerOfCell_eq_ok_iff.mp rfl
  refine ⟨?_, ?_, ?_⟩
  · obtain ⟨-, hsix, hindex, -⟩ := event_leftmost severalFaults
    have hbefore : ∀ c ∈ [Cell.null], HoldsText c :=
      List.forall_mem_singleton.mpr ⟨_, .null, by decide⟩
    obtain ⟨-, hfault⟩ := (hsix _ _ rfl rfl).2 7 htimer [.null] _ _ rfl hbefore
    obtain ⟨fault, hevent, hkind, hfield, -⟩ := hfault [0x61] [0x00] (.text _) (by decide)
    exact ⟨fault, hevent, hkind, hfield, hindex fault hevent⟩
  · obtain ⟨-, hsix, hindex, -⟩ := event_leftmost nestedFirst
    have hfive : (Json.Value.number (.whole (.ofInt64 5))).text = "5" := by cbv
    have hnumber : Ascii.nul ∉ Utf8.encode (Json.Value.number (.whole (.ofInt64 5))).text := by
      rw [hfive]
      decide
    have hbefore : ∀ c ∈ [Cell.bool false, .number (.whole (.ofInt64 5))], HoldsText c :=
      List.forall_mem_cons.mpr ⟨⟨_, .false, by decide⟩, List.forall_mem_singleton.mpr ⟨_, .number _, hnumber⟩⟩
    obtain ⟨hfault, -⟩ :=
      (hsix _ _ rfl rfl).2 7 htimer [.bool false, .number (.whole (.ofInt64 5))] _ _ rfl hbefore
    obtain ⟨fault, hevent, hkind, hfield⟩ := hfault rfl
    exact ⟨fault, hevent, hkind, hfield, hindex fault hevent⟩
  · obtain ⟨-, hsix, hindex, -⟩ := event_leftmost timerless
    have hnone : ∀ timer, ¬ TimerForm (.bool true) timer := by
      intro timer h
      cases h
    obtain ⟨fault, hevent, hkind, hfield⟩ := (hsix _ _ rfl rfl).1.mpr hnone
    exact ⟨fault, hevent, hkind, hfield, hindex fault hevent⟩

end Table.Row

end EventScript
