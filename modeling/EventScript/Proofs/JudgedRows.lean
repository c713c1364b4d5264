import EventScript.Json.Writer
import EventScript.Proofs.EarliestFault

/-!
# What becomes of a row

* `Texts.map_toList_traverse`: going over five texts is going over the list of them, each with its column.
* `textOfCell?_eq_some_iff`, `textOfCell?_eq_none_iff`: the text form of each cell, and the cells that have none.
* `fieldOfCell_eq_error_iff`: what a cell is refused for as the text of a column.
* `judged_ofRow`: what becomes of a row, in five cases from left to right; only one of them is ever so.
* `exists_rowArity_iff`, `exists_timer_iff`, `exists_event_iff`: the rows that are refused for their number of
  cells, or for their timer, and the rows that give an event.
-/

namespace EventScript

open Outcome
open Table (Cell Row)

/-! ## Five things -/

namespace Texts

variable {α β ε : Type}

theorem exists_toList {l : List α} (h : l.length = 5) : ∃ t : Texts α, l = t.toList := by
  match l, h with
  | [system, target, source, command, arguments], _ =>
    exact ⟨⟨system, target, source, command, arguments⟩, rfl⟩

theorem toList_inj {t u : Texts α} : t.toList = u.toList ↔ t = u := by
  obtain ⟨system, target, source, command, arguments⟩ := t
  obtain ⟨system', target', source', command', arguments'⟩ := u
  simp [toList]

theorem map_toList_traverse (f : Column → α → Except ε β) (t : Texts α) :
    (t.traverse f).map toList = (Column.texts.zip t.toList).mapM fun p => f p.1 p.2 := by
  simp only [traverse, toList, Column.texts, List.zip_cons_cons, List.zip_nil_right, List.mapM_cons,
    List.mapM_nil, map_bind, bind_assoc]
  rfl

theorem traverse_eq_ok_iff {f : Column → α → Except ε β} {t : Texts α} {u : Texts β} :
    t.traverse f = .ok u ↔
      List.Forall₂ (fun p b => f p.1 p.2 = .ok b) (Column.texts.zip t.toList) u.toList := by
  rw [← mapM_eq_ok_iff, ← map_toList_traverse, map_eq_ok_iff]
  simp only [toList_inj, exists_eq_right]

theorem traverse_eq_error_iff {f : Column → α → Except ε β} {t : Texts α} {e : ε} :
    t.traverse f = .error e ↔
      ∃ before p after, Column.texts.zip t.toList = before ++ p :: after ∧
        (∀ q ∈ before, ∃ b, f q.1 q.2 = .ok b) ∧ f p.1 p.2 = .error e := by
  rw [← mapM_eq_error_iff, ← map_toList_traverse]
  cases t.traverse f <;> simp [Except.map]

end Texts

/-! ## Cells -/

/-- The text form of a cell: the octets of a text as they are, a number as in JSON, and the words for the constants.
A list or an object has none. -/
inductive TextForm : Cell → Bytes → Prop
  | text (octets : Bytes) : TextForm (.text octets) octets
  | number (n : Json.Number) : TextForm (.number n) (Utf8.encode (Json.Value.number n).text)
  | true : TextForm (.bool true) (Utf8.encode "true")
  | false : TextForm (.bool false) (Utf8.encode "false")
  | null : TextForm .null (Utf8.encode "null")

theorem textOfCell?_eq_some_iff {cell : Cell} {octets : Bytes} :
    textOfCell? cell = some octets ↔ TextForm cell octets := by
  have hnumber (n : Json.Number) : (Json.Value.number n).text = n.text := by
    rw [Json.Value.text, Json.Value.chars, Json.Number.text]
  constructor
  · intro h
    cases cell with
    | text => cases h; exact .text _
    | number n => cases h; exact hnumber n ▸ .number n
    | bool b => cases h; cases b; exacts [.false, .true]
    | null => cases h; exact .null
    | nested => cases h
  · intro h
    cases h with
    | number n => rw [hnumber]; rfl
    | _ => rfl

theorem textOfCell?_eq_none_iff {cell : Cell} : textOfCell? cell = none ↔ cell = .nested := by
  cases cell <;> simp [textOfCell?]

/-- A cell has a text form, and that has no NUL. -/
def HoldsText (cell : Cell) : Prop :=
  ∃ text, TextForm cell text ∧ Ascii.nul ∉ text

theorem Event.field_eq_ok_iff {column : Column} {octets : Bytes} {f : Field} :
    Event.field column octets = .ok f ↔ octets = f.octets := by
  constructor
  · intro h
    by_cases hnul : Ascii.nul ∈ octets
    · rw [Event.field, Field.ofBytes?_eq_none_iff.mpr hnul] at h
      cases h
    · have hsome : Field.ofBytes? octets = some ⟨octets, hnul⟩ := Field.ofBytes?_octets ⟨octets, hnul⟩
      rw [Event.field, hsome] at h
      cases h
      rfl
  · rintro rfl
    rw [Event.field, Field.ofBytes?_octets]

/-- The first NUL is the one that is told of. -/
theorem Event.field_of_nul (column : Column) {text : Bytes} (h : Ascii.nul ∉ text) (tail : Bytes) :
    Event.field column (text ++ Ascii.nul :: tail) = .error ⟨column, text.length⟩ := by
  have hnone : Field.ofBytes? (text ++ Ascii.nul :: tail) = none :=
    Field.ofBytes?_eq_none_iff.mpr (List.mem_append_right _ List.mem_cons_self)
  have hplace : (text ++ Ascii.nul :: tail).idxOf Ascii.nul = text.length := by
    rw [List.idxOf_append_of_notMem h, List.idxOf_cons_self, Nat.add_zero]
  rw [Event.field, hnone, hplace]

theorem fieldOfCell_eq_ok_iff {column : Column} {cell : Cell} {f : Field} :
    fieldOfCell column cell = .ok f ↔ TextForm cell f.octets := by
  rw [← textOfCell?_eq_some_iff]
  unfold fieldOfCell
  cases textOfCell? cell with
  | none => simp
  | some octets => simp only [mapError_eq_ok_iff, Event.field_eq_ok_iff, Option.some.injEq]

theorem exists_fieldOfCell_iff {column : Column} {cell : Cell} :
    (∃ f, fieldOfCell column cell = .ok f) ↔ HoldsText cell := by
  simp only [fieldOfCell_eq_ok_iff, HoldsText]
  constructor
  · rintro ⟨f, h⟩
    exact ⟨f.octets, h, f.nulFree⟩
  · rintro ⟨text, h, htext⟩
    exact ⟨⟨text, htext⟩, h⟩

/-- A cell is refused as the text of a column for being nested, or for the first NUL of its text form. -/
theorem fieldOfCell_eq_error_iff {column : Column} {cell : Cell} {d : RowDefect} :
    fieldOfCell column cell = .error d ↔
      cell = .nested ∧ d = .nested column ∨
      ∃ text tail, TextForm cell (text ++ Ascii.nul :: tail) ∧ Ascii.nul ∉ text ∧
        d = .embeddedNul ⟨column, text.length⟩ := by
  simp only [← textOfCell?_eq_none_iff, ← textOfCell?_eq_some_iff]
  constructor
  · intro h
    cases hform : textOfCell? cell with
    | none =>
      rw [fieldOfCell, hform] at h
      cases h
      exact .inl ⟨rfl, rfl⟩
    | some octets =>
      by_cases hnul : Ascii.nul ∈ octets
      · obtain ⟨text, tail, rfl, htext⟩ := List.eq_append_cons_of_mem hnul
        simp only [fieldOfCell, hform, Event.field_of_nul column htext] at h
        cases h
        exact .inr ⟨text, tail, rfl, htext, rfl⟩
      · obtain ⟨f, hf⟩ : ∃ f, fieldOfCell column cell = .ok f :=
          exists_fieldOfCell_iff.mpr ⟨octets, textOfCell?_eq_some_iff.mp hform, hnul⟩
        cases h.symm.trans hf
  · rintro (⟨hform, rfl⟩ | ⟨text, tail, hform, htext, rfl⟩)
    · rw [fieldOfCell, hform]
    · simp only [fieldOfCell, hform, Event.field_of_nul column htext]
      rfl

/-- Among cells that should hold texts, that of `column` is `cell`, and those before it hold texts. -/
def Leftmost (texts : List Cell) (column : Column) (cell : Cell) : Prop :=
  ∃ before after, texts = before ++ cell :: after ∧ Column.texts[before.length]? = some column ∧
    ∀ c ∈ before, HoldsText c

theorem leftmost_iff {t : Texts Cell} {column : Column} {cell : Cell} :
    Leftmost t.toList column cell ↔
      ∃ before after, Column.texts.zip t.toList = before ++ (column, cell) :: after ∧
        ∀ p ∈ before, HoldsText p.2 := by
  have hlength : Column.texts.length = t.toList.length := rfl
  constructor
  · rintro ⟨before, after, hsplit, hcolumn, hbefore⟩
    obtain ⟨hlt, hget⟩ := List.getElem?_eq_some_iff.mp hcolumn
    have htexts : Column.texts =
        Column.texts.take before.length ++ column :: Column.texts.drop (before.length + 1) := by
      rw [← hget, List.getElem_cons_drop, List.take_append_drop]
    refine ⟨(Column.texts.take before.length).zip before, (Column.texts.drop (before.length + 1)).zip after,
      ?_, ?_⟩
    · rw [hsplit, htexts, List.zip_append (by simp [Nat.min_eq_left hlt.le]), List.zip_cons_cons, ← htexts]
    · intro p hp
      exact hbefore p.2 (List.of_mem_zip hp).2
  · rintro ⟨before, after, hsplit, hbefore⟩
    have hcells := congrArg (List.map Prod.snd) hsplit
    have hcolumns := congrArg (List.map Prod.fst) hsplit
    rw [List.map_snd_zip hlength.ge, List.map_append, List.map_cons] at hcells
    rw [List.map_fst_zip hlength.le, List.map_append, List.map_cons] at hcolumns
    refine ⟨before.map Prod.snd, after.map Prod.snd, hcells, ?_, ?_⟩
    · rw [hcolumns, List.length_map, List.getElem?_append_right (by simp), List.length_map, Nat.sub_self,
        List.getElem?_cons_zero]
    · intro c hc
      obtain ⟨p, hp, rfl⟩ := List.mem_map.mp hc
      exact hbefore p hp

theorem traverse_fieldOfCell_eq_ok_iff {t : Texts Cell} {u : Texts Field} :
    t.traverse fieldOfCell = .ok u ↔ List.Forall₂ TextForm t.toList (u.toList.map Field.octets) := by
  simp [Texts.traverse_eq_ok_iff, Texts.toList, Column.texts, fieldOfCell_eq_ok_iff]

theorem traverse_fieldOfCell_eq_error_iff {t : Texts Cell} {d : RowDefect} :
    t.traverse fieldOfCell = .error d ↔
      ∃ column cell, Leftmost t.toList column cell ∧ fieldOfCell column cell = .error d := by
  simp only [Texts.traverse_eq_error_iff, leftmost_iff, exists_fieldOfCell_iff]
  constructor
  · rintro ⟨before, ⟨column, cell⟩, after, hsplit, hbefore, h⟩
    exact ⟨column, cell, ⟨before, after, hsplit, hbefore⟩, h⟩
  · rintro ⟨column, cell, ⟨before, after, hsplit, hbefore⟩, h⟩
    exact ⟨before, (column, cell), after, hsplit, hbefore, h⟩

/-! ## Rows -/

/-- What becomes of a row, from left to right. -/
inductive Judged (row : Row) : Except RowDefect Event → Prop
  | noCells (h : row.cells = none) : Judged row (.error .noCells)
  | arity {cells : List Cell} (h : row.cells = some cells) (hlength : cells.length ≠ 6) :
      Judged row (.error (.arity cells.length row.line))
  | timer {first : Cell} {texts : List Cell} {d : TimerDefect} (h : row.cells = some (first :: texts))
      (hlength : texts.length = 5) (hfirst : timerOfCell first = .error d) : Judged row (.error (.timer d))
  | text {first cell : Cell} {texts : List Cell} {timer : Int64} {column : Column} {d : RowDefect}
      (h : row.cells = some (first :: texts)) (hlength : texts.length = 5)
      (hfirst : timerOfCell first = .ok timer) (hleft : Leftmost texts column cell)
      (hcell : fieldOfCell column cell = .error d) : Judged row (.error d)
  | event {first : Cell} {texts : List Cell} {e : Event} (h : row.cells = some (first :: texts))
      (hfirst : timerOfCell first = .ok e.timer) (htexts : List.Forall₂ TextForm texts e.octets.toList) :
      Judged row (.ok e)

theorem ofCells_toList (line : Option Nat) (first : Cell) (t : Texts Cell) :
    Event.ofCells line (first :: t.toList) = do
      let timer ← (timerOfCell first).mapError RowDefect.timer
      let fields ← t.traverse fieldOfCell
      return { fields with timer } :=
  rfl

theorem ofCells_of_ne {line : Option Nat} {cells : List Cell} (h : cells.length ≠ 6) :
    Event.ofCells line cells = .error (.arity cells.length line) := by
  unfold Event.ofCells
  split
  · exact absurd rfl h
  · rfl

theorem Judged.eq {row : Row} {r : Except RowDefect Event} (h : Judged row r) : Event.ofRow row = r := by
  cases h with
  | noCells h => rw [Event.ofRow, h]
  | arity h hlength =>
    rw [Event.ofRow, h]
    exact ofCells_of_ne hlength
  | timer h hlength hfirst =>
    obtain ⟨t, rfl⟩ := Texts.exists_toList hlength
    rw [Event.ofRow, h]
    simp only [ofCells_toList, hfirst]
    rfl
  | text h hlength hfirst hleft hcell =>
    obtain ⟨t, rfl⟩ := Texts.exists_toList hlength
    rw [Event.ofRow, h]
    simp only [ofCells_toList, hfirst, traverse_fieldOfCell_eq_error_iff.mpr ⟨_, _, hleft, hcell⟩]
    rfl
  | event h hfirst htexts =>
    obtain ⟨t, rfl⟩ := Texts.exists_toList htexts.length_eq
    rw [Event.ofRow, h]
    simp only [ofCells_toList, hfirst, traverse_fieldOfCell_eq_ok_iff.mpr htexts]
    rfl

theorem judged_ofRow (row : Row) : Judged row (Event.ofRow row) := by
  cases h : row.cells with
  | none =>
    have hdone := Judged.noCells h
    rwa [hdone.eq]
  | some cells =>
    by_cases hlength : cells.length = 6
    · obtain ⟨first, texts, rfl⟩ := List.exists_cons_of_length_eq_add_one hlength
      have hfive : texts.length = 5 := by simpa using hlength
      cases hfirst : timerOfCell first with
      | error d =>
        have hdone := Judged.timer h hfive hfirst
        rwa [hdone.eq]
      | ok timer =>
        obtain ⟨t, rfl⟩ := Texts.exists_toList hfive
        cases htexts : t.traverse fieldOfCell with
        | error d =>
          obtain ⟨column, cell, hleft, hcell⟩ := traverse_fieldOfCell_eq_error_iff.mp htexts
          have hdone := Judged.text h hfive hfirst hleft hcell
          rwa [hdone.eq]
        | ok u =>
          have hdone := Judged.event (e := ⟨u, timer⟩) h hfirst (traverse_fieldOfCell_eq_ok_iff.mp htexts)
          rwa [hdone.eq]
    · have hdone := Judged.arity h hlength
      rwa [hdone.eq]

theorem judged_iff {row : Row} {r : Except RowDefect Event} : Judged row r ↔ Event.ofRow row = r :=
  ⟨Judged.eq, fun h => h ▸ judged_ofRow row⟩

theorem Event.nulFree_of_mem_octets {e : Event} {octets : Bytes} (h : octets ∈ e.octets.toList) :
    Ascii.nul ∉ octets := by
  simp only [Event.octets, Texts.toList, List.mem_cons, List.not_mem_nil, or_false] at h
  rcases h with rfl | rfl | rfl | rfl | rfl <;> exact Field.nulFree _

namespace Table.Row

theorem event_of_judged {row : Row} {d : RowDefect} (h : Judged row (.error d)) :
    row.event = .error (d.fault row.index) := by
  rw [event, h.eq]
  rfl

theorem judged_of_event_error {row : Row} {fault : Fault} (h : row.event = .error fault) :
    ∃ d, Judged row (.error d) ∧ d.fault row.index = fault := by
  obtain ⟨d, hd, hfault⟩ := event_eq_error_iff.mp h
  exact ⟨d, judged_iff.mpr hd, hfault⟩

theorem event_eq_ok_iff {row : Row} {e : Event} : row.event = .ok e ↔ Judged row (.ok e) := by
  rw [event, mapError_eq_ok_iff, judged_iff]

theorem exists_rowArity_iff {row : Row} :
    (∃ fault, row.event = .error fault ∧ fault.kind = .rowArity) ↔
      ∀ cells, row.cells = some cells → cells.length ≠ 6 := by
  constructor
  · rintro ⟨fault, h, hkind⟩ cells hcells
    obtain ⟨d, hd, rfl⟩ := judged_of_event_error h
    cases hd with
    | noCells hnone => cases hnone.symm.trans hcells
    | arity hsome hlength =>
      cases hsome.symm.trans hcells
      exact hlength
    | timer => cases hkind
    | text _ _ _ _ hcell =>
      rcases fieldOfCell_eq_error_iff.mp hcell with ⟨-, rfl⟩ | ⟨text, tail, -, -, rfl⟩ <;> cases hkind
  · intro h
    cases hcells : row.cells with
    | none => exact ⟨_, event_of_judged (.noCells hcells), rfl⟩
    | some cells => exact ⟨_, event_of_judged (.arity hcells (h cells hcells)), rfl⟩

theorem exists_timer_iff {row : Row} {first : Cell} {texts : List Cell} (h : row.cells = some (first :: texts))
    (hlength : texts.length = 5) :
    (∃ fault, row.event = .error fault ∧ fault.kind = .fieldType ∧ fault.field = some "timer") ↔
      ∀ timer, timerOfCell first ≠ .ok timer := by
  constructor
  · rintro ⟨fault, hevent, hkind, hfield⟩ timer hfirst
    obtain ⟨d, hd, rfl⟩ := judged_of_event_error hevent
    cases hd with
    | noCells => cases hkind
    | arity => cases hkind
    | timer hsome _ hfail =>
      cases hsome.symm.trans h
      cases hfail.symm.trans hfirst
    | @text _ _ _ _ column _ _ _ _ hleft hcell =>
      obtain ⟨before, -, -, hcolumn, -⟩ := hleft
      have hname : ∀ column ∈ Column.texts, column.name ≠ "timer" := by decide
      have hcolumn := hname column (List.mem_of_getElem? hcolumn)
      rcases fieldOfCell_eq_error_iff.mp hcell with ⟨-, rfl⟩ | ⟨text, tail, -, -, rfl⟩
      · exact hcolumn (Option.some.inj hfield)
      · exact hcolumn (Option.some.inj hfield)
  · intro hfirst
    cases hd : timerOfCell first with
    | error d => exact ⟨_, event_of_judged (.timer h hlength hd), rfl, rfl⟩
    | ok timer => exact absurd hd (hfirst timer)

theorem exists_event_iff {row : Row} :
    (∃ e, row.event = .ok e) ↔
      ∃ first texts, row.cells = some (first :: texts) ∧ texts.length = 5 ∧
        (∃ timer, timerOfCell first = .ok timer) ∧ ∀ cell ∈ texts, HoldsText cell := by
  constructor
  · rintro ⟨e, h⟩
    cases event_eq_ok_iff.mp h with
    | @event first texts _ hcells hfirst htexts =>
      refine ⟨first, texts, hcells, htexts.length_eq, ⟨_, hfirst⟩, ?_⟩
      intro cell hcell
      obtain ⟨i, hi, rfl⟩ := List.getElem_of_mem hcell
      have hi' : i < e.octets.toList.length := htexts.length_eq ▸ hi
      exact ⟨_, htexts.get hi hi', Event.nulFree_of_mem_octets (List.getElem_mem hi')⟩
  · rintro ⟨first, texts, hcells, hlength, ⟨timer, hfirst⟩, htexts⟩
    cases hevent : row.event with
    | ok e => exact ⟨e, rfl⟩
    | error fault =>
      obtain ⟨d, hd, -⟩ := judged_of_event_error hevent
      cases hd with
      | noCells hnone => cases hnone.symm.trans hcells
      | arity hsome harity =>
        cases hsome.symm.trans hcells
        exact absurd (congrArg (· + 1) hlength) harity
      | timer hsome _ hfail =>
        cases hsome.symm.trans hcells
        cases hfail.symm.trans hfirst
      | text hsome _ _ hleft hfail =>
        cases hsome.symm.trans hcells
        obtain ⟨before, after, rfl, -, -⟩ := hleft
        obtain ⟨f, hf⟩ := exists_fieldOfCell_iff.mpr (htexts _ (List.mem_append_right _ List.mem_cons_self))
        cases hfail.symm.trans hf

end Table.Row

end EventScript
