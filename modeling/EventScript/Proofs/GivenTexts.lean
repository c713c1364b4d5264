import EventScript.Proofs.RecordRoundTrip
import EventScript.Proofs.TextTimers

/-!
# Events of given texts

An event comes about in three ways: it is made of a timer and five octet strings, it is what a row of a table
gives, or it is read off a record. The first two look for NULs each on its own, and the last finds none because
a NUL ends a text there.

* `Texts.traverse_mapError`: going over five texts does not depend on how an error is told.
* `Event.make_eq_ok_iff`, `Event.exists_make_iff`: what an event is made of, and of what none is made.
* `ofRow_textRow`: the row of a timer's numeral and five texts gives the event that is made of them, or is refused
  for the very NUL for which none is made.
* `make_agrees`: rows of texts and making agree, and what any row or record gives can be made.
-/

namespace EventScript

open Outcome
open Table (Cell Row)

/-! ## Going over texts -/

theorem Texts.traverse_mapError {ε ε' α β : Type} (f : Column → α → Except ε β) (g : ε → ε') (t : Texts α) :
    t.traverse (fun column a => (f column a).mapError g) = (t.traverse f).mapError g := by
  simp only [traverse, mapError_bind]
  rfl

/-! ## Making events -/

namespace Event

theorem traverse_field_eq_ok_iff {texts : Texts Bytes} {fields : Texts Field} :
    texts.traverse field = .ok fields ↔ texts.toList = fields.toList.map Field.octets := by
  simp [Texts.traverse_eq_ok_iff, Texts.toList, Column.texts, field_eq_ok_iff]

theorem make_eq_ok_iff {timer : Int64} {texts : Texts Bytes} {e : Event} :
    make timer texts = .ok e ↔ e.timer = timer ∧ e.octets = texts := by
  simp only [make, bind_eq_ok_iff, traverse_field_eq_ok_iff]
  constructor
  · rintro ⟨fields, hfields, h⟩
    cases h
    exact ⟨rfl, Texts.toList_inj.mp hfields.symm⟩
  · rintro ⟨rfl, rfl⟩
    exact ⟨e.toTexts, rfl, rfl⟩

theorem exists_make_iff {timer : Int64} {texts : Texts Bytes} :
    (∃ e, make timer texts = .ok e) ↔ ∀ octets ∈ texts.toList, Ascii.nul ∉ octets := by
  simp only [make_eq_ok_iff]
  constructor
  · rintro ⟨e, -, rfl⟩
    exact fun octets => nulFree_of_mem_octets
  · intro h
    simp only [Texts.toList, List.forall_mem_cons] at h
    obtain ⟨hsystem, htarget, hsource, hcommand, harguments, -⟩ := h
    exact ⟨⟨⟨⟨_, hsystem⟩, ⟨_, htarget⟩, ⟨_, hsource⟩, ⟨_, hcommand⟩, ⟨_, harguments⟩⟩, timer⟩, rfl, rfl⟩

end Event

/-! ## Rows of texts -/

/-- Five texts as cells. -/
def textCells (texts : Texts Bytes) : Texts Cell :=
  ⟨.text texts.system, .text texts.target, .text texts.source, .text texts.command, .text texts.arguments⟩

/-- The row of a timer's numeral and five texts. -/
def textRow (index : Nat) (line : Option Nat) (timer : Int64) (texts : Texts Bytes) : Row :=
  ⟨index, line, some (.text (Utf8.encode (Decimal.int timer.toInt)) :: (textCells texts).toList)⟩

theorem timerOfCell_int (timer : Int64) :
    timerOfCell (.text (Utf8.encode (Decimal.int timer.toInt))) = .ok timer := by
  have hblank : Text.IsBlank [] := by simp [Text.IsBlank]
  have hpadded := PaddedNumeral.padded hblank (Decimal.isNumeral_intChars timer.toInt) hblank
  rw [List.nil_append, List.append_nil] at hpadded
  exact timerOfCell_text_iff.mpr hpadded

/-- The row gives the event that is made of the timer and the texts. It is refused for the very NUL for which
none is made. -/
theorem ofRow_textRow (index : Nat) (line : Option Nat) (timer : Int64) (texts : Texts Bytes) :
    Event.ofRow (textRow index line timer texts) = (Event.make timer texts).mapError .embeddedNul := by
  have htexts : (textCells texts).traverse fieldOfCell =
      (texts.traverse Event.field).mapError RowDefect.embeddedNul :=
    Texts.traverse_mapError Event.field RowDefect.embeddedNul texts
  rw [textRow, Event.ofRow]
  simp only [ofCells_toList, timerOfCell_int, htexts, Event.make, mapError_bind]
  rfl

theorem event_textRow (index : Nat) (line : Option Nat) (timer : Int64) (texts : Texts Bytes) :
    (textRow index line timer texts).event =
      (Event.make timer texts).mapError fun d => { d.fault with row := some index } := by
  rw [Row.event, ofRow_textRow]
  cases Event.make timer texts <;> rfl

/-- **Making and reading agree.** An event is made of a timer and five texts exactly if no text has a NUL, and it
has that timer and those texts. The row of the timer's numeral and the texts, whatever its number and line, gives
the event that is made, or else it is refused for the same NUL, in the same words and with the same column named;
it only adds its number. Whatever event a row of any cells gives, or a record, is made again of its timer and its
texts, and these are what the cells hold or the record has before its NULs. -/
theorem make_agrees :
    (∀ (timer : Int64) (texts : Texts Bytes) (index : Nat) (line : Option Nat),
      ((∃ e, Event.make timer texts = .ok e) ↔ ∀ octets ∈ texts.toList, Ascii.nul ∉ octets) ∧
      (∀ e, Event.make timer texts = .ok e ↔ e.timer = timer ∧ e.octets = texts) ∧
      (∀ e, (textRow index line timer texts).event = .ok e ↔ Event.make timer texts = .ok e) ∧
      ∀ d, Event.make timer texts = .error d →
        (textRow index line timer texts).event = .error { d.fault with row := some index } ∧
          d.fault.kind = .embeddedTerminator ∧ d.fault.row = none) ∧
    (∀ (row : Row) e, row.event = .ok e →
      Event.make e.timer e.octets = .ok e ∧
        ∃ first cells, row.cells = some (first :: cells) ∧ timerOfCell first = .ok e.timer ∧
          List.Forall₂ TextForm cells e.octets.toList) ∧
    ∀ record e rest, Event.decode record = .ok (e, rest) →
      Event.make e.timer e.octets = .ok e ∧
        record = Event.timerOctets e.timer ++
          (e.octets.toList.flatMap fun text => text ++ [Ascii.nul]) ++ rest := by
  refine ⟨?_, ?_, ?_⟩
  · intro timer texts index line
    refine ⟨Event.exists_make_iff, fun e => Event.make_eq_ok_iff, ?_, ?_⟩
    · intro e
      rw [event_textRow, mapError_eq_ok_iff]
    · intro d h
      rw [event_textRow, h]
      exact ⟨rfl, rfl, rfl⟩
  · intro row e h
    cases Row.event_eq_ok_iff.mp h with
    | event hcells hfirst htexts =>
      exact ⟨Event.make_eq_ok_iff.mpr ⟨rfl, rfl⟩, _, _, hcells, hfirst, htexts⟩
  · intro record e rest h
    exact ⟨Event.make_eq_ok_iff.mpr ⟨rfl, rfl⟩, Event.decode_eq_ok_iff.mp h⟩

/-- An event of cells of several kinds. -/
def ofMixedCells : Event where
  system := ⟨Utf8.encode "null", by decide⟩
  target := ⟨Utf8.encode "true", by decide⟩
  source := ⟨[0xFF], by decide⟩
  command := ⟨[], List.not_mem_nil⟩
  arguments := ⟨Utf8.encode "null", by decide⟩
  timer := -5

/-- The second of two texts with a NUL is not told of. Cells that are no texts give an event that can be made of
texts. -/
theorem make_agrees_mixed :
    (textRow 3 none (-5) ⟨[0x61], [0x62, 0x00], [], [0x00], []⟩).event =
        .error
          { kind := .embeddedTerminator
            message := some ("field contains a NUL byte at position " ++ Decimal.nat 1)
            row := some 3, field := some "to" } ∧
      Event.make (-5) ofMixedCells.octets = .ok ofMixedCells := by
  obtain ⟨htexts, hrow, -⟩ := make_agrees
  have hnul : Event.make (-5) ⟨[0x61], [0x62, 0x00], [], [0x00], []⟩ = .error ⟨.target, 1⟩ := by
    decide
  have hmixed : Row.event ⟨1, none, some [.number (.whole (.ofInt64 (-5))), .null, .bool true, .text [0xFF],
      .text [], .null]⟩ = .ok ofMixedCells := by
    have hforms : List.Forall₂ TextForm [.null, .bool true, .text [0xFF], .text [], .null]
        ofMixedCells.octets.toList :=
      .cons .null (.cons .true (.cons (.text _) (.cons (.text _) (.cons .null .nil))))
    refine Row.event_eq_ok_iff.mpr (.event rfl ?_ hforms)
    rw [timerOfCell, timerOfNumber?_ofInt64]
    rfl
  exact ⟨((htexts _ _ 3 none).2.2.2 _ hnul).1, (hrow _ _ hmixed).1⟩

end EventScript
