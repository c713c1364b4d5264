import EventScript.Csv

/-!
# The grammar of comma-separated values

Which octet strings spell a list of records, said apart from how they are read. A field may stand between
quotes, with each quote inside doubled, or bare if nothing in it would be read otherwise. A record ends
with a line feed or a carriage return, and there may be more of these wherever a record could start.

* `SpellsText`: the texts of a list of records, with or without a mark at the start.
* `write`: the text with every field between quotes and a line feed after each record.
-/

namespace EventScript.Csv

/-- A field between quotes: each quote inside is doubled. -/
def quoted (field : Bytes) : Bytes :=
  Ascii.quote ::
    (field.flatMap (fun b => if b = Ascii.quote then [Ascii.quote, Ascii.quote] else [b]) ++ [Ascii.quote])

/-- A field as it may be written. -/
inductive SpellsField (field : Bytes) : Bytes → Prop
  | quoted : SpellsField field (quoted field)
  | bare (ends : ∀ b ∈ field, b ≠ Ascii.comma ∧ State.isLineEnd b = false)
      (opens : field.head? ≠ some Ascii.quote) : SpellsField field field

/-- The fields of a record. -/
inductive SpellsFields : List Bytes → Bytes → Prop
  | last {field s : Bytes} (h : SpellsField field s) : SpellsFields [field] s
  | comma {field s t : Bytes} {fields : List Bytes} (h : SpellsField field s) (hs : SpellsFields fields t) :
      SpellsFields (field :: fields) (s ++ Ascii.comma :: t)

/-- Records. None of them is written as nothing, which would be a blank line. -/
inductive SpellsRecords : List (List Bytes) → Bytes → Prop
  | nil : SpellsRecords [] []
  | blank {rows : List (List Bytes)} {b : UInt8} {s : Bytes} (hb : State.isLineEnd b = true)
      (hs : SpellsRecords rows s) : SpellsRecords rows (b :: s)
  | last {fields : List Bytes} {s : Bytes} (h : SpellsFields fields s) (hne : s ≠ []) :
      SpellsRecords [fields] s
  | record {fields : List Bytes} {rows : List (List Bytes)} {b : UInt8} {s t : Bytes}
      (h : SpellsFields fields s) (hne : s ≠ []) (hb : State.isLineEnd b = true)
      (ht : SpellsRecords rows t) : SpellsRecords (fields :: rows) (s ++ b :: t)

/-- A text with a list of records. A text without the mark must not look as if it had it. -/
inductive SpellsText (rows : List (List Bytes)) : Bytes → Prop
  | plain {s : Bytes} (h : SpellsRecords rows s) (hmark : byteOrderMark.isPrefixOf s = false) :
      SpellsText rows s
  | marked {s : Bytes} (h : SpellsRecords rows s) : SpellsText rows (byteOrderMark ++ s)

/-! ## Writing -/

/-- Fields between quotes, separated by commas. -/
def writeFields : List Bytes → Bytes
  | [] => []
  | [field] => quoted field
  | field :: fields => quoted field ++ Ascii.comma :: writeFields fields

/-- Records of fields between quotes, each with a line feed after it. -/
def write (rows : List (List Bytes)) : Bytes :=
  rows.flatMap fun fields => writeFields fields ++ [Ascii.lineFeed]

theorem spellsFields_writeFields {fields : List Bytes} (h : fields ≠ []) :
    SpellsFields fields (writeFields fields) := by
  induction fields with
  | nil => exact absurd rfl h
  | cons field fields ih =>
    cases fields with
    | nil => exact .last .quoted
    | cons field' fields => exact .comma .quoted (ih (List.cons_ne_nil _ _))

theorem exists_writeFields {fields : List Bytes} (h : fields ≠ []) :
    ∃ s, writeFields fields = Ascii.quote :: s := by
  cases fields with
  | nil => exact absurd rfl h
  | cons field fields => cases fields <;> exact ⟨_, rfl⟩

theorem spellsRecords_write {rows : List (List Bytes)} (h : ∀ fields ∈ rows, fields ≠ []) :
    SpellsRecords rows (write rows) := by
  induction rows with
  | nil => exact .nil
  | cons fields rows ih =>
    have hne := h fields List.mem_cons_self
    have hrest := ih fun x hx => h x (List.mem_cons_of_mem fields hx)
    obtain ⟨s, hs⟩ := exists_writeFields hne
    have hwritten : writeFields fields ≠ [] := by
      rw [hs]
      exact List.cons_ne_nil _ _
    have hrecord := SpellsRecords.record (b := Ascii.lineFeed) (spellsFields_writeFields hne) hwritten rfl hrest
    rw [write, List.flatMap_cons, List.append_assoc]
    exact hrecord

/-- What is written is a text of the records. -/
theorem spellsText_write {rows : List (List Bytes)} (h : ∀ fields ∈ rows, fields ≠ []) :
    SpellsText rows (write rows) := by
  apply SpellsText.plain (spellsRecords_write h)
  cases rows with
  | nil => rfl
  | cons fields rows =>
    obtain ⟨s, hs⟩ := exists_writeFields (h fields List.mem_cons_self)
    rw [write, List.flatMap_cons, hs]
    rfl

end EventScript.Csv
