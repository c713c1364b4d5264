import EventScript.Csv.Grammar
import EventScript.Text.Utf8
import Mathlib

/-!
# Every text of a list of records is read as these records

Reading is a fold, so each part of the grammar has a lemma that says which state the part leads to. Lines
are counted apart from all else and not followed here.

* `State.Ready.readField`: a field is read from each of its forms.
* `State.Ready.readFields`: so are the fields of a record, up to what ends it.
* `State.Idle.finish`: so are all records, whatever was read before.
* `read_spelled`: a text of records is read as these records.
-/

namespace EventScript.Csv

namespace State

/-! ## Octets -/

@[simp]
theorem place_countLine (s : State) (b : UInt8) : (s.countLine b).place = s.place := by
  unfold countLine
  split <;> rfl

@[simp]
theorem field_countLine (s : State) (b : UInt8) : (s.countLine b).field = s.field := by
  unfold countLine
  split <;> rfl

@[simp]
theorem fields_countLine (s : State) (b : UInt8) : (s.countLine b).fields = s.fields := by
  unfold countLine
  split <;> rfl

@[simp]
theorem records_countLine (s : State) (b : UInt8) : (s.countLine b).records = s.records := by
  unfold countLine
  split <;> rfl

theorem isLineEnd_iff {b : UInt8} :
    isLineEnd b = true ↔ b = Ascii.lineFeed ∨ b = Ascii.carriageReturn := by
  simp only [isLineEnd, Bool.or_eq_true, beq_iff_eq]

theorem step_comma {s : State} (h : s.place ≠ .quoted) : s.step Ascii.comma = s.endField := by
  obtain ⟨place, line, recordLine, field, fields, records⟩ := s
  cases place with
  | quoted => exact absurd rfl h
  | recordStart => rfl
  | fieldStart => rfl
  | bare => rfl
  | quoteInQuotes => rfl

theorem step_blank {s : State} {b : UInt8} (hb : isLineEnd b = true) (h : s.place = .recordStart) :
    s.step b = s.countLine b := by
  rw [step, act, place_countLine, h]
  exact if_pos hb

theorem step_lineEnd {s : State} {b : UInt8} (hb : isLineEnd b = true) (h : s.place ≠ .quoted)
    (h' : s.place ≠ .recordStart) : s.step b = (s.countLine b).endRecord := by
  obtain ⟨place, line, recordLine, field, fields, records⟩ := s
  cases place with
  | quoted => exact absurd rfl h
  | recordStart => exact absurd rfl h'
  | fieldStart => rcases isLineEnd_iff.mp hb with rfl | rfl <;> rfl
  | bare => rcases isLineEnd_iff.mp hb with rfl | rfl <;> rfl
  | quoteInQuotes => rcases isLineEnd_iff.mp hb with rfl | rfl <;> rfl

theorem step_quoted {s : State} (h : s.place = .quoted) {b : UInt8} (hb : b ≠ Ascii.quote) :
    s.step b = (s.countLine b).take .quoted b := by
  rw [step, act, place_countLine, h]
  exact if_neg hb

theorem step_doubled {s : State} (h : s.place = .quoted) :
    (s.step Ascii.quote).step Ascii.quote = s.take .quoted Ascii.quote := by
  obtain ⟨place, line, recordLine, field, fields, records⟩ := s
  cases h
  rfl

/-- An octet of a bare field that is not its first. -/
theorem step_bare {s : State} (h : s.place = .bare) {b : UInt8} (hcomma : b ≠ Ascii.comma)
    (hb : isLineEnd b = false) : s.step b = (s.countLine b).take .bare b := by
  rw [step, act, place_countLine, h]
  simp only [continueField, hcomma, hb, if_false, Bool.false_eq_true]

/-! ## Fields -/

/-- Where a field may start. -/
structure Ready (s : State) : Prop where
  place : s.place = .recordStart ∨ s.place = .fieldStart
  field : s.field = []

/-- From one state to another one field was read. -/
structure ReadField (field : Bytes) (s s' : State) : Prop where
  place : s'.place ≠ .quoted
  field : s'.field = field.reverse
  fields : s'.fields = s.fields
  records : s'.records = s.records

/-- Octets were taken into a field: the rest is as it was. -/
structure Took (octets : Bytes) (s s' : State) : Prop where
  place : s'.place = s.place
  field : s'.field = octets.reverse ++ s.field
  fields : s'.fields = s.fields
  records : s'.records = s.records

theorem Took.refl (s : State) : Took [] s s :=
  ⟨rfl, rfl, rfl, rfl⟩

theorem Took.trans {octets octets' : Bytes} {s s' s'' : State} (h : Took octets s s')
    (h' : Took octets' s' s'') : Took (octets ++ octets') s s'' where
  place := h'.place.trans h.place
  field := by rw [h'.field, h.field, List.reverse_append, List.append_assoc]
  fields := h'.fields.trans h.fields
  records := h'.records.trans h.records

theorem took_take (s : State) (b : UInt8) : Took [b] s ((s.countLine b).take s.place b) :=
  ⟨rfl, by simp [take], by simp [take], by simp [take]⟩

/-- What lies between quotes is taken, a pair of quotes as one. -/
theorem took_doubled {s : State} (h : s.place = .quoted) (field : Bytes) :
    Took field s ((field.flatMap fun b => if b = Ascii.quote then [Ascii.quote, Ascii.quote] else [b]).foldl
      step s) := by
  induction field generalizing s with
  | nil => exact .refl s
  | cons b field ih =>
    have hb : Took [b] s ((if b = Ascii.quote then [Ascii.quote, Ascii.quote] else [b]).foldl step s) := by
      have htake := took_take s b
      rw [h] at htake
      split_ifs with hb
      · subst hb
        rw [List.foldl_cons, List.foldl_cons, List.foldl_nil, step_doubled h]
        exact htake
      · rw [List.foldl_cons, List.foldl_nil, step_quoted h hb]
        exact htake
    rw [List.flatMap_cons, List.foldl_append]
    exact hb.trans (ih (hb.place.trans h))

theorem took_bare {s : State} (h : s.place = .bare) {field : Bytes}
    (ends : ∀ b ∈ field, b ≠ Ascii.comma ∧ isLineEnd b = false) : Took field s (field.foldl step s) := by
  induction field generalizing s with
  | nil => exact .refl s
  | cons b field ih =>
    obtain ⟨hcomma, hlineEnd⟩ := ends b List.mem_cons_self
    have hb : Took [b] s (s.step b) := by
      rw [step_bare h hcomma hlineEnd, ← h]
      exact took_take s b
    exact hb.trans (ih (hb.place.trans h) fun x hx => ends x (List.mem_cons_of_mem b hx))

theorem Ready.step_quote {s : State} (hs : s.Ready) : s.step Ascii.quote = { s with place := .quoted } := by
  obtain ⟨place, line, recordLine, field, fields, records⟩ := s
  rcases hs.place with h | h <;> cases h <;> rfl

theorem step_closeQuote {s : State} (h : s.place = .quoted) :
    s.step Ascii.quote = { s with place := .quoteInQuotes } := by
  obtain ⟨place, line, recordLine, field, fields, records⟩ := s
  cases h
  rfl

theorem Ready.step_bare {s : State} (hs : s.Ready) {b : UInt8} (hquote : b ≠ Ascii.quote)
    (hcomma : b ≠ Ascii.comma) (hb : isLineEnd b = false) : s.step b = (s.countLine b).take .bare b := by
  rcases hs.place with h | h <;> rw [step, act, place_countLine, h] <;>
    simp only [startField, hquote, hcomma, hb, if_false, Bool.false_eq_true]

/-- A field is read from each of its forms. -/
theorem Ready.readField {s : State} (hs : s.Ready) {field t : Bytes} (h : SpellsField field t) :
    ReadField field s (t.foldl step s) ∧
      (t ≠ [] ∨ s.place = .fieldStart → (t.foldl step s).place ≠ .recordStart) := by
  cases h with
  | quoted =>
    have htook := took_doubled (s := { s with place := .quoted }) rfl field
    rw [quoted, List.foldl_cons, hs.step_quote, List.foldl_append, List.foldl_cons, List.foldl_nil,
      step_closeQuote htook.place]
    refine ⟨⟨by simp, ?_, htook.fields, htook.records⟩, by simp⟩
    simpa only [hs.field, List.append_nil] using htook.field
  | bare ends opens =>
    cases field with
    | nil =>
      refine ⟨⟨?_, hs.field, rfl, rfl⟩, ?_⟩
      · rcases hs.place with h | h <;> simp [h]
      · rintro (h | h)
        · exact absurd rfl h
        · simp [h]
    | cons b field =>
      obtain ⟨hcomma, hb⟩ := ends b List.mem_cons_self
      have hquote : b ≠ Ascii.quote := by simpa using opens
      have htook := took_bare (s := (s.countLine b).take .bare b) rfl
        fun x hx => ends x (List.mem_cons_of_mem b hx)
      rw [List.foldl_cons, hs.step_bare hquote hcomma hb]
      refine ⟨⟨?_, ?_, ?_, ?_⟩, fun _ => ?_⟩
      · rw [htook.place]
        simp [take]
      · rw [htook.field]
        simp [take, hs.field]
      · rw [htook.fields]
        simp [take]
      · rw [htook.records]
        simp [take]
      · rw [htook.place]
        simp [take]

/-! ## Records -/

/-- From one state to another the fields of a record were read, all but for what ends the last. -/
structure ReadFields (fields : List Bytes) (s s' : State) : Prop where
  notQuoted : s'.place ≠ .quoted
  begun : s'.place ≠ .recordStart
  fields : (s'.field.reverse :: s'.fields).reverse = s.fields.reverse ++ fields
  records : s'.records = s.records

theorem Ready.readFields {s : State} (hs : s.Ready) {fields : List Bytes} {t : Bytes}
    (h : SpellsFields fields t) (hne : t ≠ [] ∨ s.place = .fieldStart) :
    ReadFields fields s (t.foldl step s) := by
  induction h generalizing s with
  | last h =>
    obtain ⟨hread, hbegun⟩ := hs.readField h
    refine ⟨hread.place, hbegun hne, ?_, hread.records⟩
    rw [hread.field, hread.fields, List.reverse_reverse, List.reverse_cons]
  | @comma field t u fields h _ ih =>
    obtain ⟨hread, -⟩ := hs.readField h
    have hrest := ih (s := (t.foldl step s).endField) ⟨.inr rfl, rfl⟩ (.inr rfl)
    rw [List.foldl_append, List.foldl_cons, step_comma hread.place]
    refine ⟨hrest.notQuoted, hrest.begun, ?_, hrest.records.trans hread.records⟩
    rw [hrest.fields]
    simp [endField, hread.field, hread.fields]

/-- Between records. -/
structure Idle (s : State) : Prop where
  place : s.place = .recordStart
  field : s.field = []
  fields : s.fields = []

theorem Idle.ready {s : State} (hs : s.Idle) : s.Ready :=
  ⟨.inl hs.place, hs.field⟩

theorem ReadFields.countLine {fields : List Bytes} {s s' : State} (h : ReadFields fields s s') (b : UInt8) :
    ReadFields fields s (s'.countLine b) :=
  ⟨by simpa using h.notQuoted, by simpa using h.begun, by simpa using h.fields, by simpa using h.records⟩

theorem ReadFields.endRecord {fields : List Bytes} {s s' : State} (h : ReadFields fields s s')
    (hs : s.Idle) : s'.endRecord.Idle ∧
      s'.endRecord.records.map Record.fields = fields :: s.records.map Record.fields := by
  refine ⟨⟨rfl, rfl, rfl⟩, ?_⟩
  have hfields := h.fields
  rw [hs.fields, List.reverse_nil, List.nil_append] at hfields
  simp only [State.endRecord, List.map_cons, hfields, h.records]

/-- All records of a text are read, whatever was read before. -/
theorem Idle.finish {s : State} (hs : s.Idle) {rows : List (List Bytes)} {t : Bytes}
    (h : SpellsRecords rows t) :
    (t.foldl step s).finish.map Record.fields = (s.records.map Record.fields).reverse ++ rows := by
  induction h generalizing s with
  | nil => simp [State.finish, hs.place]
  | @blank rows b t hb _ ih =>
    have hidle : (s.countLine b).Idle := ⟨by simp [hs.place], by simp [hs.field], by simp [hs.fields]⟩
    rw [List.foldl_cons, step_blank hb hs.place, ih hidle, records_countLine]
  | @last fields t h hne =>
    have hread := hs.ready.readFields h (.inl hne)
    obtain ⟨-, hrecords⟩ := hread.endRecord hs
    have hfinish : (t.foldl step s).finish = (t.foldl step s).endRecord.records.reverse := by
      unfold State.finish
      split
      next hplace => exact absurd hplace hread.begun
      next => rfl
    rw [hfinish, List.map_reverse, hrecords, List.reverse_cons]
  | @record fields rows b t u h hne hb _ ih =>
    have hread := hs.ready.readFields h (.inl hne)
    obtain ⟨hidle, hrecords⟩ := (hread.countLine b).endRecord hs
    rw [List.foldl_append, List.foldl_cons, step_lineEnd hb hread.notQuoted hread.begun, ih hidle, hrecords]
    simp

end State

/-- Every text of a list of records is read as these records. -/
theorem read_spelled {rows : List (List Bytes)} {text : Bytes} (h : SpellsText rows text) :
    (read text).map Record.fields = rows := by
  have hidle : State.initial.Idle := ⟨rfl, rfl, rfl⟩
  have hrows {s : Bytes} (hs : SpellsRecords rows s) :
      (s.foldl State.step .initial).finish.map Record.fields = rows :=
    hidle.finish hs
  cases h with
  | plain hs hmark =>
    rw [read, dropMark, hmark]
    exact hrows hs
  | @marked s hs =>
    have hmark : byteOrderMark.isPrefixOf (byteOrderMark ++ s) = true :=
      List.isPrefixOf_iff_prefix.mpr (List.prefix_append _ _)
    rw [read, dropMark, hmark, if_pos rfl, List.drop_left]
    exact hrows hs

example : (read (Utf8.encode "\n\"a\"\"\n\",b\r\n\"\"")).map Record.fields =
    [[Utf8.encode "a\"\n", Utf8.encode "b"], [[]]] := by
  decide

end EventScript.Csv
