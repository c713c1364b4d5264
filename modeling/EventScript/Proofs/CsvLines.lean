import EventScript.Proofs.CsvReading
import EventScript.Proofs.JudgedRows

/-!
# The lines of CSV rows

The line of a row is where reading its record began. That is not always where the record starts: the line ends
between it and the record before are skipped after the line has been taken down, the second octet of a line
end of two among them. The two lines differ by the line feeds that are skipped.

* `State.effect_step`: what an octet does to where a reader stands and to its records.
* `State.begun_step`: the octet that a record begins with is the first that is no line end.
* `Begins.unique`: a record begins in one place.
* `Tracked.concat`, `tracked`: where each record was found, octet by octet and after any octets.
* `Table.line_of_row`: the line of each row of a table, and when it is the line that the row starts on.
-/

namespace EventScript

namespace Csv

namespace State

/-! ## Steps -/

@[simp]
theorem recordLine_countLine (s : State) (b : UInt8) : (s.countLine b).recordLine = s.recordLine := by
  unfold countLine
  split <;> rfl

theorem line_countLine (s : State) (b : UInt8) :
    (s.countLine b).line = s.line + [b].count Ascii.lineFeed := by
  unfold countLine
  split
  next h => simp [h]
  next h => simp [h]

/-- From one state to another no record was ended, and one is being read. -/
structure GoesOn (s s' : State) : Prop where
  place : s'.place ≠ .recordStart
  line : s'.line = s.line
  recordLine : s'.recordLine = s.recordLine
  records : s'.records = s.records

theorem continueField_cases (s : State) (b : UInt8) :
    isLineEnd b = true ∧ s.continueField b = s.endRecord ∨ s.GoesOn (s.continueField b) := by
  unfold continueField
  split_ifs with hcomma hb
  · exact .inr ⟨by simp [endField], rfl, rfl, rfl⟩
  · exact .inl ⟨hb, rfl⟩
  · exact .inr ⟨by simp [State.take], rfl, rfl, rfl⟩

theorem startField_cases (s : State) (b : UInt8) :
    isLineEnd b = true ∧ s.startField b = s.endRecord ∨ s.GoesOn (s.startField b) := by
  by_cases hquote : b = Ascii.quote
  · rw [startField, if_pos hquote]
    exact .inr ⟨by simp, rfl, rfl, rfl⟩
  · have hcontinue : s.startField b = s.continueField b := if_neg hquote
    rw [hcontinue]
    exact s.continueField_cases b

/-- What an octet does to where a reader stands and to its records. -/
inductive Effect (s : State) (b : UInt8) (s' : State) : Prop
  /-- A line end between records is skipped. -/
  | skips (lineEnd : isLineEnd b = true) (before : s.place = .recordStart) (place : s'.place = .recordStart)
      (recordLine : s'.recordLine = s.recordLine) (records : s'.records = s.records)
  /-- A line end after a record ends it, and reading the next one begins. -/
  | ends (lineEnd : isLineEnd b = true) (before : s.place ≠ .recordStart) (place : s'.place = .recordStart)
      (recordLine : s'.recordLine = s'.line) (fields : List Bytes)
      (records : s'.records = ⟨s.recordLine, fields⟩ :: s.records)
  /-- Any other octet is part of a record. -/
  | goesOn (begins : s.place = .recordStart → isLineEnd b = false) (place : s'.place ≠ .recordStart)
      (recordLine : s'.recordLine = s.recordLine) (records : s'.records = s.records)

theorem GoesOn.effect {s s' : State} (h : s.GoesOn s') {b : UInt8}
    (begins : s.place = .recordStart → isLineEnd b = false) : s.Effect b s' ∧ s'.line = s.line :=
  ⟨.goesOn begins h.place h.recordLine h.records, h.line⟩

/-- Inside a record the octet either ends it or is part of it. -/
theorem effect_inside {s s' : State} (hs : s.place ≠ .recordStart) {b : UInt8}
    (h : isLineEnd b = true ∧ s' = s.endRecord ∨ s.GoesOn s') : s.Effect b s' ∧ s'.line = s.line := by
  rcases h with ⟨hb, rfl⟩ | h
  · exact ⟨.ends hb hs rfl rfl _ rfl, rfl⟩
  · exact h.effect fun h' => absurd h' hs

theorem effect_act (s : State) (b : UInt8) : s.Effect b (s.act b) ∧ (s.act b).line = s.line := by
  unfold act
  split
  next h =>
    split_ifs with hb
    · exact ⟨.skips hb h h rfl rfl, rfl⟩
    · rcases s.startField_cases b with ⟨hb', -⟩ | hon
      · exact absurd hb' hb
      · exact hon.effect fun _ => by simpa using hb
  next h => exact effect_inside (by simp [h]) (s.startField_cases b)
  next h => exact effect_inside (by simp [h]) (s.continueField_cases b)
  next h =>
    split_ifs
    · exact effect_inside (by simp [h]) (.inr ⟨by simp, rfl, rfl, rfl⟩)
    · exact effect_inside (by simp [h]) (.inr ⟨by simp [State.take], rfl, rfl, rfl⟩)
  next h =>
    split_ifs
    · exact effect_inside (by simp [h]) (.inr ⟨by simp [State.take], rfl, rfl, rfl⟩)
    · exact effect_inside (by simp [h]) (s.continueField_cases b)

theorem effect_step (s : State) (b : UInt8) : s.Effect b (s.step b) := by
  rw [step]
  cases (effect_act (s.countLine b) b).1 with
  | skips hb before place recordLine records =>
    exact .skips hb (by simpa using before) place (by simpa using recordLine) (by simpa using records)
  | ends hb before place recordLine fields records =>
    exact .ends hb (by simpa using before) place recordLine fields (by simpa using records)
  | goesOn begins place recordLine records =>
    exact .goesOn (by simpa using begins) place (by simpa using recordLine) (by simpa using records)

theorem line_step (s : State) (b : UInt8) : (s.step b).line = s.line + [b].count Ascii.lineFeed := by
  rw [step, (effect_act _ b).2, line_countLine]

/-! ## How many records have begun -/

/-- How many records have begun: those that are finished, and the one that is being read. -/
def begun (s : State) : Nat :=
  s.records.length + if s.place = .recordStart then 0 else 1

/-- The octet that a record begins with is the first that is no line end. -/
theorem begun_step (s : State) (b : UInt8) :
    (s.step b).begun = s.begun + if s.place = .recordStart ∧ isLineEnd b = false then 1 else 0 := by
  unfold begun
  cases s.effect_step b with
  | skips hb before place _ records => simp [hb, before, place, records]
  | ends _ before place _ fields records => simp [before, place, records]
  | goesOn begins place _ records =>
    by_cases before : s.place = .recordStart
    · simp [before, place, records, begins before]
    · simp [before, place, records]

theorem begun_le_foldl (s : State) (t : Bytes) : s.begun ≤ (t.foldl step s).begun := by
  induction t generalizing s with
  | nil => exact Nat.le_refl _
  | cons b t ih =>
    calc
      s.begun ≤ (s.step b).begun := by
        rw [begun_step]
        exact Nat.le_add_right _ _
      _ ≤ (t.foldl step (s.step b)).begun := ih _

/-- A reader that has read some octets. -/
def after (s : Bytes) : State :=
  s.foldl step initial

theorem after_concat (s : Bytes) (b : UInt8) : after (s ++ [b]) = (after s).step b := by
  rw [after, List.foldl_concat]
  rfl

theorem begun_after_mono {s t : Bytes} (h : s <+: t) : (after s).begun ≤ (after t).begun := by
  obtain ⟨u, rfl⟩ := h
  rw [after, after, List.foldl_append]
  exact begun_le_foldl _ u

end State

open State (after isLineEnd)

/-! ## Where records begin and end -/

/-- The octet `b` after the octets `s` is the first of a record, and `i` records come before it. -/
structure Begins (i : Nat) (s : Bytes) (b : UInt8) : Prop where
  before : (after s).begun = i
  here : (after (s ++ [b])).begun = i + 1

/-- The octets up to the end of the first `i` records, which is the octet that ends the last of them. -/
inductive Ended : Nat → Bytes → Prop
  | start : Ended 0 []
  | record {i : Nat} {s : Bytes} {b : UInt8} (before : (after s).records.length = i)
      (here : (after (s ++ [b])).records.length = i + 1) : Ended (i + 1) (s ++ [b])

theorem Begins.length_le {i : Nat} {s s' text : Bytes} {b b' : UInt8} (h : Begins i s b)
    (h' : Begins i s' b') (hs : s ++ [b] <+: text) (hs' : s' ++ [b'] <+: text) : s'.length ≤ s.length := by
  by_contra hlt
  have hle : (s ++ [b]).length ≤ s'.length := by
    rw [List.length_append, List.length_singleton]
    omega
  have hprefix : s ++ [b] <+: s' :=
    List.prefix_of_prefix_length_le hs ((List.prefix_append s' [b']).trans hs') hle
  -- The record has begun by the end of `s ++ [b]`, so it cannot begin later.
  have hmono := State.begun_after_mono hprefix
  rw [h.here, h'.before] at hmono
  omega

/-- A record begins in one place. -/
theorem Begins.unique {i : Nat} {s s' text : Bytes} {b b' : UInt8} (h : Begins i s b)
    (h' : Begins i s' b') (hs : s ++ [b] <+: text) (hs' : s' ++ [b'] <+: text) : s' = s := by
  have hle := h.length_le h' hs hs'
  have hprefix : s' <+: s :=
    List.prefix_of_prefix_length_le ((List.prefix_append s' [b']).trans hs')
      ((List.prefix_append s [b]).trans hs) hle
  exact hprefix.eq_of_length (Nat.le_antisymm hle (h'.length_le h hs' hs))

/-! ## Where records were found -/

/-- Where a record is among the octets `s`, and the line it was given: reading it began after `done`, and the
line ends `skipped` stand before its first octet. -/
structure Found (s : Bytes) (i line : Nat) (done skipped : Bytes) : Prop where
  ended : Ended i done
  blanks : ∀ b ∈ skipped, isLineEnd b = true
  begins : ∃ b, done ++ skipped ++ [b] <+: s ∧ Begins i (done ++ skipped) b
  line : line = 1 + done.count Ascii.lineFeed

theorem Found.append {s : Bytes} {i line : Nat} {done skipped : Bytes} (h : Found s i line done skipped)
    (t : Bytes) : Found (s ++ t) i line done skipped where
  ended := h.ended
  blanks := h.blanks
  begins := by
    obtain ⟨b, hprefix, hb⟩ := h.begins
    exact ⟨b, hprefix.trans (List.prefix_append s t), hb⟩
  line := h.line

/-- Each of the records, the last of which comes first, is found among the octets. -/
def AllFound (s : Bytes) (records : List Record) : Prop :=
  ∀ i r, records.reverse[i]? = some r → ∃ done skipped, Found s i r.line done skipped

theorem AllFound.append {s : Bytes} {records : List Record} (h : AllFound s records) (t : Bytes) :
    AllFound (s ++ t) records := by
  intro i r hr
  obtain ⟨done, skipped, hfound⟩ := h i r hr
  exact ⟨done, skipped, hfound.append t⟩

theorem AllFound.cons {s : Bytes} {records : List Record} (h : AllFound s records) {r : Record}
    (hr : ∃ done skipped, Found s records.length r.line done skipped) : AllFound s (r :: records) := by
  intro i r' hr'
  rw [List.reverse_cons, List.getElem?_append] at hr'
  split at hr'
  next hi => exact h i r' hr'
  next hi =>
    rw [List.length_reverse] at hi hr'
    rw [List.getElem?_singleton] at hr'
    split at hr'
    next h0 =>
      cases hr'
      have heq : i = records.length := by omega
      exact heq ▸ hr
    next => cases hr'

/-- A reader that has read the octets `s` knows on which line it is, and where each record was found. -/
structure Tracked (s : Bytes) : Prop where
  line : (after s).line = 1 + s.count Ascii.lineFeed
  between : (after s).place = .recordStart → ∃ done skipped, s = done ++ skipped ∧
    Ended (after s).records.length done ∧ (∀ b ∈ skipped, isLineEnd b = true) ∧
    (after s).recordLine = 1 + done.count Ascii.lineFeed
  inside : (after s).place ≠ .recordStart →
    ∃ done skipped, Found s (after s).records.length (after s).recordLine done skipped
  finished : AllFound s (after s).records

theorem tracked_nil : Tracked [] where
  line := rfl
  between _ := ⟨[], [], rfl, .start, by simp, rfl⟩
  inside h := absurd rfl h
  finished := by
    intro i r hr
    cases hr

theorem Tracked.concat {s : Bytes} (h : Tracked s) (b : UInt8) : Tracked (s ++ [b]) := by
  have hstep := State.after_concat s b
  have hline : (after (s ++ [b])).line = 1 + (s ++ [b]).count Ascii.lineFeed := by
    rw [hstep, State.line_step, h.line, List.count_append, Nat.add_assoc]
  have heffect := (after s).effect_step b
  rw [← hstep] at heffect
  cases heffect with
  | skips hb before place recordLine records =>
    refine ⟨hline, fun _ => ?_, fun h' => absurd place h', ?_⟩
    · obtain ⟨done, skipped, rfl, hended, hblanks, hdone⟩ := h.between before
      refine ⟨done, skipped ++ [b], List.append_assoc .., records ▸ hended, ?_, recordLine.trans hdone⟩
      rw [List.forall_mem_append]
      exact ⟨hblanks, List.forall_mem_singleton.mpr hb⟩
    · rw [records]
      exact h.finished.append [b]
  | ends _ before place recordLine fields records =>
    have hlength : (after (s ++ [b])).records.length = (after s).records.length + 1 := by
      rw [records, List.length_cons]
    refine ⟨hline, fun _ => ?_, fun h' => absurd place h', ?_⟩
    · refine ⟨s ++ [b], [], (List.append_nil _).symm, ?_, List.forall_mem_nil _, recordLine.trans hline⟩
      rw [hlength]
      exact .record rfl hlength
    · obtain ⟨done, skipped, hfound⟩ := h.inside before
      rw [records]
      exact (h.finished.append [b]).cons ⟨done, skipped, hfound.append [b]⟩
  | goesOn begins place recordLine records =>
    refine ⟨hline, fun h' => absurd h' place, fun _ => ?_, ?_⟩
    · rw [records, recordLine]
      -- If no record is being read, the octet is the first of one.
      by_cases before : (after s).place = .recordStart
      · obtain ⟨done, skipped, rfl, hended, hblanks, hdone⟩ := h.between before
        have hbegun : (after (done ++ skipped)).begun = (after (done ++ skipped)).records.length := by
          simp [State.begun, before]
        refine ⟨done, skipped, hended, hblanks, ⟨b, List.prefix_refl _, hbegun, ?_⟩, hdone⟩
        rw [State.begun, records, if_neg place]
      · obtain ⟨done, skipped, hfound⟩ := h.inside before
        exact ⟨done, skipped, hfound.append [b]⟩
    · rw [records]
      exact h.finished.append [b]

/-- The reader keeps track, octet by octet. -/
theorem tracked (s : Bytes) : Tracked s := by
  induction s using List.reverseRecOn with
  | nil => exact tracked_nil
  | append_singleton s b ih => exact ih.concat b

/-- Each record was found, the one that the end of the text ends too. -/
theorem found_of_finish {s : Bytes} {i : Nat} {r : Record} (h : (after s).finish[i]? = some r) :
    ∃ done skipped, Found s i r.line done skipped := by
  have hs := tracked s
  unfold State.finish at h
  split at h
  next => exact hs.finished i r h
  next hplace => exact hs.finished.cons (hs.inside hplace) i r h

/-! ## Texts -/

/-- The mark at the start of a text, if it has one. -/
def mark (text : Bytes) : Bytes :=
  if byteOrderMark.isPrefixOf text then byteOrderMark else []

theorem mark_append_dropMark (text : Bytes) : mark text ++ dropMark text = text := by
  unfold mark dropMark
  split
  next h =>
    obtain ⟨s, rfl⟩ := List.isPrefixOf_iff_prefix.mp h
    rw [List.drop_left]
  next => rfl

theorem mark_append_prefix_iff {text s : Bytes} : mark text ++ s <+: text ↔ s <+: dropMark text := by
  have h : mark text ++ s <+: mark text ++ dropMark text ↔ s <+: dropMark text :=
    List.prefix_append_right_inj _
  rwa [mark_append_dropMark] at h

theorem count_mark (text : Bytes) : (mark text).count Ascii.lineFeed = 0 := by
  unfold mark
  split <;> rfl

/-- In a text, what stands before the first octet of the record that `i` records come before. -/
def BeginsAt (text : Bytes) (i : Nat) (before : Bytes) : Prop :=
  ∃ s b, before = mark text ++ s ∧ before ++ [b] <+: text ∧ Begins i s b

/-- In a text, what stands up to the end of the first `i` records. -/
def EndsAt (text : Bytes) (i : Nat) (done : Bytes) : Prop :=
  ∃ s, done = mark text ++ s ∧ done <+: text ∧ Ended i s

/-- Where a record is in a text, and the line it was given. The octets `skipped` are those between the end of
the record before and the first octet of this one. -/
structure FoundAt (text : Bytes) (i line : Nat) (done skipped : Bytes) : Prop where
  ended : EndsAt text i done
  blanks : ∀ b ∈ skipped, isLineEnd b = true
  begins : ∀ before, BeginsAt text i before ↔ before = done ++ skipped
  line : line = 1 + done.count Ascii.lineFeed

theorem Found.foundAt {text : Bytes} {i line : Nat} {done skipped : Bytes}
    (h : Found (dropMark text) i line done skipped) : FoundAt text i line (mark text ++ done) skipped := by
  obtain ⟨b, hprefix, hbegins⟩ := h.begins
  refine ⟨⟨done, rfl, ?_, h.ended⟩, h.blanks, fun before => ?_, ?_⟩
  · rw [mark_append_prefix_iff]
    rw [List.append_assoc] at hprefix
    exact (List.prefix_append done _).trans hprefix
  · rw [List.append_assoc]
    constructor
    · rintro ⟨s, b', rfl, hprefix', hbegins'⟩
      rw [List.append_assoc, mark_append_prefix_iff] at hprefix'
      rw [hbegins.unique hbegins' hprefix hprefix']
    · rintro rfl
      refine ⟨done ++ skipped, b, rfl, ?_, hbegins⟩
      rwa [List.append_assoc, mark_append_prefix_iff]
  · rw [List.count_append, count_mark, Nat.zero_add]
    exact h.line

/-- Each record of a text is found in it. -/
theorem foundAt_of_read {text : Bytes} {records others : List Record} {r : Record}
    (h : read text = records ++ r :: others) :
    ∃ done skipped, FoundAt text records.length r.line done skipped := by
  have hget : (after (dropMark text)).finish[records.length]? = some r := by
    rw [show (after (dropMark text)).finish = records ++ r :: others from h]
    simp
  obtain ⟨done, skipped, hfound⟩ := found_of_finish hget
  exact ⟨mark text ++ done, skipped, hfound.foundAt⟩

/-- The line of a record is the one that it starts on exactly if no line feed is skipped. -/
theorem FoundAt.line_eq_iff {text : Bytes} {i line : Nat} {done skipped : Bytes}
    (h : FoundAt text i line done skipped) :
    line = 1 + (done ++ skipped).count Ascii.lineFeed ↔ Ascii.lineFeed ∉ skipped := by
  rw [h.line, List.count_append, ← List.count_eq_zero]
  omega

end Csv

namespace Table

/-- Each row of a table is a record that has more than a single empty field, under a number that counts the
records of that kind. -/
theorem exists_record_of_mem {text : Bytes} {row : Row} (h : row ∈ ofCsv text) :
    ∃ records r others, Csv.read text = records ++ r :: others ∧ r.fields ≠ [[]] ∧
      row = rowOfRecord (records.filter fun r => r.fields != [[]]).length r := by
  rw [ofCsv, List.mem_mapIdx] at h
  obtain ⟨i, hi, rfl⟩ := h
  have hsplit := List.take_append_drop i ((Csv.read text).filter fun r => r.fields != [[]])
  rw [List.drop_eq_getElem_cons hi] at hsplit
  generalize ((Csv.read text).filter fun r => r.fields != [[]])[i] = r at hsplit ⊢
  obtain ⟨records, rest, hread, hbefore, hrest⟩ := List.filter_eq_append_iff.mp hsplit.symm
  obtain ⟨skipped, others, rfl, hskipped, hr, -⟩ := List.filter_eq_cons_iff.mp hrest
  refine ⟨records ++ skipped, r, others, ?_, ?_, ?_⟩
  · rw [hread, List.append_assoc]
  · simpa using hr
  · rw [List.filter_append, hbefore, List.filter_eq_nil_iff.mpr hskipped, List.append_nil, List.length_take,
      Nat.min_eq_left (Nat.le_of_lt hi)]

/-- A row with too few or too many cells is refused with a hint at its line. -/
theorem event_of_arity {row : Row} {cells : List Cell} (hcells : row.cells = some cells)
    (h : cells.length ≠ 6) {line : Nat} (hline : row.line = some line) :
    ∃ fault, row.event = .error fault ∧ fault.kind = .rowArity ∧
      fault.hint = some ("See input line " ++ Decimal.nat line ++ ".") := by
  have hevent : row.event = .error ((RowDefect.arity cells.length (some line)).fault row.index) := by
    rw [Row.event, Event.ofRow, hcells]
    simp only [ofCells_of_ne h, hline]
    rfl
  exact ⟨_, hevent, rfl, rfl⟩

/-- **The line of a row is where reading it began.** Every octet string is a CSV table, and each row comes from
a record. What stands before the first octet of the record falls into two parts: `done`, up to the octet that
ends the record before, and `skipped`, which has line ends only. The line of the row counts the line feeds of
`done` and not those of `skipped`. So it is the line that the row starts on exactly if no line feed is skipped;
right or not, it is the line that the hint names if the row has too few or too many cells. -/
theorem line_of_row (text : Bytes) :
    ∃ rs, Table.rows .csv text = .ok rs ∧
      ∀ row ∈ rs, ∃ records r others done skipped,
        Csv.read text = records ++ r :: others ∧ r.fields ≠ [[]] ∧
        row = rowOfRecord (records.filter fun r => r.fields != [[]]).length r ∧
        Csv.FoundAt text records.length r.line done skipped ∧
        (row.line = some (1 + (done ++ skipped).count Ascii.lineFeed) ↔ Ascii.lineFeed ∉ skipped) ∧
        (r.fields.length ≠ 6 → ∃ fault, row.event = .error fault ∧ fault.kind = .rowArity ∧
          fault.hint =
            some ("See input line " ++ Decimal.nat (1 + done.count Ascii.lineFeed) ++ ".")) := by
  refine ⟨ofCsv text, rfl, fun row hrow => ?_⟩
  obtain ⟨records, r, others, hread, hr, rfl⟩ := exists_record_of_mem hrow
  obtain ⟨done, skipped, hfound⟩ := Csv.foundAt_of_read hread
  refine ⟨records, r, others, done, skipped, hread, hr, rfl, hfound, ?_, fun harity => ?_⟩
  · rw [← hfound.line_eq_iff, rowOfRecord, Option.some.injEq]
  · apply event_of_arity rfl (by simpa using harity)
    rw [rowOfRecord, hfound.line]

/-- A carriage return ends the first row, and the two line feeds after it are skipped: the second row is said
to be on the line of the first. -/
theorem line_of_row_skipped :
    ∃ rs, Table.rows .csv (Utf8.encode "0,a\r\n\n1,b") = .ok rs ∧
      ∃ row ∈ rs, row.index = 2 ∧ row.line = some 1 ∧
        (∃ done skipped, Csv.FoundAt (Utf8.encode "0,a\r\n\n1,b") 1 1 done skipped ∧
          Ascii.lineFeed ∈ skipped) ∧
        ∃ fault, row.event = .error fault ∧ fault.hint = some "See input line 1." := by
  have hread : Csv.read (Utf8.encode "0,a\r\n\n1,b") = [⟨1, [[0x30], [0x61]]⟩, ⟨1, [[0x31], [0x62]]⟩] := by
    decide
  have hsecond : Csv.BeginsAt (Utf8.encode "0,a\r\n\n1,b") 1 (Utf8.encode "0,a\r\n\n") :=
    ⟨Utf8.encode "0,a\r\n\n", _, rfl, ⟨_, rfl⟩, ⟨rfl, rfl⟩⟩
  obtain ⟨rs, hrs, hrows⟩ := line_of_row (Utf8.encode "0,a\r\n\n1,b")
  have htable : Table.rows .csv (Utf8.encode "0,a\r\n\n1,b") =
      .ok [rowOfRecord 0 ⟨1, [[0x30], [0x61]]⟩, rowOfRecord 1 ⟨1, [[0x31], [0x62]]⟩] := by
    rw [Table.rows, Table.read, ofCsv, hread]
    rfl
  cases hrs.symm.trans htable
  have hmem := List.mem_cons_of_mem (rowOfRecord 0 ⟨1, [[0x30], [0x61]]⟩)
    (List.mem_singleton_self (rowOfRecord 1 ⟨1, [[0x31], [0x62]]⟩))
  refine ⟨_, hrs, _, hmem, rfl, rfl, ?_⟩
  obtain ⟨records, r, others, done, skipped, hsplit, -, hrow, hfound, hiff, hhint⟩ := hrows _ hmem
  rw [hread] at hsplit
  obtain _ | ⟨first, _ | ⟨second, records⟩⟩ := records
  · cases hsplit
    cases hrow
  · cases hsplit
    have hbefore := (hfound.begins _).mp hsecond
    rw [← hbefore] at hiff
    have hskipped : Ascii.lineFeed ∈ skipped := by
      by_contra hnot
      exact absurd (hiff.mpr hnot) (by decide)
    obtain ⟨fault, hevent, -, hline⟩ := hhint (by decide)
    rw [← hfound.line] at hline
    exact ⟨⟨done, skipped, hfound, hskipped⟩, fault, hevent, hline.trans (by cbv)⟩
  · simp at hsplit

/-- With a line feed after each carriage return and no blank lines, the second row starts on the second line and
is said to be on the first. -/
theorem line_of_row_not_start :
    (∀ i < (Utf8.encode "0,a\r\n1,b\r\n").length,
      (Utf8.encode "0,a\r\n1,b\r\n")[i]? = some Ascii.carriageReturn →
        (Utf8.encode "0,a\r\n1,b\r\n")[i + 1]? = some Ascii.lineFeed) ∧
      ∃ rs row, Table.rows .csv (Utf8.encode "0,a\r\n1,b\r\n") = .ok rs ∧ row ∈ rs ∧
        row = rowOfRecord 1 ⟨1, [Utf8.encode "1", Utf8.encode "b"]⟩ ∧
        Csv.BeginsAt (Utf8.encode "0,a\r\n1,b\r\n") 1 (Utf8.encode "0,a\r\n") ∧
        row.line ≠ some (1 + (Utf8.encode "0,a\r\n").count Ascii.lineFeed) := by
  refine ⟨by decide, _, _, rfl, List.mem_cons_of_mem _ List.mem_cons_self, rfl, ?_, by decide⟩
  exact ⟨Utf8.encode "0,a\r\n", _, rfl, ⟨_, rfl⟩, ⟨rfl, rfl⟩⟩

end Table

end EventScript
