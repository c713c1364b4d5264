import EventScript.Proofs.ScriptRoundTrip

/-!
# Where octets stop being a script

A record is known by its octets alone: eight for the timer, then five texts without a NUL, each with a NUL
after it. So there is one way only to go through a script record by record, and what is reported of a script
that cannot be read says how far that way leads.

* `Event.isRecord_iff`: what is a record by its octets is the record of an event.
* `Event.decode_eq_error_iff`: octets with no record at their front lack a timer, or end inside a text.
* `readEvents_eq_error_iff`: reading records stops at the first place where there is no further one.
* `decode_localises`: what reading a script reports, by the number of its complete records and the place where
  the last of them ends. No proper front of an assembled script is read.
-/

namespace EventScript

open Outcome

/-! ## Texts -/

theorem Field.read_eq_none_iff {s : Bytes} : read s = none ↔ Ascii.nul ∉ s := by
  constructor
  · intro h hnul
    obtain ⟨text, rest, rfl, htext⟩ := List.eq_append_cons_of_mem hnul
    have hsome : read (text ++ Ascii.nul :: rest) = some (⟨text, htext⟩, rest) := read_eq_some_iff.mpr rfl
    cases h.symm.trans hsome
  · intro hnul
    cases h : read s with
    | none => rfl
    | some found =>
      rw [read_eq_some_iff.mp h] at hnul
      exact absurd (List.mem_append_right _ List.mem_cons_self) hnul

namespace Event

theorem readField_eq_error_iff {record s : Bytes} {column : Column} {lack : Truncation} :
    readField record column s = .error lack ↔
      Ascii.nul ∉ s ∧ lack = .text column (record.length - s.length) := by
  rw [← Field.read_eq_none_iff, readField]
  split
  next found h => simp [h]
  next h => simp [h, eq_comm]

/-- A text with the NUL that ends it. -/
def terminated (text : Bytes) : Bytes :=
  text ++ [Ascii.nul]

/-- What is left after the texts of some columns. -/
def skipFields (record : Bytes) : List Column → Bytes → Except Truncation Bytes
  | [], s => .ok s
  | column :: columns, s => do
    let (_, s) ← readField record column s
    skipFields record columns s

/-- Texts are skipped up to the first of them that has no end. -/
theorem skipFields_eq_error_iff {record s : Bytes} {columns : List Column} {lack : Truncation} :
    skipFields record columns s = .error lack ↔
      ∃ (texts : List Bytes) (tail : Bytes) (column : Column),
        (∀ text ∈ texts, Ascii.nul ∉ text) ∧ Ascii.nul ∉ tail ∧
        columns[texts.length]? = some column ∧ s = texts.flatMap terminated ++ tail ∧
        lack = .text column (record.length - tail.length) := by
  induction columns generalizing s with
  | nil => simp [skipFields]
  | cons column columns ih =>
    rw [skipFields, bind_eq_error_iff]
    constructor
    · rintro (h | ⟨⟨field, rest⟩, hread, h⟩)
      · obtain ⟨hs, rfl⟩ := readField_eq_error_iff.mp h
        exact ⟨[], s, column, by simp, hs, rfl, rfl, rfl⟩
      · obtain ⟨texts, tail, last, htexts, htail, hlast, hrest, hlack⟩ := ih.mp h
        refine ⟨field.octets :: texts, tail, last, List.forall_mem_cons.mpr ⟨field.nulFree, htexts⟩, htail,
          hlast, ?_, hlack⟩
        rw [readField_eq_ok_iff.mp hread, hrest]
        simp [terminated]
    · rintro ⟨_ | ⟨text, texts⟩, tail, last, htexts, htail, hlast, rfl, hlack⟩
      · cases hlast
        exact .inl (readField_eq_error_iff.mpr ⟨htail, hlack⟩)
      · obtain ⟨htext, htexts⟩ := List.forall_mem_cons.mp htexts
        refine .inr ⟨(⟨text, htext⟩, texts.flatMap terminated ++ tail), readField_eq_ok_iff.mpr ?_,
          ih.mpr ⟨texts, tail, last, htexts, htail, hlast, rfl, hlack⟩⟩
        simp [terminated]

/-! ## Records -/

/-- A record by its octets: eight for the timer, and then one text for each column that holds text. -/
def IsRecord (s : Bytes) : Prop :=
  ∃ (timer : Bytes) (texts : List Bytes), timer.length = 8 ∧ texts.length = 5 ∧
    (∀ text ∈ texts, Ascii.nul ∉ text) ∧ s = timer ++ texts.flatMap terminated

theorem isRecord_iff {s : Bytes} : IsRecord s ↔ ∃ e : Event, s = e.encode := by
  constructor
  · rintro ⟨timer, texts, htimer, hlength, htexts, rfl⟩
    match texts, hlength with
    | [system, target, source, command, arguments], _ =>
      simp only [List.forall_mem_cons] at htexts
      obtain ⟨hsystem, htarget, hsource, hcommand, harguments, -⟩ := htexts
      refine ⟨⟨⟨⟨system, hsystem⟩, ⟨target, htarget⟩, ⟨source, hsource⟩, ⟨command, hcommand⟩,
        ⟨arguments, harguments⟩⟩, timerOfOctets timer⟩, ?_⟩
      rw [encode, timerOctets_timerOfOctets htimer]
      rfl
  · rintro ⟨e, rfl⟩
    refine ⟨timerOctets e.timer, e.octets.toList, length_timerOctets _, rfl, ?_, rfl⟩
    simp [Texts.toList, octets, Field.nulFree]

/-- The first text of a record that has no end is that of `column`, and starts `offset` octets into it. -/
def Unterminated (s : Bytes) (column : Column) (offset : Nat) : Prop :=
  ∃ (timer : Bytes) (texts : List Bytes) (tail : Bytes), timer.length = 8 ∧
    (∀ text ∈ texts, Ascii.nul ∉ text) ∧ Ascii.nul ∉ tail ∧ Column.texts[texts.length]? = some column ∧
    s = timer ++ (texts.flatMap terminated ++ tail) ∧ offset = 8 + (texts.flatMap terminated).length

/-- An event is read by going over its texts one after the other. -/
theorem map_snd_decode (s : Bytes) :
    (decode s).map Prod.snd =
      if s.length < 8 then .error .timer else skipFields s Column.texts (s.drop 8) := by
  have hfront : (s.take timerLength).length < timerLength ↔ s.length < 8 := by
    rw [List.length_take, timerLength]
    omega
  simp only [decode, hfront]
  split
  · rfl
  · simp only [map_bind]
    rfl

theorem decode_eq_error_iff {s : Bytes} {lack : Truncation} :
    decode s = .error lack ↔
      s.length < 8 ∧ lack = .timer ∨
        ∃ column offset, Unterminated s column offset ∧ lack = .text column offset := by
  have hmap : decode s = .error lack ↔ (decode s).map Prod.snd = .error lack := by
    cases decode s <;> simp [Except.map]
  rw [hmap, map_snd_decode]
  split_ifs with hshort
  · constructor
    · intro h
      cases h
      exact .inl ⟨hshort, rfl⟩
    · rintro (⟨-, rfl⟩ | ⟨column, offset, ⟨timer, texts, tail, htimer, -, -, -, rfl, -⟩, -⟩)
      · rfl
      · rw [List.length_append, htimer] at hshort
        omega
  · rw [skipFields_eq_error_iff]
    constructor
    · rintro ⟨texts, tail, column, htexts, htail, hcolumn, hdrop, rfl⟩
      have hlength : s.length = 8 + ((texts.flatMap terminated).length + tail.length) := by
        have := congrArg List.length hdrop
        rw [List.length_drop, List.length_append] at this
        omega
      refine .inr ⟨column, 8 + (texts.flatMap terminated).length, ⟨s.take 8, texts, tail, ?_, htexts, htail,
        hcolumn, ?_, rfl⟩, ?_⟩
      · rw [List.length_take]
        omega
      · rw [← hdrop, List.take_append_drop]
      · congr 1
        omega
    · rintro (⟨h, -⟩ | ⟨column, offset, ⟨timer, texts, tail, htimer, htexts, htail, hcolumn, rfl, rfl⟩, rfl⟩)
      · exact absurd h hshort
      · refine ⟨texts, tail, column, htexts, htail, hcolumn, List.drop_left' htimer, ?_⟩
        congr 1
        simp only [List.length_append, htimer]
        omega

end Event

namespace Script

/-! ## Sequences of records -/

/-- Records by their octets, `count` of them, one after the other. -/
def AreRecords (count : Nat) (s : Bytes) : Prop :=
  ∃ records : List Bytes, records.length = count ∧ (∀ record ∈ records, Event.IsRecord record) ∧
    s = records.flatten

theorem areRecords_iff {count : Nat} {s : Bytes} :
    AreRecords count s ↔ ∃ es : List Event, es.length = count ∧ s = es.flatMap Event.encode := by
  constructor
  · rintro ⟨records, hcount, hrecords, rfl⟩
    subst hcount
    induction records with
    | nil => exact ⟨[], rfl, rfl⟩
    | cons record records ih =>
      obtain ⟨hrecord, hmore⟩ := List.forall_mem_cons.mp hrecords
      obtain ⟨es, hlength, hes⟩ := ih hmore
      obtain ⟨e, rfl⟩ := Event.isRecord_iff.mp hrecord
      exact ⟨e :: es, by simp [hlength], by simp [hes]⟩
  · rintro ⟨es, rfl, rfl⟩
    refine ⟨es.map Event.encode, List.length_map _, ?_, List.flatMap_def⟩
    intro record hrecord
    obtain ⟨e, -, rfl⟩ := List.mem_map.mp hrecord
    exact Event.isRecord_iff.mpr ⟨e, rfl⟩

/-- Why no further record is read: nothing is left, or what is left lacks something. -/
inductive Stops : Bytes → Option Truncation → Prop
  | atEnd : Stops [] none
  | lacking {rest : Bytes} {lack : Truncation} (hne : rest ≠ []) (h : Event.decode rest = .error lack) :
      Stops rest (some lack)

theorem readEvents_of_stops {rest : Bytes} {lack : Option Truncation} (h : Stops rest lack) (count : Nat) :
    readEvents (count + 1) rest = .error ⟨0, rest.length, lack⟩ := by
  cases h with
  | atEnd => rfl
  | lacking hne h =>
    have hempty : rest.isEmpty = false := by simpa using hne
    simp only [readEvents, hempty, Bool.false_eq_true, if_false, h]

theorem readEvents_cons (count : Nat) (e : Event) (s : Bytes) :
    readEvents (count + 1) (e.encode ++ s) =
      match readEvents count s with
      | .error short => .error { short with present := short.present + 1 }
      | .ok (es, rest) => .ok (e :: es, rest) := by
  have hempty : (e.encode ++ s).isEmpty = false := by
    simp [Event.encode_ne_nil]
  cases hmore : readEvents count s <;>
    simp only [readEvents, hempty, Bool.false_eq_true, if_false, Event.decode_encode_append, hmore]

/-- Reading stops after the events whose records stand at the front, where no further one stands. -/
theorem readEvents_eq_error_iff {count : Nat} {s : Bytes} {short : Shortfall} :
    readEvents count s = .error short ↔
      ∃ (es : List Event) (rest : Bytes) (lack : Option Truncation), s = es.flatMap Event.encode ++ rest ∧
        es.length < count ∧ Stops rest lack ∧ short = ⟨es.length, rest.length, lack⟩ := by
  induction count generalizing s short with
  | zero => simp [readEvents]
  | succ count ih =>
    constructor
    · intro h
      rw [readEvents] at h
      split at h
      next hempty =>
        cases h
        rw [List.isEmpty_iff] at hempty
        subst hempty
        exact ⟨[], [], none, rfl, Nat.succ_pos _, .atEnd, rfl⟩
      next hempty =>
        rw [List.isEmpty_iff] at hempty
        split at h
        next lack hlack =>
          cases h
          exact ⟨[], s, some lack, rfl, Nat.succ_pos _, .lacking hempty hlack, rfl⟩
        next e after he =>
          split at h
          next inner hinner =>
            cases h
            obtain ⟨es, rest, lack, rfl, hcount, hstop, rfl⟩ := ih.mp hinner
            refine ⟨e :: es, rest, lack, ?_, Nat.succ_lt_succ hcount, hstop, rfl⟩
            rw [Event.decode_eq_ok_iff.mp he, List.flatMap_cons, List.append_assoc]
          next => cases h
    · rintro ⟨_ | ⟨e, es⟩, rest, lack, rfl, hcount, hstop, rfl⟩
      · exact readEvents_of_stops hstop count
      · rw [List.flatMap_cons, List.append_assoc, readEvents_cons,
          ih.mpr ⟨es, rest, lack, rfl, Nat.lt_of_succ_lt_succ hcount, hstop, rfl⟩]
        rfl

/-! ## Scripts -/

theorem Corruption.kind_fault (c : Corruption) : c.fault.kind = .corrupt := by
  cases c <;> rfl

theorem Header.eq_append_of_decode {s records : Bytes} {header : Header}
    (h : Header.decode s = .ok (header, records)) :
    ∃ front, front.length = 14 ∧ s = front ++ records := by
  obtain ⟨hversion, rfl⟩ := Header.decode_eq_ok_iff.mp h
  refine ⟨header.encode, ?_, rfl⟩
  have htag : (magic ++ Utf8.encode currentVersion).length = 10 := by decide
  rw [Header.encode, hversion, List.length_append, LittleEndian.length_encode, htag]
  rfl

/-- After its first 14 octets `s` starts with `count` records, and the last of them ends at `place`. -/
def RecordsEnd (s : Bytes) (count place : Nat) : Prop :=
  ∃ records, AreRecords count records ∧ records <+: s.drop 14 ∧ place = 14 + records.length

/-- Octets are refused as a script for a fault. -/
def Fails (s : Bytes) (fault : Fault) : Prop :=
  ∃ c, decode s = .error c ∧ c.fault = fault

/-- What is reported of octets under a header that declares `declared` records, if `present` of them are there
and the last of these ends at `place`. -/
structure Diagnosis (s : Bytes) (declared present place : Nat) : Prop where
  most : IsGreatest {count | count ≤ declared ∧ ∃ place, RecordsEnd s count place} present
  ends : RecordsEnd s present place
  accepted : (∃ f, decode s = .ok f) ↔ present = declared ∧ place = s.length
  trailing : present = declared → place < s.length → Fails s
    { kind := .corrupt, offset := some place
      message := some (Decimal.nat (s.length - place) ++ " trailing bytes after " ++ Decimal.nat declared ++
        " records") }
  missing : present < declared → place = s.length → Fails s
    { kind := .corrupt, offset := some place
      message := some ("header declares " ++ Decimal.nat declared ++ " records but only " ++
        Decimal.nat present ++ " present") }
  noTimer : present < declared → place < s.length → s.length < place + 8 → Fails s
    { kind := .corrupt, row := some (present + 1), offset := some place
      message := some "record truncated before timer" }
  unterminated : present < declared → place + 8 ≤ s.length →
    ∃ column offset, Event.Unterminated (s.drop place) column offset ∧ Fails s
      { kind := .corrupt, row := some (present + 1), field := some column.name
        offset := some (place + offset)
        message := some ("record truncated in field " ++ column.name) }
  within : ∀ c, decode s = .error c → c.fault.kind = .corrupt ∧
    ∃ offset, c.fault.offset = some offset ∧ offset ≤ s.length

/-- Reading octets under a header comes to reading the records that it declares. -/
theorem decode_of_header {s records : Bytes} {header : Header}
    (h : Header.decode s = .ok (header, records)) :
    decode s =
      match readEvents header.count.toNat records with
      | .error short => .error (short.corruption header.count.toNat s.length)
      | .ok (events, rest) =>
        if rest.isEmpty then .ok ⟨header, events⟩
        else .error (.trailing rest.length header.count.toNat (s.length - rest.length)) := by
  rw [decode, h]
  rfl

/-- There is one way to go through records, to the number asked for or to where no further one stands. -/
theorem exists_records (declared : Nat) (records : Bytes) :
    ∃ (es : List Event) (rest : Bytes), records = es.flatMap Event.encode ++ rest ∧ es.length ≤ declared ∧
      (es.length < declared → ∃ lack, Stops rest lack) := by
  cases h : readEvents declared records with
  | ok read =>
    obtain ⟨hlength, hrecords⟩ := readEvents_eq_ok_iff.mp h
    exact ⟨read.1, read.2, hrecords, hlength.le, fun hlt => absurd hlength hlt.ne⟩
  | error short =>
    obtain ⟨es, rest, lack, hrecords, hlt, hstop, -⟩ := readEvents_eq_error_iff.mp h
    exact ⟨es, rest, hrecords, hlt.le, fun _ => ⟨lack, hstop⟩⟩

/-- Where no further record stands there are no more records than those before. -/
theorem le_of_areRecords {es : List Event} {rest : Bytes} {lack : Option Truncation} (hstop : Stops rest lack)
    {count : Nat} {records : Bytes} (hrecords : AreRecords count records)
    (hfront : records <+: es.flatMap Event.encode ++ rest) : count ≤ es.length := by
  obtain ⟨es', rfl, rfl⟩ := areRecords_iff.mp hrecords
  obtain ⟨after, hafter⟩ := hfront
  by_contra hmore
  have hread : readEvents es'.length (es.flatMap Event.encode ++ rest) = .ok (es', after) :=
    readEvents_eq_ok_iff.mpr ⟨rfl, hafter.symm⟩
  have hfail : readEvents es'.length (es.flatMap Event.encode ++ rest) =
      .error ⟨es.length, rest.length, lack⟩ :=
    readEvents_eq_error_iff.mpr ⟨es, rest, lack, rfl, Nat.lt_of_not_le hmore, hstop, rfl⟩
  cases hread.symm.trans hfail

theorem Stops.offset_le {rest : Bytes} {lack : Truncation} (h : Stops rest (some lack)) :
    lack.offset ≤ rest.length := by
  cases h with
  | lacking _ h =>
    rcases Event.decode_eq_error_iff.mp h with ⟨-, rfl⟩ | ⟨column, offset, hopen, rfl⟩
    · exact Nat.zero_le _
    · obtain ⟨timer, texts, tail, htimer, -, -, -, rfl, rfl⟩ := hopen
      simp only [Truncation.offset, List.length_append, htimer]
      omega

/-- Going through the records of `s`, as many as `header` declares or fewer, leads past the records of `es` to
`rest`. -/
structure Traced (s : Bytes) (header : Header) (es : List Event) (rest : Bytes) : Prop where
  drop : s.drop 14 = es.flatMap Event.encode ++ rest
  length : s.length = 14 + (es.flatMap Event.encode).length + rest.length
  le : es.length ≤ header.count.toNat
  stops : es.length < header.count.toNat → ∃ lack, Stops rest lack
  decode_all : es.length = header.count.toNat → decode s =
    if rest.isEmpty then .ok ⟨header, es⟩
    else .error (.trailing rest.length header.count.toNat (s.length - rest.length))
  decode_stop : es.length < header.count.toNat → ∀ {lack}, Stops rest lack → decode s =
    .error (Shortfall.corruption ⟨es.length, rest.length, lack⟩ header.count.toNat s.length)

theorem exists_traced {s records : Bytes} {header : Header} (h : Header.decode s = .ok (header, records)) :
    ∃ es rest, Traced s header es rest := by
  obtain ⟨es, rest, rfl, hle, hstops⟩ := exists_records header.count.toNat records
  obtain ⟨front, hfront, hs⟩ := Header.eq_append_of_decode h
  refine ⟨es, rest, ?_, ?_, hle, hstops, ?_, ?_⟩
  · rw [hs, List.drop_left' hfront]
  · rw [hs, List.length_append, List.length_append, hfront, Nat.add_assoc]
  · intro hcount
    rw [decode_of_header h, readEvents_eq_ok_iff.mpr ⟨hcount, rfl⟩]
  · intro hcount lack hlack
    rw [decode_of_header h, readEvents_eq_error_iff.mpr ⟨es, rest, lack, rfl, hcount, hlack, rfl⟩]

namespace Traced

variable {s rest : Bytes} {header : Header} {es : List Event}

theorem recordsEnd (h : Traced s header es rest) : RecordsEnd s es.length (s.length - rest.length) :=
  ⟨es.flatMap Event.encode, areRecords_iff.mpr ⟨es, rfl, rfl⟩, h.drop ▸ List.prefix_append _ _, by
    have := h.length
    omega⟩

theorem le_of_recordsEnd (h : Traced s header es rest) {count place : Nat}
    (hcount : count ≤ header.count.toNat) (hends : RecordsEnd s count place) : count ≤ es.length := by
  obtain ⟨records, hrecords, hfront, -⟩ := hends
  rcases h.le.eq_or_lt with heq | hlt
  · exact heq ▸ hcount
  · obtain ⟨lack, hlack⟩ := h.stops hlt
    exact le_of_areRecords hlack hrecords (h.drop ▸ hfront)

theorem drop_place (h : Traced s header es rest) : s.drop (s.length - rest.length) = rest := by
  have hplace : s.length - rest.length = 14 + (es.flatMap Event.encode).length := by
    have := h.length
    omega
  rw [hplace, ← List.drop_drop, h.drop, List.drop_left]

theorem accepted_iff (h : Traced s header es rest) :
    (∃ f, decode s = .ok f) ↔ es.length = header.count.toNat ∧ rest = [] := by
  constructor
  · rintro ⟨f, hf⟩
    rcases h.le.eq_or_lt with heq | hlt
    · rw [h.decode_all heq] at hf
      split at hf
      next hempty => exact ⟨heq, List.isEmpty_iff.mp hempty⟩
      next => cases hf
    · obtain ⟨lack, hlack⟩ := h.stops hlt
      cases hf.symm.trans (h.decode_stop hlt hlack)
  · rintro ⟨heq, rfl⟩
    exact ⟨_, h.decode_all heq⟩

theorem fails_trailing (h : Traced s header es rest) (heq : es.length = header.count.toNat)
    (hrest : rest ≠ []) :
    Fails s (Corruption.fault (.trailing rest.length header.count.toNat (s.length - rest.length))) := by
  have hempty : rest.isEmpty = false := by simpa using hrest
  refine ⟨_, ?_, rfl⟩
  rw [h.decode_all heq, hempty]
  rfl

theorem fails_missing (h : Traced s header es []) (hlt : es.length < header.count.toNat) :
    Fails s (Corruption.fault (.missingRecords header.count.toNat es.length s.length)) :=
  ⟨_, h.decode_stop hlt .atEnd, rfl⟩

theorem fails_truncated (h : Traced s header es rest) (hlt : es.length < header.count.toNat)
    {lack : Truncation} (hrest : rest ≠ []) (hlack : Event.decode rest = .error lack) :
    Fails s (Corruption.fault (.truncatedRecord (es.length + 1) (s.length - rest.length) lack)) :=
  ⟨_, h.decode_stop hlt (.lacking hrest hlack), rfl⟩

theorem offset_le (h : Traced s header es rest) {c : Corruption} (hc : decode s = .error c) :
    ∃ offset, c.fault.offset = some offset ∧ offset ≤ s.length := by
  have hlength := h.length
  rcases h.le.eq_or_lt with heq | hlt
  · rw [h.decode_all heq] at hc
    split at hc
    next => cases hc
    next =>
      cases hc
      exact ⟨_, rfl, Nat.sub_le _ _⟩
  · obtain ⟨lack, hlack⟩ := h.stops hlt
    rw [h.decode_stop hlt hlack] at hc
    cases lack with
    | none =>
      cases hc
      exact ⟨_, rfl, Nat.sub_le _ _⟩
    | some lack =>
      cases hc
      have hle := hlack.offset_le
      refine ⟨s.length - rest.length + lack.offset, rfl, ?_⟩
      omega

/-- What is reported of octets whose records have been gone through. -/
theorem diagnosis (h : Traced s header es rest) :
    Diagnosis s header.count.toNat es.length (s.length - rest.length) where
  most := ⟨⟨h.le, _, h.recordsEnd⟩, fun _ hcount => h.le_of_recordsEnd hcount.1 hcount.2.choose_spec⟩
  ends := h.recordsEnd
  accepted := by
    rw [h.accepted_iff, ← List.length_eq_zero_iff]
    have := h.length
    omega
  trailing heq hlt := by
    have hlength : s.length - (s.length - rest.length) = rest.length := by
      have := h.length
      omega
    rw [hlength]
    apply h.fails_trailing heq
    rintro rfl
    exact Nat.lt_irrefl _ hlt
  missing hlt heq := by
    have hrest : rest = [] := by
      rw [← List.length_eq_zero_iff]
      have := h.length
      omega
    subst hrest
    exact h.fails_missing hlt
  noTimer hlt hplace hshort := by
    have hrest : rest ≠ [] := by
      rintro rfl
      exact Nat.lt_irrefl _ hplace
    have hlack : Event.decode rest = .error .timer := by
      have := h.length
      exact Event.decode_eq_error_iff.mpr (.inl ⟨by omega, rfl⟩)
    exact h.fails_truncated hlt hrest hlack
  unterminated hlt hlong := by
    obtain ⟨_ | lack, hstop⟩ := h.stops hlt
    · cases hstop
      exact absurd hlong (by simp)
    · cases hstop with
      | lacking hrest hlack =>
        have hfails := h.fails_truncated hlt hrest hlack
        rcases Event.decode_eq_error_iff.mp hlack with ⟨hshort, -⟩ | ⟨column, offset, hopen, rfl⟩
        · have := h.length
          omega
        · exact ⟨column, offset, h.drop_place.symm ▸ hopen, hfails⟩
  within c hc := ⟨c.kind_fault, h.offset_le hc⟩

end Traced

/-- No proper front of an assembled script is read as a script. -/
theorem exists_error_of_prefix {es : List Event} {script front : Bytes} (h : assemble es = .ok script)
    (hfront : front <+: script) (hne : front ≠ script) : ∃ c, decode front = .error c := by
  obtain ⟨-, hfew, rfl⟩ := assemble_eq_ok_iff.mp h
  cases hdecode : decode front with
  | error c => exact ⟨c, rfl⟩
  | ok f =>
    obtain ⟨hf, rfl⟩ := decode_eq_ok_iff.mp hdecode
    obtain ⟨after, hafter⟩ := hfront
    have hnil : after = [] := eq_of_encode_append hf (consistent_ofEvents hfew) hafter.symm
    rw [hnil, List.append_nil] at hafter
    exact absurd hafter hne

/-- **Corruption is localised.** Whatever the octets, if a header of some records is read off them, then what is
reported of them is told by how many complete records, up to that number, stand after the header, and where the
last of these ends. And no proper front of an assembled script is read, header or not. -/
theorem decode_localises :
    (∀ (s records : Bytes) (header : Header), Header.decode s = .ok (header, records) →
      ∃ present place, Diagnosis s header.count.toNat present place) ∧
    (∀ (es : List Event) (script front : Bytes), assemble es = .ok script → front <+: script →
      front ≠ script → ∃ c, decode front = .error c ∧ c.fault.kind = .corrupt) := by
  constructor
  · intro s records header h
    obtain ⟨es, rest, htraced⟩ := exists_traced h
    exact ⟨es.length, s.length - rest.length, htraced.diagnosis⟩
  · intro es script front h hfront hne
    obtain ⟨c, hc⟩ := exists_error_of_prefix h hfront hne
    exact ⟨c, hc, c.kind_fault⟩

/-- The header of two records, a record of empty texts, and the front of another one up to its second text,
which has no end. -/
def cutScript : Bytes :=
  (Header.ofCount 2).encode ++ List.replicate 13 0x00 ++ List.replicate 8 0xFF ++ [0x61, 0x00, 0x62]

theorem decode_localises_second_record :
    (∃ present place, Diagnosis cutScript 2 present place) ∧
      Fails cutScript
        { kind := .corrupt, row := some 2, field := some "to", offset := some 37
          message := some "record truncated in field to" } := by
  have hheader : Header.decode cutScript = .ok (Header.ofCount 2, cutScript.drop 14) := rfl
  exact ⟨decode_localises.1 cutScript _ _ hheader, _, rfl, rfl⟩

end Script

end EventScript
