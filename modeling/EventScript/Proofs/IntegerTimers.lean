import EventScript.Proofs.IntegerLiterals
import EventScript.Proofs.JudgedRows
import EventScript.Proofs.RepeatedKeys
import EventScript.Proofs.TextTimers

/-!
# Integers as timers, as numbers and as texts

An integer literal may stand in the timer column as a number, in JSON, or as a text, in either format. As a
text it is its exact value, and a timer if 64 bits hold that.

* `timerOfCell_text`: the timer of the characters of an integer literal.
* `event_number_iff`, `event_text_iff`: the event of a table of one row with the one or the other.
* `agree_number_text`: where the two agree.
-/

namespace EventScript

open Table (Row Cell Format)
open Json (Value Literal)

/-! ## Texts -/

namespace Json

theorem digitChar_of_digit? {b : UInt8} {d : Nat} (h : Ascii.digit? b = some d) :
    d < 10 ∧ String.utf8EncodeChar (Decimal.digitChar d) = [b] := by
  unfold Ascii.digit? at h
  split at h
  next hb =>
    have hd := Option.some.inj h
    simp only [UInt8.le_iff_toNat_le, UInt8.reduceToNat] at hb
    have hlt : d < 10 := by omega
    have hoctet : b = UInt8.ofNat (d + 48) := by
      rw [← UInt8.toNat_inj, UInt8.toNat_ofNat_of_lt' (by rw [UInt8.size]; omega)]
      omega
    refine ⟨hlt, ?_⟩
    rw [hoctet]
    interval_cases d <;> rfl
  next => cases h

theorem SpellsDigits.eq {ds : List Nat} {s : Bytes} (h : SpellsDigits ds s) :
    (∀ d ∈ ds, d < 10) ∧ s = (ds.map Decimal.digitChar).flatMap String.utf8EncodeChar := by
  unfold SpellsDigits at h
  induction s generalizing ds with
  | nil =>
    have hds : ds = [] := List.map_eq_nil_iff.mp h.symm
    subst hds
    exact ⟨by simp, rfl⟩
  | cons b s ih =>
    cases ds with
    | nil => cases h
    | cons d ds =>
      obtain ⟨hb, hs⟩ := List.cons_eq_cons.mp h
      obtain ⟨hlt, hoctet⟩ := digitChar_of_digit? hb
      obtain ⟨hds, rfl⟩ := ih hs
      refine ⟨List.forall_mem_cons.mpr ⟨hlt, hds⟩, ?_⟩
      rw [List.map_cons, List.flatMap_cons, hoctet, List.singleton_append]

theorem SpellsWhole.spellsDigits {ds : List Nat} {s : Bytes} (h : SpellsWhole ds s) :
    SpellsDigits ds s ∧ ds ≠ [] := by
  cases h with
  | zero => exact ⟨rfl, by simp⟩
  | digits h => exact ⟨h, by simp⟩

/-- An integer literal: a sign if it is minus, and digits with no leading zero. -/
inductive SpellsInteger : Int → Bytes → Prop
  | plain {ds : List Nat} {s : Bytes} (h : SpellsWhole ds s) : SpellsInteger (Decimal.value ds) s
  | minus {ds : List Nat} {s : Bytes} (h : SpellsWhole ds s) :
      SpellsInteger (-(Decimal.value ds : Int)) (Ascii.minus :: s)

variable {z : Int} {s : Bytes}

theorem SpellsInteger.literal (h : SpellsInteger z s) :
    ∃ negative ds, SpellsLiteral (Literal.ofDigits negative ds) s ∧ z = Literal.integer negative ds ∧
      ∀ d ∈ ds, d < 10 := by
  cases h with
  | @plain ds s h =>
    have hparts := SpellsUnsigned.parts (l := Literal.ofDigits false ds) h .absent .absent
    rw [List.append_nil, List.append_nil] at hparts
    exact ⟨false, ds, .plus rfl hparts, rfl, h.spellsDigits.1.eq.1⟩
  | @minus ds s h =>
    have hparts := SpellsUnsigned.parts (l := Literal.ofDigits true ds) h .absent .absent
    rw [List.append_nil, List.append_nil] at hparts
    exact ⟨true, ds, .minus rfl hparts, rfl, h.spellsDigits.1.eq.1⟩

/-- The characters of an integer literal are a numeral of it. -/
theorem SpellsInteger.paddedNumeral (h : SpellsInteger z s) : PaddedNumeral s z := by
  have hblank : Text.IsBlank [] := fun _ h => absurd h List.not_mem_nil
  have hoctets (cs : List Char) :
      Utf8.encode (String.ofList ([] ++ cs ++ [])) = cs.flatMap String.utf8EncodeChar := by
    rw [Utf8.encode, String.toList_ofList, List.nil_append, List.append_nil]
  cases h with
  | @plain ds s h =>
    obtain ⟨hdigits, hne⟩ := h.spellsDigits
    obtain ⟨hds, rfl⟩ := hdigits.eq
    have hpadded := PaddedNumeral.padded hblank (.digits (Decimal.isDigits_map_digitChar hds hne)) hblank
    rwa [hoctets] at hpadded
  | @minus ds s h =>
    obtain ⟨hdigits, hne⟩ := h.spellsDigits
    obtain ⟨hds, rfl⟩ := hdigits.eq
    have hpadded := PaddedNumeral.padded hblank (.minus (Decimal.isDigits_map_digitChar hds hne)) hblank
    rwa [hoctets] at hpadded

end Json

/-- As a text an integer literal is the timer that is its exact value. -/
theorem timerOfCell_text {z : Int} {s : Bytes} (h : Json.SpellsInteger z s) {timer : Int64} :
    timerOfCell (.text s) = .ok timer ↔ timer.toInt = z := by
  rw [timerOfCell_text_iff]
  constructor
  · exact fun htimer => htimer.unique h.paddedNumeral
  · rintro rfl
    exact h.paddedNumeral

/-! ## Rows -/

/-- The cells after the first give the texts of an event. -/
def GivesTexts (others : List Cell) (e : Event) : Prop :=
  List.Forall₂ TextForm others e.octets.toList

theorem Table.Row.event_iff_of_cells {row : Row} {first : Cell} {others : List Cell}
    (h : row.cells = some (first :: others)) {e : Event} :
    row.event = .ok e ↔ timerOfCell first = .ok e.timer ∧ GivesTexts others e := by
  rw [event_eq_ok_iff]
  constructor
  · rintro ⟨⟩
    next h' hfirst htexts =>
      cases h.symm.trans h'
      exact ⟨hfirst, htexts⟩
  · rintro ⟨hfirst, htexts⟩
    exact .event h hfirst htexts

/-- Five cells hold the texts of an event just when each of them holds a text, whatever its timer is. -/
theorem exists_givesTexts_iff {others : List Cell} (h : others.length = 5) (timer : Int64) :
    (∃ e : Event, e.timer = timer ∧ GivesTexts others e) ↔ ∀ cell ∈ others, HoldsText cell := by
  let row : Row := ⟨1, none, some (.number (.whole (.ofInt64 timer)) :: others)⟩
  have hcells : row.cells = some (.number (.whole (.ofInt64 timer)) :: others) := rfl
  have hfirst {t : Int64} : timerOfCell (.number (.whole (.ofInt64 timer))) = .ok t ↔ timer = t := by
    rw [timerOfCell_number, timerOfNumber?_ofInt64, Option.some.injEq]
  have hevent : (∃ e, row.event = .ok e) ↔ ∃ e : Event, e.timer = timer ∧ GivesTexts others e := by
    simp only [Row.event_iff_of_cells hcells, hfirst, eq_comm]
  rw [← hevent, Table.Row.exists_event_iff]
  constructor
  · rintro ⟨first, texts, hcells, -, -, htexts⟩
    cases hcells
    exact htexts
  · intro htexts
    exact ⟨_, others, rfl, h, ⟨timer, hfirst.mpr rfl⟩, htexts⟩

/-! ## Tables of one row -/

namespace Table

/-- The event of the only row of a table, if there is one. -/
def onlyEvent? (format : Format) (input : Bytes) : Option Event :=
  match read format input with
  | .ok [row] => row.event.toOption
  | _ => none

theorem onlyEvent?_eq_some_iff {format : Format} {input : Bytes} {row : Row}
    (h : read format input = .ok [row]) {e : Event} : onlyEvent? format input = some e ↔ row.event = .ok e := by
  rw [onlyEvent?, h]
  show row.event.toOption = some e ↔ row.event = .ok e
  cases row.event <;> simp [Except.toOption]

open Json (IsJson Padded ArrayText ObjectText)

/-- A JSON text of a table whose only row is written as `row`. -/
inductive OnlyRow (row : Bytes) : Bytes → Prop
  | array {input : Bytes} (h : Padded (ArrayText IsJson [row]) input) : OnlyRow row input
  | object {key : String} {input : Bytes} (h : Padded (ObjectText IsJson [(key, row)]) input) :
      OnlyRow row input

theorem OnlyRow.read {row input : Bytes} (h : OnlyRow row input) {v : Value} (hv : Json.Spells 126 v row) :
    ofJson input = .ok [rowOfValue 0 v] := by
  cases h with
  | array h => exact ofJson_eq (Json.read_array (f := fun _ => v) h (by simpa using hv)) rfl
  | object h => exact ofJson_eq (Json.read_object (f := fun _ => v) h (by simpa using hv)) rfl

theorem OnlyRow.refused {row input : Bytes} (h : OnlyRow row input)
    (hrow : Json.Refuses (Json.readValue 126) row) : onlyEvent? .json input = none := by
  have herror : ∃ e, Json.read input = .error e := by
    cases h with
    | array h => exact Json.read_array_refused h ⟨row, List.mem_singleton_self row, hrow⟩
    | object h => exact Json.read_object_refused h ⟨_, List.mem_singleton_self _, hrow⟩
  obtain ⟨e, he⟩ := herror
  rw [onlyEvent?, Table.read, ofJson_eq_error he]

/-- A JSON text of a table of one row, whose first value is written as `first`. -/
inductive StartsWith (first : Bytes) (others : List Value) : Bytes → Prop
  | row {ts : List Bytes} {row input : Bytes}
      (hothers : List.Forall₂ (fun t v => Json.Spells 125 v t) ts others)
      (hrow : ArrayText IsJson (first :: ts) row) (hinput : OnlyRow row input) : StartsWith first others input

/-- A table of one row, whose first cell is the text `first`, in either format. -/
inductive StartsWithText (first : Bytes) (others : List Value) : Format → Bytes → Prop
  | json {text : String} {s input : Bytes} (htext : Utf8.encode text = first) (hs : Json.SpellsString text s)
      (h : StartsWith s others input) : StartsWithText first others .json input
  | csv {fields : List Bytes} {input : Bytes} (hfields : fields.map Cell.text = others.map cellOfValue)
      (h : Csv.SpellsText [first :: fields] input) : StartsWithText first others .csv input

theorem StartsWith.read {first : Bytes} {others : List Value} {input : Bytes}
    (h : StartsWith first others input) {v : Value} (hv : Json.Spells 125 v first) :
    Table.read .json input = .ok [⟨1, none, some (cellOfValue v :: others.map cellOfValue)⟩] := by
  cases h with
  | row hothers hrow hinput => exact hinput.read (hrow.spells_forall₂ (.cons hv hothers))

theorem StartsWith.refused {first : Bytes} {others : List Value} {input : Bytes}
    (h : StartsWith first others input) (hfirst : Json.Refuses (Json.readValue 125) first) :
    onlyEvent? .json input = none := by
  cases h with
  | row hothers hrow hinput =>
    apply hinput.refused
    exact Json.refuses_array IsJson.startsValue (IsJson.spelled_or_refused 125) hrow
      ⟨first, List.mem_cons_self, hfirst⟩

theorem ofCsv_of_fields {input : Bytes} {fields : List Bytes} (h : Csv.SpellsText [fields] input)
    (hne : fields ≠ [[]]) : ∃ line, ofCsv input = [⟨1, some line, some (fields.map .text)⟩] := by
  obtain ⟨r, hr, rfl⟩ := List.map_eq_singleton_iff.mp (Csv.read_spelled h)
  have hkeep : [r].filter (fun r => r.fields != [[]]) = [r] := by
    rw [List.filter_eq_self]
    simpa using hne
  refine ⟨r.line, ?_⟩
  rw [ofCsv, hr, hkeep]
  rfl

theorem StartsWithText.read {first : Bytes} {others : List Value} {format : Format} {input : Bytes}
    (h : StartsWithText first others format input) (hne : others ≠ []) :
    ∃ line, Table.read format input = .ok [⟨1, line, some (.text first :: others.map cellOfValue)⟩] := by
  cases h with
  | json htext hs h =>
    subst htext
    exact ⟨none, h.read (Json.spells_of_scalar 125 (.string hs))⟩
  | @csv fields input hfields h =>
    have hfieldsNe : fields ≠ [] := by
      rintro rfl
      exact hne (List.map_eq_nil_iff.mp hfields.symm)
    obtain ⟨line, hrows⟩ := ofCsv_of_fields h (by simp [hfieldsNe])
    refine ⟨some line, ?_⟩
    rw [Table.read, hrows, List.map_cons, hfields]

/-! ## Numbers and texts -/

variable {z : Int} {s : Bytes} {others : List Value} {number text : Bytes} {format : Format}

/-- The event of a table whose only row starts with an integer literal as a number. -/
theorem event_number_iff (hs : Json.SpellsInteger z s) (h : StartsWith s others number) {e : Event} :
    onlyEvent? .json number = some e ↔
      (-2 ^ 63 - 1024 ≤ z ∧ z < 2 ^ 63 ∧ e.timer.toInt = max z (-2 ^ 63)) ∧
        GivesTexts (others.map cellOfValue) e := by
  obtain ⟨negative, ds, hliteral, rfl, hds⟩ := hs.literal
  have hholds : (Literal.ofDigits negative ds).HoldsTimer e.timer ↔ _ := Literal.holdsTimer_ofDigits hds
  norm_num at hholds ⊢
  rw [← hholds]
  cases hnumber : (Literal.ofDigits negative ds).number with
  | ok n =>
    have hread := h.read (Json.spells_of_scalar 125 (.number hliteral hnumber))
    rw [onlyEvent?_eq_some_iff hread, Row.event_iff_of_cells rfl, cellOfValue, timerOfCell_number,
      Literal.holdsTimer_iff hnumber]
  | error unread =>
    rw [h.refused (Json.refuses_literal hliteral hnumber)]
    simp [Literal.HoldsTimer, hnumber]

/-- The event of a table whose only row starts with an integer literal as a text. -/
theorem event_text_iff (hs : Json.SpellsInteger z s) (hne : others ≠ [])
    (h : StartsWithText s others format text) {e : Event} :
    onlyEvent? format text = some e ↔ e.timer.toInt = z ∧ GivesTexts (others.map cellOfValue) e := by
  obtain ⟨line, hread⟩ := h.read hne
  rw [onlyEvent?_eq_some_iff hread, Row.event_iff_of_cells rfl, timerOfCell_text hs]

theorem refused_below (hs : Json.SpellsInteger z s) (hne : others ≠ [])
    (h : StartsWithText s others format text) (hz : z < -2 ^ 63) : onlyEvent? format text = none := by
  cases hsome : onlyEvent? format text with
  | none => rfl
  | some e =>
    have htimer := ((event_text_iff hs hne h).mp hsome).1
    have hleast := e.timer.le_toInt
    omega

/-- Up to 1024 below the least integer of 64 bits numbers are taken for that. -/
theorem accepted_below (hs : Json.SpellsInteger z s) (hlength : others.length = 5)
    (h : StartsWith s others number) (hlow : -2 ^ 63 - 1024 ≤ z) (hz : z < -2 ^ 63)
    (hall : ∀ v ∈ others, HoldsText (cellOfValue v)) :
    ∃ e, onlyEvent? .json number = some e ∧ e.timer.toInt = -2 ^ 63 := by
  have hfive : (others.map cellOfValue).length = 5 := by rwa [List.length_map]
  obtain ⟨e, htimer, htexts⟩ :=
    (exists_givesTexts_iff hfive Int64.minValue).mpr (List.forall_mem_map.mpr hall)
  have hleast : e.timer.toInt = -2 ^ 63 := by
    rw [htimer]
    rfl
  exact ⟨e, (event_number_iff hs h).mpr ⟨⟨hlow, by omega, by omega⟩, htexts⟩, hleast⟩

/-- Two tables agree on an integer: neither gives an event, or both give the same and its timer is the
integer. -/
def AgreeOn (z : Int) (e e' : Option Event) : Prop :=
  (e = none ∧ e' = none) ∨ ∃ event, e = some event ∧ e' = some event ∧ event.timer.toInt = z

/-- **Just below 64 bits a number is not its own timer.** Take an integer literal and a row of it and five more
values, as a JSON table with the literal as a number, and as a JSON or CSV table with its characters as a text.
Both tables give no event, or both give the same one with the exact integer as its timer, unless the integer is
one of the 1024 below the least that 64 bits hold, and the other values hold texts. There the number gives an
event whose timer is that least integer, and the text gives none. -/
theorem agree_number_text (hs : Json.SpellsInteger z s) (hlength : others.length = 5)
    (hnumber : StartsWith s others number) (htext : StartsWithText s others format text) :
    (AgreeOn z (onlyEvent? .json number) (onlyEvent? format text) ↔
        ¬ (-2 ^ 63 - 1024 ≤ z ∧ z < -2 ^ 63 ∧ ∀ v ∈ others, HoldsText (cellOfValue v))) ∧
      (-2 ^ 63 - 1024 ≤ z → z < -2 ^ 63 → (∀ v ∈ others, HoldsText (cellOfValue v)) →
        onlyEvent? format text = none ∧
          ∃ e, onlyEvent? .json number = some e ∧ e.timer.toInt = -2 ^ 63) := by
  have hne : others ≠ [] := by
    rintro rfl
    cases hlength
  refine ⟨?_, fun hlow hz hall =>
    ⟨refused_below hs hne htext hz, accepted_below hs hlength hnumber hlow hz hall⟩⟩
  constructor
  · rintro hagree ⟨hlow, hz, hall⟩
    obtain ⟨e, he, -⟩ := accepted_below hs hlength hnumber hlow hz hall
    rcases hagree with ⟨hnone, -⟩ | ⟨e', -, he', -⟩
    · cases hnone.symm.trans he
    · cases (refused_below hs hne htext hz).symm.trans he'
  · intro hnot
    have hfive : (others.map cellOfValue).length = 5 := by rwa [List.length_map]
    cases hsome : onlyEvent? .json number with
    | some e =>
      obtain ⟨⟨hlow, hhigh, htimer⟩, htexts⟩ := (event_number_iff hs hnumber).mp hsome
      have hall := (exists_givesTexts_iff hfive e.timer).mp ⟨e, rfl, htexts⟩
      have hz : -2 ^ 63 ≤ z := by
        by_contra hz
        exact hnot ⟨hlow, by omega, List.forall_mem_map.mp hall⟩
      have hexact : e.timer.toInt = z := by omega
      exact .inr ⟨e, rfl, (event_text_iff hs hne htext).mpr ⟨hexact, htexts⟩, hexact⟩
    | none =>
      refine .inl ⟨rfl, ?_⟩
      cases hsome' : onlyEvent? format text with
      | none => rfl
      | some e =>
        obtain ⟨htimer, htexts⟩ := (event_text_iff hs hne htext).mp hsome'
        have hleast := e.timer.le_toInt
        have hgreatest := e.timer.toInt_lt
        have hevent := (event_number_iff hs hnumber).mpr ⟨⟨by omega, by omega, by omega⟩, htexts⟩
        cases hsome.symm.trans hevent

/-- The integer below the least one of 64 bits. -/
def belowLeast : Bytes :=
  Utf8.encode "-9223372036854775809"

theorem spellsInteger_belowLeast : Json.SpellsInteger (-9223372036854775809) belowLeast := by
  have hwhole : Json.SpellsWhole [9, 2, 2, 3, 3, 7, 2, 0, 3, 6, 8, 5, 4, 7, 7, 5, 8, 0, 9]
      (Utf8.encode "9223372036854775809") :=
    .digits rfl (by decide)
  exact .minus hwhole

theorem isScalar_belowLeast : Json.IsScalar belowLeast := by
  obtain ⟨negative, ds, hliteral, -⟩ := spellsInteger_belowLeast.literal
  exact .number hliteral

/-- Five values that hold texts. -/
def letters : List Value :=
  ["a", "b", "c", "d", "e"].map .string

theorem holdsText_letters : ∀ v ∈ letters, HoldsText (cellOfValue v) := by
  simp only [letters, List.map_cons, List.map_nil, List.forall_mem_cons]
  refine ⟨?_, ?_, ?_, ?_, ?_, by simp⟩ <;> exact ⟨_, .text _, by decide⟩

/-- The table of one row, which starts with `first` and goes on with the letters. -/
def withLetters (first : Bytes) : Bytes :=
  Ascii.bracketOpen :: Ascii.bracketOpen ::
    (first ++ (Utf8.encode ",\"a\",\"b\",\"c\",\"d\",\"e\"" ++ [Ascii.bracketClose, Ascii.bracketClose]))

theorem arrayText_commas {value : Bytes → Prop} {ts : List Bytes} (h : ∀ t ∈ ts, value t) :
    ArrayText value ts (Ascii.bracketOpen :: ([Ascii.comma].intercalate ts ++ [Ascii.bracketClose])) := by
  have hone (t : Bytes) : [Ascii.comma].intercalate [t] = id t := by
    simp [List.intercalate]
  have hmore (t t' : Bytes) (ts : List Bytes) : [Ascii.comma].intercalate (t :: t' :: ts) =
      id t ++ Ascii.comma :: [Ascii.comma].intercalate (t' :: ts) := by
    simp [List.intercalate]
  exact .items (Json.listed_of_write _ rfl hone hmore fun t ht => .text (h t ht))

theorem onlyRow_brackets {row : Bytes} (h : IsJson row) :
    OnlyRow row (Ascii.bracketOpen :: (row ++ [Ascii.bracketClose])) := by
  have hpad := Padded.pad Json.blank_nil (arrayText_commas (List.forall_mem_singleton.mpr h)) Json.blank_nil
  have hone : [Ascii.comma].intercalate [row] = row := by simp [List.intercalate]
  rw [List.nil_append, List.append_nil, hone] at hpad
  exact .array hpad

theorem startsWith_withLetters {first : Bytes} (h : Json.IsScalar first) :
    StartsWith first letters (withLetters first) := by
  have hletters : ∀ v ∈ letters, Json.SpellsScalar v (Utf8.encode v.text) := by
    intro v hv
    rw [Json.encode_text]
    apply Json.spellsScalar_chars
    obtain ⟨text, -, rfl⟩ := List.mem_map.mp hv
    trivial
  have hall : ∀ t ∈ first :: letters.map fun v => Utf8.encode v.text, Json.IsScalar t :=
    List.forall_mem_cons.mpr ⟨h, List.forall_mem_map.mpr fun v hv => Json.isScalar_of_spells (hletters v hv)⟩
  have hothers : List.Forall₂ (fun t v => Json.Spells 125 v t) (letters.map fun v => Utf8.encode v.text)
      letters := by
    rw [List.forall₂_map_left_iff, List.forall₂_same]
    exact fun v hv => Json.spells_of_scalar 125 (hletters v hv)
  have hitems : [Ascii.comma].intercalate (first :: letters.map fun v => Utf8.encode v.text) =
      first ++ Utf8.encode ",\"a\",\"b\",\"c\",\"d\",\"e\"" :=
    rfl
  have hrow := onlyRow_brackets ⟨1, .inr (.inl ⟨_, arrayText_commas hall⟩)⟩
  have hall' := StartsWith.row hothers (arrayText_commas fun t ht => ⟨0, hall t ht⟩) hrow
  rw [hitems] at hall'
  simpa [withLetters] using hall'

theorem spellsText_withLetters :
    Csv.SpellsText [belowLeast :: ["a", "b", "c", "d", "e"].map Utf8.encode]
      (Utf8.encode "-9223372036854775809,a,b,c,d,e\n") := by
  have hfirst : Csv.SpellsField belowLeast belowLeast := .bare (by decide +kernel) (by decide)
  have hletter {b : UInt8} (h : b ≠ Ascii.comma ∧ Csv.State.isLineEnd b = false) (hquote : b ≠ Ascii.quote) :
      Csv.SpellsField [b] [b] :=
    .bare (List.forall_mem_singleton.mpr h) (by simpa using hquote)
  have hfields := Csv.SpellsFields.comma hfirst <|
    .comma (hletter (b := 0x61) (by decide) (by decide)) <|
    .comma (hletter (b := 0x62) (by decide) (by decide)) <|
    .comma (hletter (b := 0x63) (by decide) (by decide)) <|
    .comma (hletter (b := 0x64) (by decide) (by decide)) <|
    .last (hletter (b := 0x65) (by decide) (by decide))
  exact .plain (.record hfields (by decide) (b := Ascii.lineFeed) rfl .nil) rfl

/-- The JSON table with the integer below the least one as a number. -/
def belowLeastNumber : Bytes :=
  Utf8.encode "[[-9223372036854775809,\"a\",\"b\",\"c\",\"d\",\"e\"]]"

/-- The JSON table with its characters as a text. -/
def belowLeastText : Bytes :=
  Utf8.encode "[[\"-9223372036854775809\",\"a\",\"b\",\"c\",\"d\",\"e\"]]"

theorem startsWith_belowLeast : StartsWith belowLeast letters belowLeastNumber :=
  startsWith_withLetters isScalar_belowLeast

theorem startsWithText_belowLeast : StartsWithText belowLeast letters .json belowLeastText := by
  have hstring := Json.spellsString_stringChars "-9223372036854775809"
  exact .json rfl hstring (startsWith_withLetters (.string hstring))

/-- As a number the integer below the least one is taken for that, and as a text it is refused. -/
theorem agree_number_text_belowLeast :
    onlyEvent? .csv (Utf8.encode "-9223372036854775809,a,b,c,d,e\n") = none ∧
      ∃ e, onlyEvent? .json belowLeastNumber = some e ∧ e.timer.toInt = -2 ^ 63 :=
  (agree_number_text spellsInteger_belowLeast rfl startsWith_belowLeast (.csv rfl spellsText_withLetters)).2
    (by norm_num) (by norm_num) holdsText_letters

/-- A number and a text of the same characters that do not agree. -/
theorem not_agree_belowLeast :
    Json.SpellsInteger (-9223372036854775809) belowLeast ∧
      StartsWith belowLeast letters belowLeastNumber ∧
      StartsWithText belowLeast letters .json belowLeastText ∧
      ¬ AgreeOn (-9223372036854775809) (onlyEvent? .json belowLeastNumber)
        (onlyEvent? .json belowLeastText) := by
  obtain ⟨e, hnumber, -⟩ := accepted_below spellsInteger_belowLeast rfl startsWith_belowLeast (by norm_num)
    (by norm_num) holdsText_letters
  have htext := refused_below spellsInteger_belowLeast (by decide) startsWithText_belowLeast (by norm_num)
  refine ⟨spellsInteger_belowLeast, startsWith_belowLeast, startsWithText_belowLeast, ?_⟩
  rintro (⟨hnone, -⟩ | ⟨e', -, hsome, -⟩)
  · cases hnone.symm.trans hnumber
  · cases htext.symm.trans hsome

end Table

end EventScript
