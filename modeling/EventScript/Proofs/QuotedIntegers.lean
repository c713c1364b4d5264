import EventScript.Proofs.IntegerTimers
import EventScript.Proofs.TablePlaces

/-!
# Integers as texts, quoted and bare

An integer literal of 64 bits is written just as its value is shown, so a number cell with that literal has the
same text form as a text cell with its characters. Of the cells that hold texts nothing but their text forms
matters, so putting the literal between quotes changes nothing.

* `SpellsInteger.eq_intChars`: an integer literal is the numeral of its integer, unless it is minus zero.
* `eq_intChars_of_whole`: a number that is read as an integer is written so.
* `Event.ofCells_congr`: of the cells that hold texts nothing but the text forms matters.
* `compileTable_quoted`: a JSON table with an integer between quotes compiles like that with it bare.
-/

namespace EventScript

open Table (Row Cell)
open Json (Value Spells IsJson AroundItem)

/-! ## Literals -/

namespace Decimal

/-- Digits without a leading zero are the digits of their number. -/
theorem digits_value {ds : List Nat} (hds : ∀ d ∈ ds, d < 10) (hne : ds ≠ []) (hhead : ds.head? ≠ some 0) :
    digits (value ds) = ds ∧ 0 < value ds := by
  induction ds using List.reverseRecOn with
  | nil => exact absurd rfl hne
  | append_singleton ds d ih =>
    obtain ⟨hds, hlast⟩ := List.forall_mem_append.mp hds
    have hd : d < 10 := hlast d (List.mem_singleton_self d)
    rw [value_append]
    cases ds with
    | nil =>
      have hpos : d ≠ 0 := by simpa using hhead
      have hvalue : 10 * value [] + d = d := by simp [value]
      rw [hvalue, digits, if_pos hd]
      exact ⟨rfl, Nat.pos_of_ne_zero hpos⟩
    | cons first ds =>
      obtain ⟨hdigits, hpos⟩ := ih hds (by simp) (by simpa using hhead)
      have hquot : (10 * value (first :: ds) + d) / 10 = value (first :: ds) := by omega
      have hrem : (10 * value (first :: ds) + d) % 10 = d := by omega
      rw [digits, if_neg (by omega), hquot, hrem, hdigits]
      exact ⟨rfl, by omega⟩

end Decimal

namespace Json

variable {z : Int} {s : Bytes}

theorem SpellsWhole.digits_value {ds : List Nat} (h : SpellsWhole ds s) :
    Decimal.digits (Decimal.value ds) = ds ∧ (Decimal.value ds = 0 → ds = [0]) := by
  cases h with
  | zero =>
    have hzero : Decimal.value [0] = 0 := rfl
    rw [hzero, Decimal.digits]
    exact ⟨rfl, fun _ => rfl⟩
  | digits h hd =>
    obtain ⟨hdigits, hpos⟩ := Decimal.digits_value h.eq.1 (by simp) (by simpa using hd)
    exact ⟨hdigits, fun hzero => absurd hzero (Nat.ne_of_gt hpos)⟩

theorem SpellsWhole.eq_natChars {ds : List Nat} (h : SpellsWhole ds s) :
    s = (Decimal.natChars (Decimal.value ds)).flatMap String.utf8EncodeChar := by
  rw [Decimal.natChars, h.digits_value.1]
  exact h.spellsDigits.1.eq.2

theorem SpellsWhole.eq_intChars {ds : List Nat} (h : SpellsWhole ds s) :
    s = (Decimal.intChars (Decimal.value ds)).flatMap String.utf8EncodeChar := by
  rw [Decimal.intChars, if_neg (by omega), Int.natAbs_natCast]
  exact h.eq_natChars

theorem SpellsWhole.minus_eq_intChars {ds : List Nat} (h : SpellsWhole ds s) (hpos : Decimal.value ds ≠ 0) :
    Ascii.minus :: s = (Decimal.intChars (-(Decimal.value ds : Int))).flatMap String.utf8EncodeChar := by
  have hsign : String.utf8EncodeChar '-' = [Ascii.minus] := rfl
  rw [Decimal.intChars, if_pos (by omega), Int.natAbs_neg, Int.natAbs_natCast, List.flatMap_cons, hsign,
    ← h.eq_natChars]
  rfl

/-- An integer literal is the numeral of its integer, unless it is minus zero. -/
theorem SpellsInteger.eq_intChars (h : SpellsInteger z s) (hminus : s ≠ Utf8.encode "-0") :
    s = (Decimal.intChars z).flatMap String.utf8EncodeChar := by
  cases h with
  | plain h => exact h.eq_intChars
  | minus h =>
    refine h.minus_eq_intChars fun hzero => hminus ?_
    have hdigits := h.spellsDigits.1.eq.2
    rw [h.digits_value.2 hzero] at hdigits
    rw [hdigits]
    rfl

/-- Only integer literals denote whole numbers, and minus zero does not. -/
theorem Literal.eq_ofDigits {l : Literal} {n : Whole} (h : l.whole? = some n) :
    l = ofDigits l.negative l.whole ∧ n.value = integer l.negative l.whole ∧
      ¬ (l.negative = true ∧ Decimal.value l.whole = 0) := by
  unfold whole? at h
  split at h
  next word hfraction hexponent habsorb =>
    obtain ⟨taken, hwhole, hword⟩ := absorb_append wordLimit 0 l.whole
    rw [habsorb, List.append_nil] at hwhole
    rw [habsorb, ← hwhole] at hword
    have hword : word = Decimal.value l.whole := hword
    refine ⟨by rw [ofDigits, ← hfraction, ← hexponent], ?_⟩
    unfold Whole.ofInt? at h
    rw [integer, ← hword]
    split_ifs at h ⊢ with hnegative hzero <;> cases h
    · exact ⟨rfl, fun h => hzero h.2⟩
    · exact ⟨rfl, fun h => hnegative h.1⟩
  next => cases h

theorem Literal.whole?_of_number {l : Literal} {n : Whole} : l.number = .ok (.whole n) → l.whole? = some n := by
  fun_cases number l with
  | case1 n' hsome =>
    intro h
    cases h
    exact hsome
  | case2 | case3 | case4 | case5 =>
    intro h
    cases h

theorem SpellsUnsigned.whole_of_ofDigits {negative : Bool} {ds : List Nat}
    (h : SpellsUnsigned (Literal.ofDigits negative ds) s) : SpellsWhole ds s := by
  obtain ⟨hs, ht, hu⟩ := h
  cases ht
  cases hu
  rwa [List.append_nil, List.append_nil]

/-- A number is read as a whole one from the numeral of its integer. -/
theorem eq_intChars_of_whole {n : Whole} (h : SpellsScalar (.number (.whole n)) s) :
    s = (Decimal.intChars n.value).flatMap String.utf8EncodeChar := by
  cases h with
  | @number l _ _ h hn =>
    obtain ⟨hl, hvalue, hsign⟩ := Literal.eq_ofDigits (Literal.whole?_of_number hn)
    generalize l.negative = negative at *
    generalize l.whole = ds at *
    subst hl
    cases h with
    | plus hl h =>
      obtain rfl : negative = false := hl
      rw [hvalue]
      exact h.whole_of_ofDigits.eq_intChars
    | minus hl h =>
      obtain rfl : negative = true := hl
      rw [hvalue]
      exact h.whole_of_ofDigits.minus_eq_intChars fun hzero => hsign ⟨rfl, hzero⟩

theorem SpellsInteger.isJson (h : SpellsInteger z s) : IsJson s := by
  obtain ⟨negative, ds, hliteral, -⟩ := h.literal
  exact ⟨0, .number hliteral⟩

/-- An integer literal of 64 bits that is not minus zero is read as a whole number with its characters for its
text. -/
theorem SpellsInteger.number (h : SpellsInteger z s) (hminus : s ≠ Utf8.encode "-0") (hlow : -2 ^ 63 ≤ z)
    (hhigh : z < 2 ^ 64) :
    ∃ n : Number, SpellsScalar (.number n) s ∧ Utf8.encode n.text = s := by
  have hs := h.eq_intChars hminus
  refine ⟨.whole ⟨z, by omega, by omega⟩, ?_, ?_⟩
  · have hspells := spellsScalar_chars (v := .number (.whole ⟨z, by omega, by omega⟩)) trivial
    rw [hs]
    exact hspells
  · rw [Utf8.encode, Number.text, String.toList_ofList]
    exact hs.symm

theorem spellsChars_plain {cs : List Char} (h : ∀ c ∈ cs, 0x20 ≤ c.toNat ∧ c ≠ '\x22' ∧ c ≠ '\\') :
    SpellsChars cs (cs.flatMap String.utf8EncodeChar) := by
  induction cs with
  | nil => exact .nil
  | cons c cs ih =>
    obtain ⟨⟨hprinted, hquote, hbackslash⟩, hcs⟩ := List.forall_mem_cons.mp h
    exact .cons (.plain hprinted hquote hbackslash) (ih hcs)

/-- An integer literal between quotes is a string of its characters. -/
theorem SpellsInteger.spellsString (h : SpellsInteger z s) (hminus : s ≠ Utf8.encode "-0") :
    ∃ text, Utf8.encode text = s ∧ SpellsString text (Ascii.quote :: (s ++ [Ascii.quote])) := by
  have hs := h.eq_intChars hminus
  have hdigit : ∀ d < 10, 0x20 ≤ (Decimal.digitChar d).toNat ∧ Decimal.digitChar d ≠ '\x22' ∧
      Decimal.digitChar d ≠ '\\' := by
    decide
  have hplain : ∀ c ∈ Decimal.intChars z, 0x20 ≤ c.toNat ∧ c ≠ '\x22' ∧ c ≠ '\\' := by
    intro c hc
    have hcases : c = '-' ∨ c ∈ Decimal.natChars z.natAbs := by
      unfold Decimal.intChars at hc
      split at hc
      · exact List.mem_cons.mp hc
      · exact .inr hc
    rcases hcases with rfl | hc
    · decide
    · obtain ⟨d, hd, rfl⟩ := List.mem_map.mp hc
      exact hdigit d (Decimal.digits_lt hd)
  refine ⟨String.ofList (Decimal.intChars z), ?_, ?_⟩
  · rw [Utf8.encode, String.toList_ofList, hs]
  · rw [hs]
    exact .quoted (by rw [String.toList_ofList]; exact spellsChars_plain hplain)

end Json

/-! ## Cells -/

theorem fieldOfCell_congr {cell cell' : Cell} (h : textOfCell? cell = textOfCell? cell') (column : Column) :
    fieldOfCell column cell = fieldOfCell column cell' := by
  rw [fieldOfCell, fieldOfCell, h]

/-- Of the cells that hold texts nothing but the text forms matters. -/
theorem Event.ofCells_congr {cells cells' : List Cell} (h : cells.map textOfCell? = cells'.map textOfCell?)
    (line : Option Nat) (first : Cell) : ofCells line (first :: cells) = ofCells line (first :: cells') := by
  have hlength : cells.length = cells'.length := by simpa using congrArg List.length h
  by_cases hfive : cells.length = 5
  · obtain ⟨t, rfl⟩ := Texts.exists_toList hfive
    obtain ⟨t', rfl⟩ := Texts.exists_toList (hlength ▸ hfive)
    have htexts : t.traverse fieldOfCell = t'.traverse fieldOfCell := by
      simp only [Texts.toList, List.map_cons, List.map_nil, List.cons.injEq, and_true] at h
      obtain ⟨hsystem, htarget, hsource, hcommand, harguments⟩ := h
      simp only [Texts.traverse, fieldOfCell_congr hsystem, fieldOfCell_congr htarget,
        fieldOfCell_congr hsource, fieldOfCell_congr hcommand, fieldOfCell_congr harguments]
    rw [ofCells_toList, ofCells_toList, htexts]
  · rw [ofCells_of_ne (by simpa using hfive), ofCells_of_ne (by simpa [← hlength] using hfive),
      List.length_cons, List.length_cons, hlength]

/-! ## Tables -/

namespace Table

variable {pre post : Bytes}

/-- The cell of a column in row `i` is a number cell that holds an integer. -/
def HoldsInteger (rows : List Row) (i column : Nat) (z : Int) : Prop :=
  ∃ row, rows[i]? = some row ∧ ∃ cells, row.cells = some cells ∧
    ∃ n : Json.Whole, n.value = z ∧ cells[column]? = some (.number (.whole n))

theorem spellsScalar_of_number {depth : Nat} {v : Value} {t : Bytes} (h : Spells depth v t) {n : Json.Number}
    (hv : cellOfValue v = .number n) : Json.SpellsScalar (.number n) t := by
  cases v with
  | number =>
    cases hv
    cases depth with
    | zero => exact h
    | succ depth => exact h.resolve_right fun h => nomatch h
  | null | bool | string | array | object => cases hv

/-- Two values that are the same, or arrays with the same first cell and the same text forms of the others. -/
inductive SameTexts : Value → Value → Prop
  | same (v : Value) : SameTexts v v
  | texts (first : Value) {items items' : List Value}
      (h : (items.map cellOfValue).map textOfCell? = (items'.map cellOfValue).map textOfCell?) :
      SameTexts (.array (first :: items)) (.array (first :: items'))

theorem SameTexts.event_eq {v v' : Value} (h : SameTexts v v') (position : Nat) :
    (rowOfValue position v).event = (rowOfValue position v').event := by
  cases h with
  | same => rfl
  | texts first h => exact congrArg (Except.mapError _) (Event.ofCells_congr h none (cellOfValue first))

/-- Putting a value in place of another with the same text form, anywhere but in front, leaves the text forms. -/
theorem sameTexts_of_textOfCell? {v v' : Value} (h : textOfCell? (cellOfValue v) = textOfCell? (cellOfValue v'))
    {vs : List Value} (hne : vs ≠ []) (ws : List Value) :
    SameTexts (.array (vs ++ v :: ws)) (.array (vs ++ v' :: ws)) := by
  cases vs with
  | nil => exact absurd rfl hne
  | cons first vs => exact .texts first (by simp [h])

/-- Either a table is refused whatever is put at the place of a cell that holds a text, or its rows are the same
for values with the same text form. -/
theorem AroundCell.ofJson_cases {column : Nat} (h : AroundCell column pre post) (hcolumn : 1 ≤ column) :
    (∃ values : Value → List Value,
        (∀ t v, IsJson t → Spells 125 v t →
          ofJson (pre ++ (t ++ post)) = .ok ((values v).mapIdx rowOfValue)) ∧
        ∀ v v', textOfCell? (cellOfValue v) = textOfCell? (cellOfValue v') →
          List.Forall₂ SameTexts (values v) (values v')) ∨
      ∀ t, IsJson t → ∃ e, ofJson (pre ++ (t ++ post)) = .error e := by
  obtain ⟨hbefore, hrow, hcell⟩ := h
  simp only [append_around]
  rcases hrow.ofJson_cases with ⟨values, hvalues, hparametric⟩ | hrefused
  · rcases hcell.spells_or_refuses 125 with ⟨vs, ws, hlength, hspells⟩ | hrefuses
    · have hne : vs ≠ [] := by
        rw [← List.length_pos_iff, hlength, hbefore]
        exact hcolumn
      refine .inl ⟨fun v => values (.array (vs ++ v :: ws)),
        fun t v ht hv => hvalues _ _ (.array (hcell t ht)) (hspells t v ht hv), fun v v' hv => ?_⟩
      exact hparametric SameTexts .same _ _ (sameTexts_of_textOfCell? hv hne ws)
    · exact .inr fun t ht => hrow.refused (.array (hcell t ht)) (hrefuses t ht)
  · exact .inr fun t ht => hrefused _ (.array (hcell t ht))

end Table

namespace Compile

open Table (rowOfValue SameTexts)

theorem pushRows_congr {rows rows' : List Row} (h : List.Forall₂ (fun r r' => r.event = r'.event) rows rows')
    (b : Script.Builder) : pushRows b rows = pushRows b rows' := by
  induction h generalizing b with
  | nil => rfl
  | cons hrow _ ih =>
    rw [pushRows_cons, pushRows_cons, hrow]
    exact congrArg _ (funext fun e => ih (b.push e))

/-- Rows of values that are the same but for texts of the same form compile alike. -/
theorem compileRows_congr {vs vs' : List Value} (h : List.Forall₂ SameTexts vs vs') :
    compileRows (vs.mapIdx rowOfValue) = compileRows (vs'.mapIdx rowOfValue) := by
  have hrows : List.Forall₂ (fun r r' => r.event = r'.event) (vs.mapIdx rowOfValue)
      (vs'.mapIdx rowOfValue) := by
    rw [List.forall₂_iff_get] at h ⊢
    obtain ⟨hlength, hsame⟩ := h
    refine ⟨by simpa using hlength, fun i hi hi' => ?_⟩
    simp only [List.length_mapIdx] at hi hi'
    simpa using (hsame i hi hi').event_eq i
  rw [compileRows, compileRows, pushRows_congr hrows]

/-- A table that is read compiles alike with a text in place of a number that is written so. -/
theorem compileTable_text {column : Nat} {pre post : Bytes} (hplace : Table.AroundCell column pre post)
    (hcolumn : 1 ≤ column) {n : Json.Number} {s : Bytes} (hn : Json.SpellsScalar (.number n) s)
    (hform : Utf8.encode n.text = s) {rows : List Row} (hrows : Table.ofJson (pre ++ (s ++ post)) = .ok rows)
    {text : String} {t : Bytes} (htext : Utf8.encode text = s) (ht : Json.SpellsString text t) :
    compileTable .json (pre ++ (t ++ post)) = compileTable .json (pre ++ (s ++ post)) := by
  have hsame : textOfCell? (Table.cellOfValue (.string text)) = textOfCell? (Table.cellOfValue (.number n)) := by
    rw [Table.cellOfValue, Table.cellOfValue, textOfCell?, textOfCell?, htext, hform]
  have hnumber := Json.spells_of_scalar 125 hn
  have hstring := Json.spells_of_scalar 125 (.string ht)
  rcases hplace.ofJson_cases hcolumn with ⟨values, hvalues, htexts⟩ | hrefused
  · rw [compileTable, compileTable, Table.rows, Table.rows, Table.read, Table.read,
      hvalues s _ ⟨125, Json.isValue_of_spells hnumber⟩ hnumber,
      hvalues t _ ⟨125, Json.isValue_of_spells hstring⟩ hstring]
    exact compileRows_congr (htexts _ _ hsame)
  · -- the table is read with the number, so no other part of it is refused
    obtain ⟨e, he⟩ := hrefused s ⟨125, Json.isValue_of_spells hnumber⟩
    cases hrows.symm.trans he

/-- **Quotes around an integer change nothing.** Take a JSON table that is read, and an integer literal of 64 bits
that is not minus zero. Wherever a number cell of the table holds that integer, the literal stands at its place.
And wherever the literal stands as a cell other than the first, the table compiles to the same script of the same
records with the literal between quotes, or as a string of its characters that is escaped in any other way, or it
is refused by the same fault. -/
theorem compileTable_quoted {input : Bytes} {rows : List Row} (hrows : Table.rows .json input = .ok rows)
    {column : Nat} (hcolumn : 1 ≤ column) {z : Int} {s : Bytes} (hs : Json.SpellsInteger z s)
    (hminus : s ≠ Utf8.encode "-0") (hlow : -2 ^ 63 ≤ z) (hhigh : z < 2 ^ 64) :
    (∀ i, Table.HoldsInteger rows i column z →
        ∃ pre post, Table.CellPlace rows i column pre post ∧ input = pre ++ (s ++ post)) ∧
      ∀ pre post, Table.AroundCell column pre post → input = pre ++ (s ++ post) →
        compileTable .json (pre ++ (Ascii.quote :: (s ++ [Ascii.quote]) ++ post)) = compileTable .json input ∧
          ∀ text t, Utf8.encode text = s → Json.SpellsString text t →
            compileTable .json (pre ++ (t ++ post)) = compileTable .json input := by
  have hread : Table.ofJson input = .ok rows := Outcome.mapError_eq_ok_iff.mp hrows
  constructor
  · rintro i ⟨row, hrow, cells, hcells, n, rfl, hcell⟩
    obtain ⟨pre, t, post, v, hplace, rfl, ht, hv⟩ := Table.exists_cellPlace hread hrow hcells hcell
    refine ⟨pre, post, hplace, ?_⟩
    rw [hs.eq_intChars hminus, ← Json.eq_intChars_of_whole (Table.spellsScalar_of_number ht hv)]
  · rintro pre post hplace rfl
    obtain ⟨n, hn, hform⟩ := hs.number hminus hlow hhigh
    obtain ⟨text, htext, hquoted⟩ := hs.spellsString hminus
    exact ⟨compileTable_text hplace hcolumn hn hform hread htext hquoted,
      fun text t htext ht => compileTable_text hplace hcolumn hn hform hread htext ht⟩

end Compile

namespace Table

theorem intercalate_around (before : List Bytes) (t : Bytes) (after : List Bytes) :
    [Ascii.comma].intercalate (before ++ t :: after) =
      (before.flatMap fun t => t ++ [Ascii.comma]) ++ (t ++ after.flatMap fun t => Ascii.comma :: t) := by
  have hmore (t t' : Bytes) (ts : List Bytes) :
      [Ascii.comma].intercalate (t :: t' :: ts) = t ++ Ascii.comma :: [Ascii.comma].intercalate (t' :: ts) := by
    simp [List.intercalate]
  induction before with
  | nil =>
    induction after generalizing t with
    | nil => simp [List.intercalate]
    | cons t' after ih =>
      have htail := ih t'
      simp only [List.nil_append, List.flatMap_nil] at htail
      simp [hmore, htail]
  | cons t' before ih =>
    cases before with
    | nil => simpa [hmore] using ih
    | cons t'' before => simpa [hmore] using ih

/-- What stands around an item between commas. -/
theorem aroundItem_commas {before after : List Bytes} (hbefore : ∀ t ∈ before, IsJson t)
    (hafter : ∀ t ∈ after, IsJson t) :
    AroundItem before after (Ascii.bracketOpen :: before.flatMap fun t => t ++ [Ascii.comma])
      ((after.flatMap fun t => Ascii.comma :: t) ++ [Ascii.bracketClose]) := by
  intro t ht
  have hitems := intercalate_around before t after
  have harray := arrayText_commas (List.forall_mem_append.mpr ⟨hbefore, List.forall_mem_cons.mpr ⟨ht, hafter⟩⟩)
  rw [hitems] at harray
  simpa using harray

/-- The third cell of a table of one row. -/
theorem aroundCell_third :
    AroundCell 2 (Utf8.encode "[[7,\"a\",") (Utf8.encode ",null,\"b\",true]]") := by
  have hwhole : Json.SpellsWhole [7] (Utf8.encode "7") := .digits rfl (by decide)
  have hletter (letter : String) : IsJson (Utf8.encode (Value.string letter).text) := by
    rw [Json.encode_text]
    exact ⟨0, .string (Json.spellsString_stringChars letter)⟩
  have hbefore : ∀ t ∈ [Utf8.encode "7", Utf8.encode "\"a\""], IsJson t := by
    simp only [List.forall_mem_cons]
    exact ⟨(Json.SpellsInteger.plain hwhole).isJson, hletter "a", by simp⟩
  have hafter : ∀ t ∈ [Utf8.encode "null", Utf8.encode "\"b\"", Utf8.encode "true"], IsJson t := by
    simp only [List.forall_mem_cons]
    exact ⟨⟨0, .null⟩, hletter "b", ⟨0, .true⟩, by simp⟩
  have hnone : ∀ t ∈ ([] : List Bytes), IsJson t := by simp
  have hrow : AroundRow [Ascii.bracketOpen] [Ascii.bracketClose] :=
    .array Json.blank_nil (aroundItem_commas hnone hnone) Json.blank_nil
  have hplace := AroundCell.cell rfl hrow (aroundItem_commas hbefore hafter)
  have hpre : [Ascii.bracketOpen] ++ (Ascii.bracketOpen :: [Utf8.encode "7", Utf8.encode "\"a\""].flatMap
      fun t => t ++ [Ascii.comma]) = Utf8.encode "[[7,\"a\"," := by
    decide
  have hpost : ([Utf8.encode "null", Utf8.encode "\"b\"", Utf8.encode "true"].flatMap
      fun t => Ascii.comma :: t) ++ [Ascii.bracketClose] ++ [Ascii.bracketClose] =
        Utf8.encode ",null,\"b\",true]]" := by
    decide
  rwa [hpre, hpost] at hplace

end Table

namespace Compile

/-- The greatest unsigned word may stand between quotes, among cells of other kinds. -/
theorem compileTable_quoted_greatest :
    ∃ rows, Table.rows .json (Utf8.encode "[[7,\"a\",18446744073709551615,null,\"b\",true]]") = .ok rows ∧
      Table.HoldsInteger rows 0 2 18446744073709551615 ∧
      (∃ pre post, Table.CellPlace rows 0 2 pre post ∧
        Utf8.encode "[[7,\"a\",18446744073709551615,null,\"b\",true]]" =
          pre ++ (Utf8.encode "18446744073709551615" ++ post)) ∧
      compileTable .json (Utf8.encode "[[7,\"a\",\"18446744073709551615\",null,\"b\",true]]") =
        compileTable .json (Utf8.encode "[[7,\"a\",18446744073709551615,null,\"b\",true]]") := by
  have hrows : Table.rows .json (Utf8.encode "[[7,\"a\",18446744073709551615,null,\"b\",true]]") =
      .ok [⟨1, none, some [.number (.whole ⟨7, by decide, by decide⟩), .text (Utf8.encode "a"),
        .number (.whole ⟨18446744073709551615, by decide, by decide⟩), .null, .text (Utf8.encode "b"),
        .bool true]⟩] := by
    cbv
  have hwhole : Json.SpellsWhole [1, 8, 4, 4, 6, 7, 4, 4, 0, 7, 3, 7, 0, 9, 5, 5, 1, 6, 1, 5]
      (Utf8.encode "18446744073709551615") :=
    .digits rfl (by decide)
  have hbare : Utf8.encode "[[7,\"a\",18446744073709551615,null,\"b\",true]]" = Utf8.encode "[[7,\"a\"," ++
      (Utf8.encode "18446744073709551615" ++ Utf8.encode ",null,\"b\",true]]") := by
    decide
  have hquoted : Utf8.encode "[[7,\"a\"," ++ (Ascii.quote :: (Utf8.encode "18446744073709551615" ++
      [Ascii.quote]) ++ Utf8.encode ",null,\"b\",true]]") =
        Utf8.encode "[[7,\"a\",\"18446744073709551615\",null,\"b\",true]]" := by
    decide
  have hspells : Json.SpellsInteger 18446744073709551615 (Utf8.encode "18446744073709551615") := .plain hwhole
  obtain ⟨hplaces, hquotes⟩ := compileTable_quoted hrows (show 1 ≤ 2 by decide) hspells (by decide) (by norm_num)
    (by norm_num)
  refine ⟨_, hrows, ⟨_, rfl, _, rfl, _, rfl, rfl⟩, hplaces 0 ⟨_, rfl, _, rfl, _, rfl, rfl⟩, ?_⟩
  rw [← hquoted]
  exact (hquotes _ _ Table.aroundCell_third hbare).1

end Compile

end EventScript
