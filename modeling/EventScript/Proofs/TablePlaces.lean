import EventScript.Proofs.JsonPlaces
import EventScript.Proofs.JsonSpelled

/-!
# Places in JSON tables

What stands around a row, or around a cell of a row, is a place in a JSON table. A table is refused whatever is
put at a place, or it is read, and then as rows that differ only as far as what is put there. Of a table that is
read each cell stands at a place, and what is put there becomes that cell and changes nothing else.

* `AroundRow.ofJson_cases`: the rows that are read when the place of a row is filled.
* `exists_cellPlace`: each cell of a table that is read stands at a place.
-/

namespace EventScript

open Table (Row Cell)
open Json (Value Spells IsJson AroundItem AroundMember)

/-! ## Members -/

namespace Json

variable {R : Value → Value → Prop}

/-- Members with the same keys and related values. -/
def SameKeys (R : Value → Value → Prop) : List (String × Value) → List (String × Value) → Prop :=
  List.Forall₂ fun m m' => m.1 = m'.1 ∧ R m.2 m'.2

theorem SameKeys.putMember {done done' : List (String × Value)} (h : SameKeys R done done')
    {m m' : String × Value} (hm : m.1 = m'.1 ∧ R m.2 m'.2) :
    SameKeys R (Value.putMember m.1 m.2 done) (Value.putMember m'.1 m'.2 done') := by
  obtain ⟨key, v⟩ := m
  obtain ⟨_, v'⟩ := m'
  obtain ⟨rfl, hv⟩ := hm
  induction h with
  | nil => exact .cons ⟨rfl, hv⟩ .nil
  | @cons d d' _ _ hd hmore ih =>
    unfold Value.putMember
    rw [← hd.1]
    split
    next => exact .cons ⟨rfl, hv⟩ hmore
    next => exact .cons hd ih

theorem SameKeys.putMembers {members members' : List (String × Value)} (h : SameKeys R members members') :
    SameKeys R (Value.putMembers [] members) (Value.putMembers [] members') :=
  List.rel_foldl (P := SameKeys R) (R := fun m m' : String × Value => m.1 = m'.1 ∧ R m.2 m'.2)
    (fun _ _ hdone _ _ hm => hdone.putMember hm) .nil h

theorem SameKeys.values {members members' : List (String × Value)} (h : SameKeys R members members') :
    List.Forall₂ R (members.map Prod.snd) (members'.map Prod.snd) := by
  rw [List.forall₂_map_left_iff, List.forall₂_map_right_iff]
  exact h.imp fun _ _ hm => hm.2

end Json

/-! ## Rows -/

namespace Table

/-- What stands around a row of a JSON table. -/
inductive AroundRow : Bytes → Bytes → Prop
  | array {before after : List Bytes} {w p q w' : Bytes} (hw : Json.Blank w) (h : AroundItem before after p q)
      (hw' : Json.Blank w') : AroundRow (w ++ p) (q ++ w')
  | object {before after : List (String × Bytes)} {key : String} {w p q w' : Bytes} (hw : Json.Blank w)
      (h : AroundMember before after key p q) (hw' : Json.Blank w') : AroundRow (w ++ p) (q ++ w')

/-- What stands around the cell of a column in a row of a JSON table. -/
inductive AroundCell (column : Nat) : Bytes → Bytes → Prop
  | cell {before after : List Bytes} {p q r s : Bytes} (hcolumn : before.length = column) (hrow : AroundRow p q)
      (hcell : AroundItem before after r s) : AroundCell column (p ++ r) (s ++ q)

variable {pre post : Bytes}

theorem append_around (w p t q w' : Bytes) : w ++ p ++ (t ++ (q ++ w')) = w ++ ((p ++ (t ++ q)) ++ w') := by
  simp

theorem ofJson_refused {w s w' : Bytes} (hw : Json.Blank w) (hs : Json.Refuses (Json.readValue Json.maxDepth) s)
    (hw' : Json.Blank w') : ∃ e, ofJson (w ++ (s ++ w')) = .error e := by
  obtain ⟨e, he⟩ := Json.read_refused (.pad hw hs hw')
  exact ⟨_, ofJson_eq_error he⟩

/-- A table with a row that is refused is refused. -/
theorem AroundRow.refused (h : AroundRow pre post) {t : Bytes} (ht : IsJson t)
    (hrefuses : Json.Refuses (Json.readValue 126) t) : ∃ e, ofJson (pre ++ (t ++ post)) = .error e := by
  cases h with
  | array hw h hw' =>
    rw [append_around]
    exact ofJson_refused hw (Json.refuses_array IsJson.startsValue (IsJson.spelled_or_refused 126) (h t ht)
      ⟨t, List.mem_append_right _ List.mem_cons_self, hrefuses⟩) hw'
  | object hw h hw' =>
    rw [append_around]
    exact ofJson_refused hw (Json.refuses_object (IsJson.spelled_or_refused 126) (h t ht)
      ⟨_, List.mem_append_right _ List.mem_cons_self, hrefuses⟩) hw'

/-- Either a table is refused whatever row is put at a place, or its rows are those of values that differ only as
far as the values that are put there. -/
theorem AroundRow.ofJson_cases (h : AroundRow pre post) :
    (∃ values : Value → List Value,
        (∀ t v, IsJson t → Spells 126 v t →
          ofJson (pre ++ (t ++ post)) = .ok ((values v).mapIdx rowOfValue)) ∧
        ∀ R : Value → Value → Prop, (∀ u, R u u) → ∀ v v', R v v' → List.Forall₂ R (values v) (values v')) ∨
      ∀ t, IsJson t → ∃ e, ofJson (pre ++ (t ++ post)) = .error e := by
  cases h with
  | array hw h hw' =>
    simp only [append_around]
    rcases h.spells_or_refuses 126 with ⟨vs, ws, -, hspells⟩ | hrefuses
    · refine .inl ⟨fun v => vs ++ v :: ws, fun t v ht hv => ?_, fun R hrefl v v' hv => ?_⟩
      · exact ofJson_eq (Json.read_spelled (.text hw (hspells t v ht hv) hw')) rfl
      · exact List.rel_append (List.forall₂_same.mpr fun u _ => hrefl u)
          (.cons hv (List.forall₂_same.mpr fun u _ => hrefl u))
    · exact .inr fun t ht => ofJson_refused hw (hrefuses t ht) hw'
  | @object _ _ key _ _ _ _ hw h hw' =>
    simp only [append_around]
    rcases h.spells_or_refuses 126 with ⟨ms, ns, hspells⟩ | hrefuses
    · refine .inl ⟨fun v => (Value.putMembers [] (ms ++ (key, v) :: ns)).map Prod.snd, fun t v ht hv => ?_,
        fun R hrefl v v' hv => ?_⟩
      · exact ofJson_eq (Json.read_spelled (.text hw (hspells t v ht hv) hw')) rfl
      · have hsame : Json.SameKeys R (ms ++ (key, v) :: ns) (ms ++ (key, v') :: ns) :=
          List.rel_append (List.forall₂_same.mpr fun m _ => ⟨rfl, hrefl m.2⟩)
            (.cons ⟨rfl, hv⟩ (List.forall₂_same.mpr fun m _ => ⟨rfl, hrefl m.2⟩))
        exact hsame.putMembers.values
    · exact .inr fun t ht => ofJson_refused hw (hrefuses t ht) hw'

/-! ## Cells -/

/-- A row with another cell in a column. -/
def Row.setCell (row : Row) (column : Nat) (cell : Cell) : Row :=
  { row with cells := row.cells.map fun cells => cells.set column cell }

/-- What stands around the cell of a column in row `i` of a table: whatever value is put there, the table has the
same rows but for that cell, which is the one of the value. -/
structure CellPlace (rows : List Row) (i column : Nat) (pre post : Bytes) : Prop where
  around : AroundCell column pre post
  filled : ∀ {t v}, Spells 125 v t →
    ofJson (pre ++ (t ++ post)) = .ok (rows.modify i fun row => row.setCell column (cellOfValue v))

theorem values_of_ofJson {input : Bytes} {rows : List Row} (h : ofJson input = .ok rows) :
    ∃ document values, Json.SpellsText document input ∧ rowValues document = .ok values ∧
      rows = values.mapIdx rowOfValue := by
  obtain ⟨document, hread, h⟩ := Outcome.bind_eq_ok_iff.mp h
  obtain ⟨values, hvalues, h⟩ := Outcome.bind_eq_ok_iff.mp h
  cases h
  exact ⟨document, values, Json.read_eq_ok_iff.mp (Outcome.mapError_eq_ok_iff.mp hread), hvalues, rfl⟩

theorem mapIdx_set {values : List Value} {i : Nat} (v : Value) :
    (values.set i v).mapIdx rowOfValue = (values.mapIdx rowOfValue).set i (rowOfValue i v) := by
  apply List.ext_getElem
  · simp
  · intro j _ _
    by_cases h : i = j
    · subst h
      simp
    · simp [List.getElem_set_ne h]

/-- Each row of a table that is read stands at a place. -/
theorem exists_rowPlace {input : Bytes} {rows : List Row} (h : ofJson input = .ok rows) {i : Nat} {row : Row}
    (hrow : rows[i]? = some row) :
    ∃ p t q v, AroundRow p q ∧ input = p ++ (t ++ q) ∧ Spells 126 v t ∧ row = rowOfValue i v ∧
      ∀ {t' v'}, Spells 126 v' t' → ofJson (p ++ (t' ++ q)) = .ok (rows.set i (rowOfValue i v')) := by
  obtain ⟨document, values, ⟨hw, hs, hw'⟩, hvalues, rfl⟩ := values_of_ofJson h
  rw [List.getElem?_mapIdx] at hrow
  obtain ⟨v, hv, rfl⟩ := Option.map_eq_some_iff.mp hrow
  cases document with
  | array items =>
    cases hvalues
    obtain ⟨before, after, p, t, q, -, hplace, rfl, ht, hfilled⟩ := Json.exists_aroundItem hs hv
    refine ⟨_, t, _, v, .array hw hplace hw', (append_around ..).symm, ht, rfl, fun ht' => ?_⟩
    rw [append_around, ← mapIdx_set]
    exact ofJson_eq (Json.read_spelled (.text hw (hfilled _ _ ht') hw')) rfl
  | object members =>
    cases hvalues
    obtain ⟨before, key, after, p, t, q, hplace, rfl, ht, hfilled⟩ := Json.exists_aroundMember hs hv
    refine ⟨_, t, _, v, .object hw hplace hw', (append_around ..).symm, ht, rfl, fun ht' => ?_⟩
    obtain ⟨members', hmembers, hs'⟩ := hfilled _ _ ht'
    rw [append_around, ← mapIdx_set, ← hmembers]
    exact ofJson_eq (Json.read_spelled (.text hw hs' hw')) rfl
  | null | bool | number | string => cases hvalues

theorem setCell_rowOfValue (i column : Nat) (items : List Value) (v : Value) :
    (rowOfValue i (.array items)).setCell column (cellOfValue v) = rowOfValue i (.array (items.set column v)) := by
  simp [Row.setCell, rowOfValue, cellsOfValue, List.map_set]

/-- Each cell of a table that is read stands at a place. -/
theorem exists_cellPlace {input : Bytes} {rows : List Row} (h : ofJson input = .ok rows) {i : Nat} {row : Row}
    (hrow : rows[i]? = some row) {cells : List Cell} (hcells : row.cells = some cells) {column : Nat} {cell : Cell}
    (hcell : cells[column]? = some cell) :
    ∃ pre t post v, CellPlace rows i column pre post ∧ input = pre ++ (t ++ post) ∧ Spells 125 v t ∧
      cellOfValue v = cell := by
  obtain ⟨p, t, q, v, hplace, rfl, ht, rfl, hfilled⟩ := exists_rowPlace h hrow
  cases v with
  | array items =>
    cases hcells
    rw [List.getElem?_map] at hcell
    obtain ⟨v, hv, rfl⟩ := Option.map_eq_some_iff.mp hcell
    obtain ⟨before, after, r, u, s, hbefore, hitem, rfl, hu, hput⟩ := Json.exists_aroundItem ht hv
    refine ⟨_, u, _, v, ⟨.cell hbefore hplace hitem, fun {t' v'} ht' => ?_⟩, (append_around ..).symm, hu, rfl⟩
    rw [append_around, hfilled (hput _ _ ht'), List.modify_eq_set_getElem?, hrow, ← setCell_rowOfValue]
    rfl
  | null | bool | number | string | object => cases hcells

end Table

end EventScript
