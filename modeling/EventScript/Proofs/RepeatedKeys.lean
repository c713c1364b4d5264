import EventScript.Proofs.EarliestFault
import EventScript.Proofs.JsonRefusing
import EventScript.Proofs.TableFormats

/-!
# The rows of an object and of an array

An object and an array of the same values have the same rows when no key stands twice. A key that does
stands in the object once, where it stood first and with the value that stood last, so the rows of its
other values are lost and the last one moves up.

* `keys_putMembers`, `lookup_putMembers`: the keys that an object has, and the value of each.
* `ofJson_object_array`: the rows of an object by those of the array of its values.
-/

namespace EventScript.Json

open Value (putMember putMembers)

/-! ## Members -/

theorem lookup_cons_of_key {α : Type} (m : String × α) (ms : List (String × α)) (key : String) :
    (m :: ms).lookup key = if key = m.1 then some m.2 else ms.lookup key := by
  rw [List.lookup_cons]
  by_cases h : key = m.1
  · simp [h]
  · rw [beq_false_of_ne h, if_neg h]

theorem keys_putMember (key : String) (v : Value) (done : List (String × Value)) :
    (putMember key v done).map Prod.fst =
      if key ∈ done.map Prod.fst then done.map Prod.fst else done.map Prod.fst ++ [key] := by
  induction done with
  | nil => rfl
  | cons m done ih =>
    unfold putMember
    split
    next h => simp [h]
    next h =>
      rw [List.map_cons, ih]
      by_cases hmem : key ∈ done.map Prod.fst
      · have hcons : key ∈ (m :: done).map Prod.fst := List.mem_cons_of_mem _ hmem
        rw [if_pos hmem, if_pos hcons, List.map_cons]
      · have hcons : key ∉ (m :: done).map Prod.fst := fun h' =>
          (List.mem_cons.mp h').elim (Ne.symm h) hmem
        rw [if_neg hmem, if_neg hcons, List.map_cons, List.cons_append]

theorem lookup_putMember (key key' : String) (v : Value) (done : List (String × Value)) :
    (putMember key v done).lookup key' = if key' = key then some v else done.lookup key' := by
  induction done with
  | nil => exact lookup_cons_of_key (key, v) [] key'
  | cons m done ih =>
    unfold putMember
    split
    next h =>
      subst h
      rw [lookup_cons_of_key, lookup_cons_of_key]
      by_cases h : key' = m.1 <;> simp [h]
    next h =>
      rw [lookup_cons_of_key, lookup_cons_of_key, ih]
      by_cases h' : key' = m.1
      · rw [if_pos h', if_pos h', if_neg fun h'' => h (h'.symm.trans h'')]
      · rw [if_neg h', if_neg h']

theorem putMembers_append (members : List (String × Value)) (m : String × Value) :
    putMembers [] (members ++ [m]) = putMember m.1 m.2 (putMembers [] members) :=
  List.foldl_concat ..

/-- An object has its keys in the order in which they stood first. -/
theorem keys_putMembers (members : List (String × Value)) :
    (putMembers [] members).map Prod.fst = (members.map Prod.fst).eraseDups := by
  induction members using List.reverseRecOn with
  | nil => rfl
  | append_singleton members m ih =>
    rw [putMembers_append, keys_putMember, ih, List.map_append, List.eraseDups_append, List.map_singleton]
    by_cases h : m.1 ∈ members.map Prod.fst
    · rw [if_pos (List.mem_eraseDups.mpr h)]
      simp [List.removeAll, h]
    · rw [if_neg fun hmem => h (List.mem_eraseDups.mp hmem)]
      simp [List.removeAll, h, List.eraseDups_cons]

/-- An object has the value of a key that stood last. -/
theorem lookup_putMembers (members : List (String × Value)) (key : String) :
    (putMembers [] members).lookup key = members.reverse.lookup key := by
  induction members using List.reverseRecOn with
  | nil => rfl
  | append_singleton members m ih =>
    rw [putMembers_append, lookup_putMember, ih, List.reverse_append, List.reverse_singleton,
      List.singleton_append, lookup_cons_of_key]

theorem nodup_putMembers (members : List (String × Value)) :
    ((putMembers [] members).map Prod.fst).Nodup := by
  induction members using List.reverseRecOn with
  | nil => exact List.nodup_nil
  | append_singleton members m ih =>
    rw [putMembers_append, keys_putMember]
    split
    next => exact ih
    next hmem =>
      rw [List.nodup_append]
      refine ⟨ih, List.nodup_singleton _, ?_⟩
      rintro key hkey _ hm rfl
      exact hmem (List.mem_singleton.mp hm ▸ hkey)

/-- Members with keys of their own are found under their keys. -/
theorem map_lookup {α : Type} {members : List (String × α)} (h : (members.map Prod.fst).Nodup) :
    ((members.map Prod.fst).map fun key => members.lookup key) = members.map fun m => some m.2 := by
  induction members with
  | nil => rfl
  | cons m members ih =>
    rw [List.map_cons, List.nodup_cons] at h
    rw [List.map_cons, List.map_cons, List.map_cons, lookup_cons_of_key, if_pos rfl, ← ih h.2]
    congr 1
    apply List.map_congr_left
    intro key hkey
    rw [lookup_cons_of_key, if_neg]
    rintro rfl
    exact h.1 hkey

/-- The values of an object are the last ones of its keys. -/
theorem values_putMembers (members : List (String × Value)) :
    ((putMembers [] members).map fun m => some m.2) =
      (members.map Prod.fst).eraseDups.map fun key => members.reverse.lookup key := by
  rw [← map_lookup (nodup_putMembers members), keys_putMembers]
  apply List.map_congr_left
  intro key _
  exact lookup_putMembers members key

theorem lookup_map {α β : Type} (f : α → β) (members : List (String × α)) (key : String) :
    (members.map (Prod.map id f)).lookup key = (members.lookup key).map f := by
  induction members with
  | nil => rfl
  | cons m members ih =>
    rw [List.map_cons, lookup_cons_of_key, lookup_cons_of_key, ih]
    by_cases h : key = m.1 <;> simp [h]

/-- No value of an object is lost only if no key stands twice. -/
theorem nodup_of_length_putMembers {members : List (String × Value)}
    (h : (putMembers [] members).length = members.length) : (members.map Prod.fst).Nodup := by
  have hsub : (putMembers [] members).map Prod.fst ⊆ members.map Prod.fst := by
    intro key hkey
    rwa [keys_putMembers, List.mem_eraseDups] at hkey
  have hperm : ((putMembers [] members).map Prod.fst).Perm (members.map Prod.fst) := by
    apply (List.subperm_of_subset (nodup_putMembers members) hsub).perm_of_length_le
    rw [List.length_map, List.length_map, h]
  exact hperm.nodup_iff.mp (nodup_putMembers members)

/-! ## Compact texts -/

theorem encode_text (v : Value) : Utf8.encode v.text = v.chars.flatMap String.utf8EncodeChar := by
  rw [Utf8.encode, Value.text, String.toList_ofList]

/-- The compact text of an array is a text of its items. -/
theorem arrayText_text {depth : Nat} {items : List Value} (h : ∀ v ∈ items, v.Kept depth) :
    ArrayText IsJson (items.map fun v => Utf8.encode v.text) (Utf8.encode (Value.array items).text) := by
  have hopen : String.utf8EncodeChar '[' = [Ascii.bracketOpen] := rfl
  have hclose : String.utf8EncodeChar ']' = [Ascii.bracketClose] := rfl
  have hitems : Listed (fun v t => t = Utf8.encode v.text ∧ IsJson t) items
      ((itemsChars items).flatMap String.utf8EncodeChar) := by
    apply listed_itemsChars
    intro v hv
    exact ⟨(encode_text v).symm, depth, isValue_of_spells (spells_chars (h v hv))⟩
  have htexts : Listed (ItemText IsJson) (items.map fun v => Utf8.encode v.text)
      ((itemsChars items).flatMap String.utf8EncodeChar) := by
    apply hitems.map
    rintro v _ _ ⟨rfl, hjson⟩
    exact .text hjson
  rw [encode_text]
  simp only [Value.chars, List.flatMap_append, List.flatMap_cons, List.flatMap_nil, hopen, hclose]
  exact .items htexts

/-- The compact text of an object is a text of its members, even where a key stands twice. -/
theorem objectText_text {depth : Nat} {members : List (String × Value)}
    (h : ∀ m ∈ members, m.2.Kept depth) :
    ObjectText IsJson (members.map (Prod.map id fun v => Utf8.encode v.text))
      (Utf8.encode (Value.object members).text) := by
  have hopen : String.utf8EncodeChar '\x7b' = [Ascii.braceOpen] := rfl
  have hclose : String.utf8EncodeChar '\x7d' = [Ascii.braceClose] := rfl
  have hmembers : Listed (SpellsMember fun v t => t = Utf8.encode v.text ∧ IsJson t) members
      ((membersChars members).flatMap String.utf8EncodeChar) := by
    apply listed_membersChars
    intro m hm
    exact ⟨(encode_text m.2).symm, depth, isValue_of_spells (spells_chars (h m hm))⟩
  have htexts : Listed (MemberText IsJson) (members.map (Prod.map id fun v => Utf8.encode v.text))
      ((membersChars members).flatMap String.utf8EncodeChar) := by
    apply hmembers.map
    rintro _ _ _ ⟨hkey, hw, hw', rfl, hjson⟩
    exact .pair hkey hw hw' hjson
  rw [encode_text]
  simp only [Value.chars, List.flatMap_append, List.flatMap_cons, List.flatMap_nil, hopen, hclose]
  exact .members htexts

end EventScript.Json

namespace EventScript.Table

open Json (Value IsJson Padded ArrayText ObjectText)

/-! ## Rows -/

/-- What an object leaves of the rows of its values: for each key, where it stood first, the row of the
value that stood last, under a number that counts what is left. -/
structure LastOfEach (keys : List String) (rows left : List Row) : Prop where
  numbered : left.map Row.index = List.range' 1 keys.eraseDups.length
  unlined : ∀ r ∈ left, r.line = none
  cells : (left.map fun r => some r.cells) =
    keys.eraseDups.map fun key => (keys.zip (rows.map Row.cells)).reverse.lookup key

theorem index_rowOfValue (values : List Value) :
    (values.mapIdx rowOfValue).map Row.index = List.range' 1 values.length :=
  index_mapIdx (fun _ _ => rfl) values

theorem line_rowOfValue {values : List Value} : ∀ r ∈ values.mapIdx rowOfValue, r.line = none := by
  intro r hr
  obtain ⟨i, hi, rfl⟩ := List.mem_mapIdx.mp hr
  rfl

theorem cells_rowOfValue (values : List Value) :
    (values.mapIdx rowOfValue).map Row.cells = values.map cellsOfValue := by
  apply List.ext_getElem
  · simp
  · intro i _ _
    simp [rowOfValue]

theorem lastOfEach (members : List (String × Value)) :
    LastOfEach (members.map Prod.fst) ((members.map Prod.snd).mapIdx rowOfValue)
      (((Value.putMembers [] members).map Prod.snd).mapIdx rowOfValue) where
  numbered := by
    rw [index_rowOfValue, ← Json.keys_putMembers, List.length_map, List.length_map]
  unlined := line_rowOfValue
  cells := by
    have hzip : (members.map Prod.fst).zip ((members.map Prod.snd).map cellsOfValue) =
        members.map (Prod.map id cellsOfValue) := by
      rw [List.map_map, List.zip_map']
      rfl
    have hcells : ((((Value.putMembers [] members).map Prod.snd).mapIdx rowOfValue).map
          fun r => some r.cells) =
        ((Value.putMembers [] members).map fun m => some m.2).map (Option.map cellsOfValue) := by
      have hmap := congrArg (List.map some) (cells_rowOfValue ((Value.putMembers [] members).map Prod.snd))
      rw [List.map_map, List.map_map, List.map_map] at hmap
      rw [List.map_map]
      exact hmap
    rw [hcells, Json.values_putMembers, cells_rowOfValue, hzip, List.map_map]
    apply List.map_congr_left
    intro key _
    rw [← List.map_reverse, Json.lookup_map]
    rfl

/-- The rows are the same only if as many are left, and so only if no key stands twice. -/
theorem left_eq_iff (members : List (String × Value)) :
    ((Value.putMembers [] members).map Prod.snd).mapIdx rowOfValue =
        (members.map Prod.snd).mapIdx rowOfValue ↔ (members.map Prod.fst).Nodup := by
  constructor
  · intro h
    have hlength := congrArg List.length h
    simp only [List.length_mapIdx, List.length_map] at hlength
    exact Json.nodup_of_length_putMembers hlength
  · intro h
    rw [Json.putMembers_eq h]

theorem ofJson_eq_error {input : Bytes} {e : Json.SyntaxError} (h : Json.read input = .error e) :
    ofJson input = .error (.json e) := by
  rw [ofJson, h]
  rfl

/-- **An object keeps the last row of each key.** Take an object and the array of the values of its members,
written in any way, with any keys, any values and any white space. Either no rows are read from the one nor from
the other; or the array has a row for each member, and the object has, for each key where it stood first, the
row that the array has for the last member with that key. The rows are the same just when no key stands
twice. -/
theorem ofJson_object_array {members : List (String × Bytes)} {object array : Bytes}
    (hobject : Padded (ObjectText IsJson members) object)
    (harray : Padded (ArrayText IsJson (members.map Prod.snd)) array) :
    (∃ e e', ofJson object = .error (.json e) ∧ ofJson array = .error (.json e')) ∨
      ∃ rows left, ofJson array = .ok rows ∧ ofJson object = .ok left ∧ rows.length = members.length ∧
        LastOfEach (members.map Prod.fst) rows left ∧ (left = rows ↔ (members.map Prod.fst).Nodup) := by
  rcases Json.refused_or_spelled fun t ht => (harray.forall_value t ht).spelled_or_refused 126 with
    hbad | ⟨f, hf⟩
  · left
    have hsome : ∃ m ∈ members, Json.Refuses (Json.readValue 126) m.2 := by
      obtain ⟨_, hmem, hrefuses⟩ := hbad
      obtain ⟨m, hm, rfl⟩ := List.mem_map.mp hmem
      exact ⟨m, hm, hrefuses⟩
    obtain ⟨e, he⟩ := Json.read_object_refused hobject hsome
    obtain ⟨e', he'⟩ := Json.read_array_refused harray hbad
    exact ⟨e, e', ofJson_eq_error he, ofJson_eq_error he'⟩
  · right
    have hdocument := Json.read_object hobject (List.forall_mem_map.mp hf)
    have hvalues := Json.read_array harray hf
    have hkeys : (members.map (Prod.map id f)).map Prod.fst = members.map Prod.fst := by
      rw [List.map_map]
      rfl
    have hitems : (members.map (Prod.map id f)).map Prod.snd = (members.map Prod.snd).map f := by
      rw [List.map_map, List.map_map]
      rfl
    refine ⟨_, _, ofJson_eq hvalues rfl, ofJson_eq hdocument rfl, by simp, ?_, ?_⟩
    · rw [← hkeys, ← hitems]
      exact lastOfEach _
    · rw [← hkeys, ← hitems]
      exact left_eq_iff _

/-- Three members, the first and the last of one key. -/
def twice : List (String × Value) :=
  [("a", textArray ["0", "s", "", "", "x", ""]), ("b", textArray ["1", "s", "", "", "y", ""]),
    ("a", textArray ["2", "s", "", "", "z", ""])]

theorem kept_twice : ∀ m ∈ twice, m.2.Kept 1 := by
  simp [twice, textArray, Value.Kept]

/-- The compact text of the object of `twice`. -/
def twiceObject : Bytes :=
  Utf8.encode ("\x7b\"a\":[\"0\",\"s\",\"\",\"\",\"x\",\"\"]," ++
    "\"b\":[\"1\",\"s\",\"\",\"\",\"y\",\"\"],\"a\":[\"2\",\"s\",\"\",\"\",\"z\",\"\"]\x7d")

/-- The compact text of the array of the values of `twice`. -/
def twiceArray : Bytes :=
  Utf8.encode ("[[\"0\",\"s\",\"\",\"\",\"x\",\"\"],[\"1\",\"s\",\"\",\"\",\"y\",\"\"]," ++
    "[\"2\",\"s\",\"\",\"\",\"z\",\"\"]]")

theorem objectText_twice :
    Padded (ObjectText IsJson (twice.map (Prod.map id fun v => Utf8.encode v.text))) twiceObject := by
  have htext : Utf8.encode (Value.object twice).text = twiceObject := rfl
  have hpad := Padded.pad Json.blank_nil (Json.objectText_text kept_twice) Json.blank_nil
  rwa [List.nil_append, List.append_nil, htext] at hpad

theorem arrayText_twice :
    Padded (ArrayText IsJson ((twice.map (Prod.map id fun v => Utf8.encode v.text)).map Prod.snd))
      twiceArray := by
  have htext : Utf8.encode (Value.array (twice.map Prod.snd)).text = twiceArray := rfl
  have hpad := Padded.pad Json.blank_nil
    (Json.arrayText_text (List.forall_mem_map.mpr kept_twice)) Json.blank_nil
  rwa [List.nil_append, List.append_nil, htext, List.map_map] at hpad

theorem length_twiceArray : (ofJson twiceArray).map List.length = .ok 3 := by
  cbv

/-- The first of three rows is lost, and the last one stands before the second. -/
theorem ofJson_object_array_twice :
    ∃ rows left, ofJson twiceArray = .ok rows ∧ ofJson twiceObject = .ok left ∧ rows.length = 3 ∧
      LastOfEach ["a", "b", "a"] rows left ∧ left ≠ rows := by
  rcases ofJson_object_array objectText_twice arrayText_twice with
    ⟨e, e', -, harray⟩ | ⟨rows, left, harray, hobject, hlength, hlast, hsame⟩
  · have hread := length_twiceArray
    rw [harray] at hread
    cases hread
  · exact ⟨rows, left, harray, hobject, hlength, hlast, fun h => absurd (hsame.mp h) (by decide)⟩

/-- An object and the array of its values, as texts, with rows of a different number. -/
theorem ofJson_object_ne_array :
    Padded (ObjectText IsJson (twice.map (Prod.map id fun v => Utf8.encode v.text))) twiceObject ∧
      Padded (ArrayText IsJson ((twice.map (Prod.map id fun v => Utf8.encode v.text)).map Prod.snd))
        twiceArray ∧
      (ofJson twiceObject).map List.length = .ok 2 ∧ (ofJson twiceArray).map List.length = .ok 3 :=
  ⟨objectText_twice, arrayText_twice, by cbv, length_twiceArray⟩

end EventScript.Table
