import EventScript.Proofs.JsonRefusing
import EventScript.Proofs.JsonTokensSpelled
import EventScript.Proofs.Outcome

/-!
# Whatever is read is spelled

The other half of reading: a reader takes nothing but what spells the value that it gives. The loops that read
lists take what is in front of a thing with the thing, where the grammar has what is around it; the two are one
list (`Remains.listed`).

* `readItems_spells`, `readMembers_spells`: the items of an array and the members of an object.
* `readValue_spells`: a value that nests no deeper than is allowed.
* `read_eq_ok_iff`: a text is read as a value if and only if it holds that value.
-/

namespace EventScript.Json

/-! ## Lists -/

variable {α : Type} {item : ValueReader} {spells : Value → Bytes → Prop}

/-- What is in front of a thing in a list: white space, and a comma in it unless the thing is the first. -/
inductive Lead : Bool → Bytes → Prop
  | first {w : Bytes} (hw : Blank w) : Lead true w
  | comma {w w' : Bytes} (hw : Blank w) (hw' : Blank w') : Lead false (w ++ Ascii.comma :: w')

theorem Lead.append {first : Bool} {lead w : Bytes} (h : Lead first lead) (hw : Blank w) :
    Lead first (lead ++ w) := by
  cases h with
  | first hw' => exact .first (hw'.append hw)
  | comma hw₁ hw₂ =>
    rw [List.append_assoc, List.cons_append]
    exact .comma hw₁ (hw₂.append hw)

/-- What a loop goes through that takes one thing and what is in front of it at a time. -/
inductive Remains (spells : α → Bytes → Prop) : Bool → List α → Bytes → Prop
  | none {first : Bool} {w : Bytes} (hw : Blank w) : Remains spells first [] w
  | more {first : Bool} {a : α} {as : List α} {lead s t : Bytes} (hlead : Lead first lead) (h : spells a s)
      (hmore : Remains spells false as t) : Remains spells first (a :: as) (lead ++ (s ++ t))

theorem Remains.separated {spells : α → Bytes → Prop} {as : List α} {t : Bytes} (h : Remains spells false as t)
    {a : α} {w s : Bytes} (hw : Blank w) (hs : spells a s) : Separated spells (a :: as) (w ++ (s ++ t)) := by
  generalize hfirst : false = first at h
  induction h generalizing a w s with
  | none hw' => exact .last hw hs hw'
  | more hlead h _ ih =>
    cases hlead with
    | first => cases hfirst
    | comma hw₁ hw₂ =>
      rw [List.append_assoc, List.cons_append]
      exact .comma hw hs hw₁ (ih hw₂ h rfl)

/-- What a loop goes through from the start is a list. -/
theorem Remains.listed {spells : α → Bytes → Prop} {as : List α} {s : Bytes} (h : Remains spells true as s) :
    Listed spells as s := by
  cases h with
  | none hw => exact .empty hw
  | more hlead h hmore =>
    cases hlead with
    | first hw => exact .items (hmore.separated hw h)

theorem Lead.of_comma {s t u : Bytes} (hcomma : skipBlank s = Ascii.comma :: t) (h : skipBlank t = u) :
    Begins (Lead false) s u := by
  refine (skipBlank_mark hcomma).append (h ▸ skipBlank_blanks t) ?_
  rintro _ w' ⟨w, hw, rfl⟩ hw'
  rw [List.append_assoc]
  exact .comma hw hw'

theorem nextItem_of_close {first : Bool} {s rest : Bytes} {shorter : rest.length < s.length}
    (h : nextItem first s = .ok (.close rest shorter)) :
    Begins (fun t => ∃ w, Blank w ∧ t = w ++ [Ascii.bracketClose]) s rest := by
  unfold nextItem at h
  split at h
  next => cases h
  next b rest' hs =>
    split_ifs at h with hclose hfirst hcomma
    · cases h
      exact hclose ▸ skipBlank_mark hs
    · cases h
    · split at h
      next => cases h
      next => split_ifs at h; cases h

theorem nextItem_of_element {first : Bool} {s start : Bytes} {le : start.length ≤ s.length}
    (h : nextItem first s = .ok (.element start le)) : Begins (Lead first) s start := by
  unfold nextItem at h
  split at h
  next => cases h
  next b rest' hs =>
    split_ifs at h with hclose hfirst hcomma
    · cases h
    · cases h
      exact hfirst ▸ (hs ▸ skipBlank_blanks s).imp fun w hw => .first hw
    · split at h
      next => cases h
      next c rest'' hs' =>
        split_ifs at h
        cases h
        rw [Bool.eq_false_iff.mpr hfirst]
        exact Lead.of_comma (hcomma ▸ hs) hs'

theorem nextMember_of_close {first : Bool} {s rest : Bytes} {shorter : rest.length < s.length}
    (h : nextMember first s = .ok (.close rest shorter)) :
    Begins (fun t => ∃ w, Blank w ∧ t = w ++ [Ascii.braceClose]) s rest := by
  unfold nextMember at h
  split at h
  next => cases h
  next b rest' hs =>
    split_ifs at h with hclose hfirst hquote hcomma
    · cases h
      exact hclose ▸ skipBlank_mark hs
    · cases h
    · split at h
      next => cases h
      next => split_ifs at h; cases h

theorem nextMember_of_element {first : Bool} {s start : Bytes} {le : start.length ≤ s.length}
    (h : nextMember first s = .ok (.element start le)) :
    Begins (fun t => ∃ lead, Lead first lead ∧ t = lead ++ [Ascii.quote]) s start := by
  unfold nextMember at h
  split at h
  next => cases h
  next b rest' hs =>
    split_ifs at h with hclose hfirst hquote hcomma
    · cases h
    · cases h
      refine (hquote ▸ skipBlank_mark hs).imp ?_
      rintro _ ⟨w, hw, rfl⟩
      exact ⟨w, hfirst ▸ .first hw, rfl⟩
    · split at h
      next => cases h
      next c rest'' hs' =>
        split_ifs at h with hquote
        cases h
        subst hquote
        rw [Bool.eq_false_iff.mpr hfirst]
        refine (Lead.of_comma (hcomma ▸ hs) hs').append ⟨[Ascii.quote], rfl, rfl⟩ ?_
        rintro lead _ hlead rfl
        exact ⟨lead, hlead, rfl⟩

theorem readColon_spells {s : Bytes} {r : Read s.length Unit} (h : readColon s = .ok r) :
    Begins (fun t => ∃ w, Blank w ∧ t = w ++ [Ascii.colon]) s r.rest := by
  unfold readColon at h
  split at h
  next => cases h
  next b rest hs =>
    split_ifs at h with hcolon
    cases h
    exact hcolon ▸ skipBlank_mark hs

/-- What a reader of values takes spells what it gives, after white space. -/
def TakesOnly (item : ValueReader) (spells : Value → Bytes → Prop) : Prop :=
  ∀ {s : Bytes} {r : Read s.length Value}, item s = .ok r →
    Begins (fun t => ∃ w u, Blank w ∧ spells r.value u ∧ t = w ++ u) s r.rest

theorem readItems_spells (hitem : TakesOnly item spells) {limit : Nat} {done : List Value} {s : Bytes}
    {hlimit : s.length ≤ limit} {r : Read limit (List Value)} (h : readItems item done s hlimit = .ok r) :
    ∃ items, r.value = done.reverse ++ items ∧
      Begins (fun t => ∃ u, Remains spells done.isEmpty items u ∧ t = u ++ [Ascii.bracketClose]) s r.rest := by
  induction done, s, hlimit using readItems.induct item with
  | case1 done s hlimit stop hstop =>
    rw [readItems, hstop] at h
    cases h
  | case2 done s hlimit rest shorter hnext =>
    rw [readItems, hnext] at h
    cases h
    refine ⟨[], by simp, (nextItem_of_close hnext).imp ?_⟩
    rintro _ ⟨w, hw, rfl⟩
    exact ⟨w, .none hw, rfl⟩
  | case3 done s hlimit start le hnext stop hstop =>
    rw [readItems, hnext] at h
    simp only [hstop] at h
    cases h
  | case4 done s hlimit start le hnext value rest shorter hvalue ih =>
    rw [readItems, hnext] at h
    simp only [hvalue] at h
    obtain ⟨items, hitems, hmore⟩ := ih h
    refine ⟨value :: items, by simp [hitems], (nextItem_of_element hnext).append ((hitem hvalue).both hmore) ?_⟩
    -- white space that the value's reader skips counts as what is in front of the item
    rintro lead _ hlead ⟨_, _, ⟨w, t, hw, ht, rfl⟩, ⟨u, hu, rfl⟩, rfl⟩
    exact ⟨_, .more (hlead.append hw) ht hu, by simp⟩

theorem readMembers_spells (hitem : TakesOnly item spells) {limit : Nat} {done : List (String × Value)}
    {s : Bytes} {hlimit : s.length ≤ limit} {r : Read limit (List (String × Value))}
    (h : readMembers item done s hlimit = .ok r) :
    ∃ members, r.value = Value.putMembers done members ∧
      Begins (fun t => ∃ u, Remains (SpellsMember spells) done.isEmpty members u ∧ t = u ++ [Ascii.braceClose])
        s r.rest := by
  induction done, s, hlimit using readMembers.induct item with
  | case1 done s hlimit stop hstop =>
    rw [readMembers, hstop] at h
    cases h
  | case2 done s hlimit rest shorter hnext =>
    rw [readMembers, hnext] at h
    cases h
    refine ⟨[], rfl, (nextMember_of_close hnext).imp ?_⟩
    rintro _ ⟨w, hw, rfl⟩
    exact ⟨w, .none hw, rfl⟩
  | case3 done s hlimit start le hnext stop hstop =>
    rw [readMembers, hnext] at h
    simp only [hstop] at h
    cases h
  | case4 done s hlimit start le hnext key afterKey shorter hkey stop hstop =>
    rw [readMembers, hnext] at h
    simp only [hkey, hstop] at h
    cases h
  | case5 done s hlimit start le hnext key afterKey shorter hkey afterColon shorter' hcolon stop hstop =>
    rw [readMembers, hnext] at h
    simp only [hkey, hcolon, hstop] at h
    cases h
  | case6 done s hlimit start le hnext key afterKey shorter hkey afterColon shorter' hcolon value rest shorter''
      hvalue ih =>
    rw [readMembers, hnext] at h
    simp only [hkey, hcolon, hvalue] at h
    obtain ⟨members, hmembers, hmore⟩ := ih h
    rw [isEmpty_putMember] at hmore
    refine ⟨(key, value) :: members, hmembers, ((nextMember_of_element hnext).both (readString_spells hkey)).append
      ((readColon_spells hcolon).both ((hitem hvalue).both hmore)) ?_⟩
    rintro _ _ ⟨_, t, ⟨lead, hlead, rfl⟩, ht, rfl⟩ ⟨_, _, ⟨w, hw, rfl⟩, hafter, rfl⟩
    obtain ⟨_, _, ⟨w', u, hw', hu, rfl⟩, ⟨v, hv, rfl⟩, rfl⟩ := hafter
    exact ⟨_, .more hlead (.pair ht hw hw' hu) hv, by simp⟩

/-! ## Values -/

theorem readWord_spells {v : Value} {word s : Bytes} {r : Read (s.length + 1) Value}
    (h : readWord v word s = .ok r) : r.value = v ∧ s = word ++ r.rest := by
  induction word generalizing s with
  | nil =>
    rw [readWord] at h
    cases h
    exact ⟨rfl, rfl⟩
  | cons w word ih =>
    cases s with
    | nil => cases h
    | cons b rest =>
      rw [readWord] at h
      split_ifs at h with hb
      split at h
      next => cases h
      next r' hr' =>
        cases h
        obtain ⟨hvalue, hrest⟩ := ih hr'
        exact ⟨hvalue, List.cons_eq_cons.mpr ⟨hb, hrest⟩⟩

theorem word_spells {v : Value} {b : UInt8} {word s : Bytes} {r : Read (s.length + 1) Value}
    (h : readWord v word s = .ok r) (hv : SpellsScalar v (b :: word)) :
    Begins (SpellsScalar r.value) (b :: s) r.rest := by
  obtain ⟨hvalue, hs⟩ := readWord_spells h
  exact ⟨b :: word, hvalue ▸ hv, List.cons_eq_cons.mpr ⟨rfl, hs⟩⟩

/-- A value is read from one of its texts, if the values that it nests are. -/
theorem readValue_takesOnly {depth : Nat} (hnested : ∀ d, depth = d + 1 → TakesOnly (readValue d) (Spells d)) :
    TakesOnly (readValue depth) (Spells depth) := by
  intro s r h
  have hskip := skipBlank_blanks s
  suffices hvalue : Begins (Spells depth r.value) (skipBlank s) r.rest from hskip.both hvalue
  have hscalar (ht : Begins (SpellsScalar r.value) (skipBlank s) r.rest) :
      Begins (Spells depth r.value) (skipBlank s) r.rest :=
    ht.imp fun t => spells_of_scalar depth
  unfold readValue at h
  split at h
  next => cases h
  next b rest hs =>
    rw [hs] at hscalar ⊢
    split_ifs at h with hnull htrue hfalse hminus hdigit hquote hbracket hbrace
    · obtain ⟨r', hr', rfl⟩ := Outcome.map_eq_ok_iff.mp h
      exact hscalar (word_spells hr' (hnull ▸ .null))
    · obtain ⟨r', hr', rfl⟩ := Outcome.map_eq_ok_iff.mp h
      exact hscalar (word_spells hr' (htrue ▸ .true))
    · obtain ⟨r', hr', rfl⟩ := Outcome.map_eq_ok_iff.mp h
      exact hscalar (word_spells hr' (hfalse ▸ .false))
    · subst hminus
      obtain ⟨_, hnumber, rfl⟩ := Outcome.map_eq_ok_iff.mp h
      obtain ⟨r', hr', rfl⟩ := Outcome.map_eq_ok_iff.mp hnumber
      obtain ⟨l, n, hl, hn, hvalue, ht⟩ := readNumber_spells hr'
      exact hscalar (ht.imp fun t ht => hvalue ▸ .number (.minus hl ht) hn).cons
    · obtain ⟨r', hr', rfl⟩ := Outcome.map_eq_ok_iff.mp h
      obtain ⟨l, n, hl, hn, hvalue, ht⟩ := readNumber_spells hr'
      exact hscalar (ht.imp fun t ht => hvalue ▸ .number (.plus hl ht) hn)
    · subst hquote
      obtain ⟨_, hstring, rfl⟩ := Outcome.map_eq_ok_iff.mp h
      obtain ⟨r', hr', rfl⟩ := Outcome.map_eq_ok_iff.mp hstring
      exact hscalar ((readString_spells hr').imp fun t ht => .string ht).cons
    · cases depth with
      | zero => cases h
      | succ depth =>
        subst hbracket
        obtain ⟨r', hr', rfl⟩ := Outcome.map_eq_ok_iff.mp h
        obtain ⟨items, hitems, hbegins⟩ := readItems_spells (hnested depth rfl) hr'
        have hvalue : (r'.map Value.array).value = .array items := congrArg Value.array hitems
        refine (hbegins.imp ?_).cons
        rintro _ ⟨u, hu, rfl⟩
        exact .inr (hvalue ▸ .array hu.listed)
    · cases depth with
      | zero => cases h
      | succ depth =>
        subst hbrace
        obtain ⟨r', hr', rfl⟩ := Outcome.map_eq_ok_iff.mp h
        obtain ⟨members, hmembers, hbegins⟩ := readMembers_spells (hnested depth rfl) hr'
        have hvalue : (r'.map Value.object).value = .object (Value.putMembers [] members) :=
          congrArg Value.object hmembers
        refine (hbegins.imp ?_).cons
        rintro _ ⟨u, hu, rfl⟩
        exact .inr (hvalue ▸ .object hu.listed)

/-- A value that nests no deeper than is allowed is read from one of its texts. -/
theorem readValue_spells (depth : Nat) : TakesOnly (readValue depth) (Spells depth) := by
  induction depth with
  | zero => exact readValue_takesOnly fun d h => absurd h (Nat.succ_ne_zero d).symm
  | succ depth ih =>
    refine readValue_takesOnly fun d h => ?_
    cases h
    exact ih

/-! ## Whole texts -/

/-- A text is read as a value if and only if it holds that value and nothing else. -/
theorem read_eq_ok_iff {text : Bytes} {v : Value} : read text = .ok v ↔ SpellsText v text := by
  refine ⟨fun h => ?_, read_spelled⟩
  unfold read at h
  have h := Outcome.mapError_eq_ok_iff.mp h
  unfold readText at h
  split at h
  next => cases h
  next r hr =>
    obtain ⟨_, ⟨w, t, hw, ht, rfl⟩, hs⟩ := readValue_spells maxDepth hr
    obtain ⟨w', hw', hrest⟩ := skipBlank_blanks r.rest
    split at h
    next hend =>
      cases h
      rw [hend, List.append_nil] at hrest
      rw [hrest, List.append_assoc] at hs
      -- the type of the result speaks of the text that is rewritten
      generalize r.value = v at ht ⊢
      rw [hs]
      exact .text hw ht hw'
    next => cases h

end EventScript.Json
