import EventScript.Proofs.JsonReading

/-!
# Every text of a value is read or refused whole

JSON bounds neither the size of a number nor how deep values nest; the reader bounds both. What it does not
read because of these bounds it refuses whatever comes after it, and with it every array and object that it
is in. So of an array or an object nothing is read unless all of it is.

* `spelled_or_refused`: a text of a value spells one that is read, or is refused.
* `refuses_array`, `refuses_object`: a list with something refused in it is refused.
* `isValue_of_spells`: what is read is a text of a value.
* `read_refused`: a text whose value is refused is not read.
-/

namespace EventScript.Json

/-- A reader refuses a text, whatever comes after it. -/
def Refuses (item : ValueReader) (s : Bytes) : Prop :=
  ∀ ⦃w rest : Bytes⦄, Blank w → EndsNumber rest → ∃ stop, item (w ++ (s ++ rest)) = .error stop

/-! ## Lists -/

/-- A loop that takes one thing and what stands around it at a time fails on a list with something bad in it,
if it fails on what is bad and goes on after what is not. `fails done s` says that the loop, from what is
done, fails on `s`. -/
theorem Separated.fails {α β : Type} {spells : α → Bytes → Prop} {close : UInt8} {rest : Bytes}
    (first : β → Bool) (bad : α → Prop) (fails : β → Bytes → Prop)
    (hclose : Ascii.digit? close = none ∧ close ≠ Ascii.dot ∧ close ≠ 0x65 ∧ close ≠ 0x45)
    (hstep : ∀ {done : β} {a : α} {s w t u : Bytes}, Enters (first done) s (w ++ (t ++ u)) → Blank w →
      spells a t → EndsNumber u → (¬ bad a → ∀ done', first done' = false → fails done' u) → fails done s)
    {as : List α} {s : Bytes} (h : Separated spells as s) (hsome : ∃ a ∈ as, bad a) (done : β) {t : Bytes}
    (ht : Enters (first done) t (s ++ close :: rest)) : fails done t := by
  induction h generalizing done t with
  | @last a w s w' hw h hw' =>
    simp only [List.append_assoc] at ht
    have hends : EndsNumber (w' ++ close :: rest) := endsNumber_append hw' (endsNumber_cons hclose _)
    refine hstep ht hw h hends fun ha => absurd ?_ ha
    simpa using hsome
  | @comma a as w s w' u hw h hw' _ ih =>
    simp only [List.append_assoc, List.cons_append] at ht
    have hends : EndsNumber (w' ++ Ascii.comma :: (u ++ close :: rest)) :=
      endsNumber_append hw' (endsNumber_cons ⟨rfl, by decide, by decide, by decide⟩ _)
    refine hstep ht hw h hends fun ha done' hfirst => ?_
    have hlater : ∃ a ∈ as, bad a := by
      obtain ⟨a', ha', hbad⟩ := hsome
      rcases List.mem_cons.mp ha' with rfl | ha'
      · exact absurd hbad ha
      · exact ⟨a', ha', hbad⟩
    apply ih hlater done'
    rw [Enters, hfirst]
    exact skipBlank_append hw' rfl _

variable {item : ValueReader} {spells : Value → Bytes → Prop} {value : Bytes → Prop}

theorem readItems_refused (hitem : ReadsAll item spells) (hstart : ∀ {t}, value t → StartsValue t)
    (hvalue : ∀ {t}, value t → (∃ v, spells v t) ∨ Refuses item t) {items : List Bytes} {s : Bytes}
    (h : Listed (ItemText value) items s) (hbad : ∃ t ∈ items, Refuses item t) (rest : Bytes) {limit : Nat}
    (hlimit : (s ++ Ascii.bracketClose :: rest).length ≤ limit) :
    ∃ stop, readItems item [] (s ++ Ascii.bracketClose :: rest) hlimit = .error stop := by
  cases h with
  | empty => simp at hbad
  | items hs =>
    refine hs.fails List.isEmpty (Refuses item)
      (fun done s => ∀ h : s.length ≤ limit, ∃ stop, readItems item done s h = .error stop)
      ⟨rfl, by decide, by decide, by decide⟩ ?_ hbad [] rfl hlimit
    intro done a s w t u henters hw ht hu hrest hlimit
    cases ht with
    | text ht =>
      obtain ⟨b, t', rfl, hblank, hb⟩ := hstart ht
      rw [List.cons_append] at henters
      obtain ⟨_, hnext⟩ := nextItem_element hw henters hblank hb
      rw [readItems, hnext]
      by_cases hrefuses : Refuses item (b :: t')
      · have hstop : ∃ stop, item (b :: (t' ++ u)) = .error stop := hrefuses (w := []) blank_nil hu
        obtain ⟨stop, hstop⟩ := hstop
        exact ⟨stop, by simp only [hstop]⟩
      · obtain ⟨v, hv⟩ := (hvalue ht).resolve_right hrefuses
        have hgives : Gives (item (b :: (t' ++ u))) v u := hitem (w := []) hv blank_nil hu
        obtain ⟨_, hgives⟩ := hgives
        simp only [hgives]
        exact hrest hrefuses (v :: done) rfl _

theorem readMembers_refused (hitem : ReadsAll item spells)
    (hvalue : ∀ {t}, value t → (∃ v, spells v t) ∨ Refuses item t) {members : List (String × Bytes)}
    {s : Bytes} (h : Listed (MemberText value) members s) (hbad : ∃ m ∈ members, Refuses item m.2)
    (rest : Bytes) {limit : Nat} (hlimit : (s ++ Ascii.braceClose :: rest).length ≤ limit) :
    ∃ stop, readMembers item [] (s ++ Ascii.braceClose :: rest) hlimit = .error stop := by
  cases h with
  | empty => simp at hbad
  | items hs =>
    refine hs.fails List.isEmpty (fun m => Refuses item m.2)
      (fun done s => ∀ h : s.length ≤ limit, ∃ stop, readMembers item done s h = .error stop)
      ⟨rfl, by decide, by decide, by decide⟩ ?_ hbad [] rfl hlimit
    intro done m s w t u henters hw ht hu hrest hlimit
    cases ht with
    | @pair key s₁ w₁ w₂ t hkey hw₁ hw₂ ht =>
      cases hkey with
      | quoted hbody =>
        simp only [List.cons_append, List.append_assoc, List.nil_append] at henters
        obtain ⟨_, hnext⟩ := nextMember_element hw henters
        obtain ⟨_, hstring⟩ := readString_append hbody (w₁ ++ Ascii.colon :: (w₂ ++ (t ++ u)))
        obtain ⟨_, hcolon⟩ := readColon_append hw₁ (w₂ ++ (t ++ u))
        rw [readMembers, hnext]
        simp only [hstring, hcolon]
        by_cases hrefuses : Refuses item t
        · obtain ⟨stop, hstop⟩ := hrefuses hw₂ hu
          exact ⟨stop, by simp only [hstop]⟩
        · obtain ⟨v, hv⟩ := (hvalue ht).resolve_right hrefuses
          obtain ⟨_, hgives⟩ := hitem hv hw₂ hu
          simp only [hgives]
          exact hrest hrefuses _ (isEmpty_putMember key v done) _

/-! ## Numbers and nesting -/

/-- A literal whose number would be infinite is refused. -/
theorem refuses_literal {depth : Nat} {l : Literal} {unread : Nat} {s : Bytes} (h : SpellsLiteral l s)
    (hl : l.number = .error unread) : Refuses (readValue depth) s := by
  intro w rest hw hrest
  obtain ⟨t, le, ht, hvalue⟩ := readValue_literal h hw rest
  obtain ⟨_, hread⟩ := readUnsigned_append ht hrest
  rw [hvalue]
  simp only [readNumber, hread, hl]
  exact ⟨_, rfl⟩

/-- Where nothing may nest any more, arrays and objects are refused. -/
theorem refuses_deep {b : UInt8} (hb : b = Ascii.bracketOpen ∨ b = Ascii.braceOpen) (s : Bytes) :
    Refuses (readValue 0) (b :: s) := by
  intro w rest hw _
  have hblank : isBlank b = false := by rcases hb with rfl | rfl <;> rfl
  have hskip := skipBlank_append hw hblank (s ++ rest)
  unfold readValue
  split
  next hnil => cases hskip.symm.trans hnil
  next heq =>
    cases hskip.symm.trans heq
    rcases hb with rfl | rfl <;> exact ⟨_, rfl⟩

/-- An array with an item that is refused is refused. -/
theorem refuses_array {depth : Nat} (hstart : ∀ {t}, value t → StartsValue t)
    (hvalue : ∀ {t}, value t → (∃ v, Spells depth v t) ∨ Refuses (readValue depth) t) {items : List Bytes}
    {s : Bytes} (h : ArrayText value items s) (hbad : ∃ t ∈ items, Refuses (readValue depth) t) :
    Refuses (readValue (depth + 1)) s := by
  intro w rest hw _
  cases h with
  | @items body h =>
    have hskip := skipBlank_append (b := Ascii.bracketOpen) hw rfl (body ++ Ascii.bracketClose :: rest)
    obtain ⟨stop, hstop⟩ := readItems_refused (readValue_append depth) hstart hvalue h hbad rest
      (Nat.le_of_lt (length_of_skipBlank hskip))
    rw [List.cons_append, List.append_assoc, List.singleton_append, readValue_bracketOpen depth hskip, hstop]
    exact ⟨stop, rfl⟩

/-- An object with a value that is refused is refused. -/
theorem refuses_object {depth : Nat}
    (hvalue : ∀ {t}, value t → (∃ v, Spells depth v t) ∨ Refuses (readValue depth) t)
    {members : List (String × Bytes)} {s : Bytes} (h : ObjectText value members s)
    (hbad : ∃ m ∈ members, Refuses (readValue depth) m.2) : Refuses (readValue (depth + 1)) s := by
  intro w rest hw _
  cases h with
  | @members body h =>
    have hskip := skipBlank_append (b := Ascii.braceOpen) hw rfl (body ++ Ascii.braceClose :: rest)
    obtain ⟨stop, hstop⟩ := readMembers_refused (readValue_append depth) hvalue h hbad rest
      (Nat.le_of_lt (length_of_skipBlank hskip))
    rw [List.cons_append, List.append_assoc, List.singleton_append, readValue_braceOpen depth hskip, hstop]
    exact ⟨stop, rfl⟩

/-! ## Values -/

theorem startsValue_of_isScalar {s : Bytes} (h : IsScalar s) : StartsValue s := by
  cases h with
  | null => exact ⟨_, _, rfl, rfl, by decide⟩
  | true => exact ⟨_, _, rfl, rfl, by decide⟩
  | false => exact ⟨_, _, rfl, rfl, by decide⟩
  | number h => exact h.startsValue
  | string h => exact startsValue_scalar (.string h)

theorem startsValue_of_isValue {depth : Nat} {s : Bytes} (h : IsValue depth s) : StartsValue s := by
  cases depth with
  | zero => exact startsValue_of_isScalar h
  | succ depth =>
    rcases h with h | ⟨_, ⟨_⟩⟩ | ⟨_, ⟨_⟩⟩
    · exact startsValue_of_isScalar h
    · exact ⟨_, _, rfl, rfl, by decide⟩
    · exact ⟨_, _, rfl, rfl, by decide⟩

/-- Things listed in one way are listed in another, if each is spelled in the other way. -/
theorem Listed.forall₂ {α β : Type} {p : α → Bytes → Prop} {q : β → Bytes → Prop} {as : List α} {bs : List β}
    {s : Bytes} (h : Listed p as s) (hpq : List.Forall₂ (fun a b => ∀ s, p a s → q b s) as bs) :
    Listed q bs s := by
  cases h with
  | empty hw =>
    cases hpq
    exact .empty hw
  | items hs =>
    refine .items ?_
    induction hs generalizing bs with
    | last hw h hw' =>
      obtain _ | ⟨hab, hnil⟩ := hpq
      cases hnil
      exact .last hw (hab _ h) hw'
    | comma hw h hw' _ ih =>
      obtain _ | ⟨hab, hmore⟩ := hpq
      exact .comma hw (hab _ h) hw' (ih hmore)

theorem forall₂_map {α β : Type} {R : α → β → Prop} {f : α → β} {as : List α} (h : ∀ a ∈ as, R a (f a)) :
    List.Forall₂ R as (as.map f) :=
  List.forall₂_map_right_iff.mpr (List.forall₂_same.mpr h)

theorem Listed.map {α β : Type} {p : α → Bytes → Prop} {q : β → Bytes → Prop} {f : α → β} {as : List α}
    {s : Bytes} (h : Listed p as s) (hf : ∀ a ∈ as, ∀ s, p a s → q (f a) s) : Listed q (as.map f) s :=
  h.forall₂ (forall₂_map hf)

/-- Every item of an array is a value. -/
theorem ArrayText.forall_value {items : List Bytes} {s : Bytes} (h : ArrayText value items s) :
    ∀ t ∈ items, value t := by
  obtain ⟨h⟩ := h
  cases h with
  | empty => simp
  | items hs =>
    induction hs with
    | last _ h =>
      obtain ⟨ht⟩ := h
      simpa using ht
    | comma _ h _ _ ih =>
      obtain ⟨ht⟩ := h
      exact List.forall_mem_cons.mpr ⟨ht, ih⟩

/-- Every member of an object has a value. -/
theorem ObjectText.forall_value {members : List (String × Bytes)} {s : Bytes} (h : ObjectText value members s) :
    ∀ m ∈ members, value m.2 := by
  obtain ⟨h⟩ := h
  cases h with
  | empty => simp
  | items hs =>
    induction hs with
    | last _ h =>
      obtain ⟨-, -, -, ht⟩ := h
      simpa using ht
    | comma _ h _ _ ih =>
      obtain ⟨-, -, -, ht⟩ := h
      exact List.forall_mem_cons.mpr ⟨ht, ih⟩

/-- An array whose items are read is read as the array of them. -/
theorem ArrayText.spells_forall₂ {depth : Nat} {items : List Bytes} {vs : List Value} {s : Bytes}
    (h : ArrayText value items s) (hvs : List.Forall₂ (fun t v => Spells depth v t) items vs) :
    Spells (depth + 1) (.array vs) s := by
  obtain ⟨h⟩ := h
  refine .inr (.array (h.forall₂ (hvs.imp ?_)))
  rintro t v hv _ ⟨-⟩
  exact hv

theorem ArrayText.spells_map {depth : Nat} {items : List Bytes} {s : Bytes} {f : Bytes → Value}
    (h : ArrayText value items s) (hf : ∀ t ∈ items, Spells depth (f t) t) :
    Spells (depth + 1) (.array (items.map f)) s :=
  h.spells_forall₂ (forall₂_map hf)

/-- An object whose values are read is read as the object that its members make. -/
theorem ObjectText.spells_forall₂ {depth : Nat} {members : List (String × Bytes)} {ms : List (String × Value)}
    {s : Bytes} (h : ObjectText value members s)
    (hms : List.Forall₂ (fun m m' => m'.1 = m.1 ∧ Spells depth m'.2 m.2) members ms) :
    Spells (depth + 1) (.object (Value.putMembers [] ms)) s := by
  obtain ⟨h⟩ := h
  refine .inr (.object (h.forall₂ (hms.imp ?_)))
  rintro _ ⟨_, v⟩ ⟨rfl, hv⟩ _ ⟨hkey, hw, hw', -⟩
  exact .pair hkey hw hw' hv

theorem ObjectText.spells_map {depth : Nat} {members : List (String × Bytes)} {s : Bytes} {f : Bytes → Value}
    (h : ObjectText value members s) (hf : ∀ m ∈ members, Spells depth (f m.2) m.2) :
    Spells (depth + 1) (.object (Value.putMembers [] (members.map (Prod.map id f)))) s :=
  h.spells_forall₂ (forall₂_map fun m hm => ⟨rfl, hf m hm⟩)

/-- Of texts that are each read or refused, one is refused or all are read. -/
theorem refused_or_spelled {depth : Nat} {ts : List Bytes}
    (h : ∀ t ∈ ts, (∃ v, Spells depth v t) ∨ Refuses (readValue depth) t) :
    (∃ t ∈ ts, Refuses (readValue depth) t) ∨ ∃ f : Bytes → Value, ∀ t ∈ ts, Spells depth (f t) t := by
  by_cases hbad : ∃ t ∈ ts, Refuses (readValue depth) t
  · exact .inl hbad
  have hgood : ∀ t ∈ ts, ∃ v, Spells depth v t := by
    intro t ht
    exact (h t ht).resolve_right fun hrefuses => hbad ⟨t, ht, hrefuses⟩
  have : Nonempty Value := ⟨.null⟩
  choose! f hf using hgood
  exact .inr ⟨f, hf⟩

theorem spelled_or_refused_array {depth : Nat} (hstart : ∀ {t}, value t → StartsValue t)
    (hvalue : ∀ {t}, value t → (∃ v, Spells depth v t) ∨ Refuses (readValue depth) t) {items : List Bytes}
    {s : Bytes} (h : ArrayText value items s) :
    (∃ v, Spells (depth + 1) v s) ∨ Refuses (readValue (depth + 1)) s := by
  rcases refused_or_spelled fun t ht => hvalue (h.forall_value t ht) with hbad | ⟨f, hf⟩
  · exact .inr (refuses_array hstart hvalue h hbad)
  · exact .inl ⟨_, h.spells_map hf⟩

theorem spelled_or_refused_object {depth : Nat}
    (hvalue : ∀ {t}, value t → (∃ v, Spells depth v t) ∨ Refuses (readValue depth) t)
    {members : List (String × Bytes)} {s : Bytes} (h : ObjectText value members s) :
    (∃ v, Spells (depth + 1) v s) ∨ Refuses (readValue (depth + 1)) s := by
  have hvalues : ∀ t ∈ members.map Prod.snd, (∃ v, Spells depth v t) ∨ Refuses (readValue depth) t :=
    List.forall_mem_map.mpr fun m hm => hvalue (h.forall_value m hm)
  rcases refused_or_spelled hvalues with hbad | ⟨f, hf⟩
  · obtain ⟨_, hmem, hrefuses⟩ := hbad
    obtain ⟨m, hm, rfl⟩ := List.mem_map.mp hmem
    exact .inr (refuses_object hvalue h ⟨m, hm, hrefuses⟩)
  · exact .inl ⟨_, h.spells_map (List.forall_mem_map.mp hf)⟩

theorem spells_of_scalar {v : Value} {s : Bytes} (depth : Nat) (h : SpellsScalar v s) :
    Spells depth v s := by
  cases depth with
  | zero => exact h
  | succ depth => exact .inl h

theorem spelled_or_refused_scalar (depth : Nat) {s : Bytes} (h : IsScalar s) :
    (∃ v, Spells depth v s) ∨ Refuses (readValue depth) s := by
  cases h with
  | null => exact .inl ⟨_, spells_of_scalar depth .null⟩
  | true => exact .inl ⟨_, spells_of_scalar depth .true⟩
  | false => exact .inl ⟨_, spells_of_scalar depth .false⟩
  | string h => exact .inl ⟨_, spells_of_scalar depth (.string h)⟩
  | @number l _ h =>
    cases hl : l.number with
    | ok n => exact .inl ⟨_, spells_of_scalar depth (.number h hl)⟩
    | error unread => exact .inr (refuses_literal h hl)

/-- A text of a value spells one that is read, or is refused. -/
theorem spelled_or_refused {size : Nat} (depth : Nat) {s : Bytes} (h : IsValue size s) :
    (∃ v, Spells depth v s) ∨ Refuses (readValue depth) s := by
  induction size generalizing depth s with
  | zero => exact spelled_or_refused_scalar depth h
  | succ size ih =>
    rcases h with h | ⟨items, h⟩ | ⟨members, h⟩
    · exact spelled_or_refused_scalar depth h
    · cases depth with
      | zero =>
        cases h
        exact .inr (refuses_deep (.inl rfl) _)
      | succ depth => exact spelled_or_refused_array startsValue_of_isValue (ih depth) h
    · cases depth with
      | zero =>
        cases h
        exact .inr (refuses_deep (.inr rfl) _)
      | succ depth => exact spelled_or_refused_object (ih depth) h

theorem IsJson.startsValue {s : Bytes} (h : IsJson s) : StartsValue s := by
  obtain ⟨size, h⟩ := h
  exact startsValue_of_isValue h

theorem IsJson.spelled_or_refused (depth : Nat) {s : Bytes} (h : IsJson s) :
    (∃ v, Spells depth v s) ∨ Refuses (readValue depth) s := by
  obtain ⟨size, h⟩ := h
  exact Json.spelled_or_refused depth h

/-- Things listed in one way are listed in another, as things that they are related to. -/
theorem Listed.exists_forall₂ {α β : Type} {p : α → Bytes → Prop} {q : β → Bytes → Prop} {R : α → β → Prop}
    {as : List α} {s : Bytes} (h : Listed p as s) (hpq : ∀ {a s}, p a s → ∃ b, q b s ∧ R a b) :
    ∃ bs, Listed q bs s ∧ List.Forall₂ R as bs := by
  cases h with
  | empty hw => exact ⟨[], .empty hw, .nil⟩
  | items hs =>
    have hseparated : ∃ bs, Separated q bs s ∧ List.Forall₂ R as bs := by
      induction hs with
      | last hw h hw' =>
        obtain ⟨b, hb, hab⟩ := hpq h
        exact ⟨_, .last hw hb hw', .cons hab .nil⟩
      | comma hw h hw' _ ih =>
        obtain ⟨b, hb, hab⟩ := hpq h
        obtain ⟨bs, hbs, habs⟩ := ih
        exact ⟨_, .comma hw hb hw' hbs, .cons hab habs⟩
    obtain ⟨bs, hbs, habs⟩ := hseparated
    exact ⟨bs, .items hbs, habs⟩

theorem isScalar_of_spells {v : Value} {s : Bytes} (h : SpellsScalar v s) : IsScalar s := by
  cases h with
  | null => exact .null
  | true => exact .true
  | false => exact .false
  | number h => exact .number h
  | string h => exact .string h

/-- An array that is read has a text for each item. -/
theorem exists_arrayText {depth : Nat} (hvalue : ∀ {v t}, Spells depth v t → value t) {vs : List Value} {s : Bytes}
    (h : Spells (depth + 1) (.array vs) s) :
    ∃ ts, ArrayText value ts s ∧ List.Forall₂ (fun t v => Spells depth v t) ts vs := by
  rcases h with h | h
  · cases h
  · cases h with
    | array h =>
      obtain ⟨ts, hts, hspells⟩ := h.exists_forall₂ fun ht => ⟨_, ItemText.text (hvalue ht), ht⟩
      exact ⟨ts, .items hts, hspells.flip⟩

/-- An object that is read is made of members, and has a text for the value of each. -/
theorem exists_objectText {depth : Nat} (hvalue : ∀ {v t}, Spells depth v t → value t)
    {members : List (String × Value)} {s : Bytes} (h : Spells (depth + 1) (.object members) s) :
    ∃ ms ts, members = Value.putMembers [] ms ∧ ObjectText value ts s ∧
      List.Forall₂ (fun m m' => m'.1 = m.1 ∧ Spells depth m'.2 m.2) ts ms := by
  rcases h with h | h
  · cases h
  · cases h with
    | object h =>
      have hmember {m : String × Value} {s : Bytes} (h : SpellsMember (Spells depth) m s) :
          ∃ m', MemberText value m' s ∧ m.1 = m'.1 ∧ Spells depth m.2 m'.2 := by
        obtain ⟨hkey, hw, hw', ht⟩ := h
        exact ⟨_, .pair hkey hw hw' (hvalue ht), rfl, ht⟩
      obtain ⟨ts, hts, hspells⟩ := h.exists_forall₂ hmember
      exact ⟨_, ts, rfl, .members hts, hspells.flip⟩

/-- The texts that are read are texts of values. -/
theorem isValue_of_spells {depth : Nat} {v : Value} {s : Bytes} (h : Spells depth v s) :
    IsValue depth s := by
  induction depth generalizing v s with
  | zero => exact isScalar_of_spells h
  | succ depth ih =>
    rcases h with h | h
    · exact .inl (isScalar_of_spells h)
    have hnested : Spells (depth + 1) v s := .inr h
    cases h with
    | array =>
      obtain ⟨ts, hts, -⟩ := exists_arrayText ih hnested
      exact .inr (.inl ⟨ts, hts⟩)
    | object =>
      obtain ⟨-, ts, -, hts, -⟩ := exists_objectText ih hnested
      exact .inr (.inr ⟨ts, hts⟩)

/-! ## Whole texts -/

/-- A text whose value is refused is not read. -/
theorem read_refused {s : Bytes} (h : Padded (Refuses (readValue maxDepth)) s) : ∃ e, read s = .error e := by
  obtain @⟨w, s, w', hw, h, hw'⟩ := h
  have hrest : EndsNumber w' := by simpa using endsNumber_append hw' endsNumber_nil
  obtain ⟨stop, hstop⟩ := h hw hrest
  simp only [read, readText, hstop]
  exact ⟨_, rfl⟩

theorem read_array {items : List Bytes} {s : Bytes} {f : Bytes → Value} (h : Padded (ArrayText IsJson items) s)
    (hf : ∀ t ∈ items, Spells 126 (f t) t) : read s = .ok (.array (items.map f)) := by
  obtain ⟨hw, h, hw'⟩ := h
  exact read_spelled (.text hw (h.spells_map hf) hw')

theorem read_array_refused {items : List Bytes} {s : Bytes} (h : Padded (ArrayText IsJson items) s)
    (hbad : ∃ t ∈ items, Refuses (readValue 126) t) : ∃ e, read s = .error e := by
  obtain ⟨hw, h, hw'⟩ := h
  exact read_refused (.pad hw (refuses_array IsJson.startsValue (IsJson.spelled_or_refused 126) h hbad) hw')

theorem read_object {members : List (String × Bytes)} {s : Bytes} {f : Bytes → Value}
    (h : Padded (ObjectText IsJson members) s) (hf : ∀ m ∈ members, Spells 126 (f m.2) m.2) :
    read s = .ok (.object (Value.putMembers [] (members.map (Prod.map id f)))) := by
  obtain ⟨hw, h, hw'⟩ := h
  exact read_spelled (.text hw (h.spells_map hf) hw')

theorem read_object_refused {members : List (String × Bytes)} {s : Bytes}
    (h : Padded (ObjectText IsJson members) s) (hbad : ∃ m ∈ members, Refuses (readValue 126) m.2) :
    ∃ e, read s = .error e := by
  obtain ⟨hw, h, hw'⟩ := h
  exact read_refused (.pad hw (refuses_object (IsJson.spelled_or_refused 126) h hbad) hw')

/-- Every item of an array is a value. -/
theorem Padded.forall_value {items : List Bytes} {s : Bytes} (h : Padded (ArrayText IsJson items) s) :
    ∀ t ∈ items, IsJson t := by
  obtain ⟨-, h, -⟩ := h
  exact h.forall_value

end EventScript.Json
