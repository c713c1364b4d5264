import EventScript.Proofs.JsonTokens

/-!
# Every text of a value is read as that value

Arrays and objects are read by loops that take one thing and what stands around it at a time. Both take all
of a list for the same reason, which is said once (`Separated.loop`); nesting is followed by induction on
how deep it may be.

* `readItems_append`, `readMembers_append`: the items of an array and the members of an object.
* `readValue_append`: a value that nests no deeper than is allowed.
* `read_spelled`: a text that holds one value is read as that value.
-/

namespace EventScript.Json

/-! ## Lists -/

/-- What is in front of a loop that has `first` said of it: the text of more things, after a comma unless
they are the first. -/
def Enters (first : Bool) (s more : Bytes) : Prop :=
  if first then s = more else skipBlank s = Ascii.comma :: more

/-- A loop that takes one thing and what stands around it at a time takes all of a list. `loop done s` says
that the loop, from what is done, comes to its result on `s`. -/
theorem Separated.loop {α β : Type} {spells : α → Bytes → Prop} {close : UInt8} {rest : Bytes}
    (first : β → Bool) (push : β → α → β) (loop : β → Bytes → Prop)
    (hclose : Ascii.digit? close = none ∧ close ≠ Ascii.dot ∧ close ≠ 0x65 ∧ close ≠ 0x45)
    (hfirst : ∀ done a, first (push done a) = false)
    (hstep : ∀ {done : β} {a : α} {s w t u : Bytes}, Enters (first done) s (w ++ (t ++ u)) → Blank w →
      spells a t → EndsNumber u → loop (push done a) u → loop done s)
    {as : List α} {s : Bytes} (h : Separated spells as s) (done : β) {t : Bytes}
    (ht : Enters (first done) t (s ++ close :: rest))
    (hend : ∀ w, Blank w → loop (as.foldl push done) (w ++ close :: rest)) : loop done t := by
  induction h generalizing done t with
  | @last a w s w' hw h hw' =>
    simp only [List.append_assoc] at ht
    exact hstep ht hw h (endsNumber_append hw' (endsNumber_cons hclose _)) (hend w' hw')
  | @comma a as w s w' u hw h hw' _ ih =>
    simp only [List.append_assoc, List.cons_append] at ht
    have hcomma : skipBlank (w' ++ Ascii.comma :: (u ++ close :: rest)) =
        Ascii.comma :: (u ++ close :: rest) := skipBlank_append hw' rfl _
    have henters : Enters (first (push done a)) (w' ++ Ascii.comma :: (u ++ close :: rest))
        (u ++ close :: rest) := by
      rw [Enters, hfirst]
      exact hcomma
    refine hstep ht hw h ?_ (ih _ henters hend)
    exact endsNumber_append hw' (endsNumber_cons ⟨rfl, by decide, by decide, by decide⟩ _)

theorem nextItem_close {first : Bool} {s rest : Bytes} (hs : skipBlank s = Ascii.bracketClose :: rest) :
    ∃ shorter, nextItem first s = .ok (.close rest shorter) := by
  unfold nextItem
  split
  next hnil => cases hs.symm.trans hnil
  next heq =>
    cases hs.symm.trans heq
    rw [if_pos rfl]
    exact ⟨length_of_skipBlank heq, rfl⟩

theorem nextItem_element {first : Bool} {s w rest : Bytes} {b : UInt8} (hw : Blank w)
    (hs : Enters first s (w ++ b :: rest)) (hblank : isBlank b = false) (hb : b ≠ Ascii.bracketClose) :
    ∃ le, nextItem first s = .ok (.element (b :: rest) le) := by
  have hskip := skipBlank_append hw hblank rest
  unfold nextItem
  cases first with
  | true =>
    have hs : s = w ++ b :: rest := hs
    subst hs
    split
    next hnil => cases hskip.symm.trans hnil
    next heq =>
      cases hskip.symm.trans heq
      rw [if_neg hb, if_pos rfl]
      exact ⟨length_of_skipBlank heq, rfl⟩
  | false =>
    have hs : skipBlank s = Ascii.comma :: (w ++ b :: rest) := hs
    split
    next hnil => cases hs.symm.trans hnil
    next heq =>
      cases hs.symm.trans heq
      rw [if_neg (by decide), if_neg (by decide), if_pos rfl]
      split
      next hnil => cases hskip.symm.trans hnil
      next heq' =>
        cases hskip.symm.trans heq'
        rw [if_neg hb]
        exact ⟨Nat.lt_trans (length_of_skipBlank heq') (length_of_skipBlank heq), rfl⟩

theorem nextMember_close {first : Bool} {s rest : Bytes} (hs : skipBlank s = Ascii.braceClose :: rest) :
    ∃ shorter, nextMember first s = .ok (.close rest shorter) := by
  unfold nextMember
  split
  next hnil => cases hs.symm.trans hnil
  next heq =>
    cases hs.symm.trans heq
    rw [if_pos rfl]
    exact ⟨length_of_skipBlank heq, rfl⟩

theorem nextMember_element {first : Bool} {s w rest : Bytes} (hw : Blank w)
    (hs : Enters first s (w ++ Ascii.quote :: rest)) :
    ∃ le, nextMember first s = .ok (.element rest le) := by
  have hskip : skipBlank (w ++ Ascii.quote :: rest) = Ascii.quote :: rest := skipBlank_append hw rfl rest
  unfold nextMember
  cases first with
  | true =>
    have hs : s = w ++ Ascii.quote :: rest := hs
    subst hs
    split
    next hnil => cases hskip.symm.trans hnil
    next heq =>
      cases hskip.symm.trans heq
      rw [if_neg (by decide), if_pos rfl, if_pos rfl]
      exact ⟨Nat.le_of_lt (length_of_skipBlank heq), rfl⟩
  | false =>
    have hs : skipBlank s = Ascii.comma :: (w ++ Ascii.quote :: rest) := hs
    split
    next hnil => cases hs.symm.trans hnil
    next heq =>
      cases hs.symm.trans heq
      rw [if_neg (by decide), if_neg (by decide), if_pos rfl]
      split
      next hnil => cases hskip.symm.trans hnil
      next heq' =>
        cases hskip.symm.trans heq'
        rw [if_pos rfl]
        exact ⟨Nat.le_of_lt (Nat.lt_trans (length_of_skipBlank heq') (length_of_skipBlank heq)), rfl⟩

theorem readColon_append {w : Bytes} (hw : Blank w) (rest : Bytes) :
    Gives (readColon (w ++ Ascii.colon :: rest)) () rest := by
  have hskip : skipBlank (w ++ Ascii.colon :: rest) = Ascii.colon :: rest := skipBlank_append hw rfl rest
  unfold readColon
  split
  next hnil => cases hskip.symm.trans hnil
  next heq =>
    cases hskip.symm.trans heq
    rw [if_pos rfl]
    exact gives_ok _

/-- A reader of values reads every value that is spelled in a given way. -/
def ReadsAll (item : ValueReader) (spells : Value → Bytes → Prop) : Prop :=
  ∀ {v : Value} {s w rest : Bytes}, spells v s → Blank w → EndsNumber rest →
    Gives (item (w ++ (s ++ rest))) v rest

/-- The first octet of a value is no white space and closes no array. -/
def StartsValue (s : Bytes) : Prop :=
  ∃ b t, s = b :: t ∧ isBlank b = false ∧ b ≠ Ascii.bracketClose

theorem readItems_append {item : ValueReader} {spells : Value → Bytes → Prop} (hitem : ReadsAll item spells)
    (hstart : ∀ {v s}, spells v s → StartsValue s) {items : List Value} {s : Bytes}
    (h : Listed spells items s) (rest : Bytes) {limit : Nat}
    (hlimit : (s ++ Ascii.bracketClose :: rest).length ≤ limit) :
    Gives (readItems item [] (s ++ Ascii.bracketClose :: rest) hlimit) items rest := by
  have hend (done : List Value) {w : Bytes} (hw : Blank w)
      (hlimit : (w ++ Ascii.bracketClose :: rest).length ≤ limit) :
      Gives (readItems item done (w ++ Ascii.bracketClose :: rest) hlimit) done.reverse rest := by
    have hskip : skipBlank (w ++ Ascii.bracketClose :: rest) = Ascii.bracketClose :: rest :=
      skipBlank_append hw rfl rest
    obtain ⟨_, hnext⟩ := nextItem_close hskip
    rw [readItems, hnext]
    exact gives_ok _
  cases h with
  | empty hw => exact hend [] hw hlimit
  | items hs =>
    refine hs.loop List.isEmpty (fun done v => v :: done)
      (fun done s => ∀ h : s.length ≤ limit, Gives (readItems item done s h) items rest)
      ⟨rfl, by decide, by decide, by decide⟩ (fun _ _ => rfl) ?_ [] rfl ?_ hlimit
    · intro done v s w t u henters hw ht hu hrest hlimit
      obtain ⟨b, t', rfl, hblank, hb⟩ := hstart ht
      rw [List.cons_append] at henters
      obtain ⟨_, hnext⟩ := nextItem_element hw henters hblank hb
      have hvalue : Gives (item (b :: (t' ++ u))) v u := hitem (w := []) ht blank_nil hu
      obtain ⟨_, hvalue⟩ := hvalue
      rw [readItems, hnext]
      simp only [hvalue]
      exact hrest _
    · intro w hw hlimit
      have hdone : (items.foldl (fun done v => v :: done) []).reverse = items := by
        rw [List.foldl_flip_cons_eq_append]
        simp
      have hread := hend (items.foldl (fun done v => v :: done) []) hw hlimit
      rwa [hdone] at hread

theorem isEmpty_putMember (key : String) (v : Value) (done : List (String × Value)) :
    (Value.putMember key v done).isEmpty = false := by
  cases done with
  | nil => rfl
  | cons m done =>
    unfold Value.putMember
    split <;> rfl

theorem readMembers_append {item : ValueReader} {spells : Value → Bytes → Prop}
    (hitem : ReadsAll item spells) {members : List (String × Value)} {s : Bytes}
    (h : Listed (SpellsMember spells) members s) (rest : Bytes) {limit : Nat}
    (hlimit : (s ++ Ascii.braceClose :: rest).length ≤ limit) :
    Gives (readMembers item [] (s ++ Ascii.braceClose :: rest) hlimit) (Value.putMembers [] members)
      rest := by
  have hend (done : List (String × Value)) {w : Bytes} (hw : Blank w)
      (hlimit : (w ++ Ascii.braceClose :: rest).length ≤ limit) :
      Gives (readMembers item done (w ++ Ascii.braceClose :: rest) hlimit) done rest := by
    have hskip : skipBlank (w ++ Ascii.braceClose :: rest) = Ascii.braceClose :: rest :=
      skipBlank_append hw rfl rest
    obtain ⟨_, hnext⟩ := nextMember_close hskip
    rw [readMembers, hnext]
    exact gives_ok _
  cases h with
  | empty hw => exact hend [] hw hlimit
  | items hs =>
    refine hs.loop List.isEmpty (fun done m => Value.putMember m.1 m.2 done)
      (fun done s => ∀ h : s.length ≤ limit,
        Gives (readMembers item done s h) (Value.putMembers [] members) rest)
      ⟨rfl, by decide, by decide, by decide⟩ (fun done m => isEmpty_putMember m.1 m.2 done) ?_ [] rfl
      (fun w hw hlimit => hend _ hw hlimit) hlimit
    intro done m s w t u henters hw ht hu hrest hlimit
    cases ht with
    | @pair key v t w₁ w₂ t' hkey hw₁ hw₂ ht' =>
      cases hkey with
      | quoted hbody =>
        simp only [List.cons_append, List.append_assoc, List.nil_append] at henters
        obtain ⟨_, hnext⟩ := nextMember_element hw henters
        obtain ⟨_, hstring⟩ := readString_append hbody (w₁ ++ Ascii.colon :: (w₂ ++ (t' ++ u)))
        obtain ⟨_, hcolon⟩ := readColon_append hw₁ (w₂ ++ (t' ++ u))
        obtain ⟨_, hvalue⟩ := hitem ht' hw₂ hu
        rw [readMembers, hnext]
        simp only [hstring, hcolon, hvalue]
        exact hrest _

/-! ## Values -/

/-- A word after white space is read by its first letter. -/
theorem readWord_append (v : Value) (word rest : Bytes) : Gives (readWord v word (word ++ rest)) v rest := by
  induction word with
  | nil => exact gives_ok _
  | cons b word ih =>
    obtain ⟨_, hword⟩ := ih
    simp only [List.cons_append, readWord, if_true, hword]
    exact gives_ok _

/-- A literal is read as a number, past its sign. -/
theorem readValue_literal {depth : Nat} {l : Literal} {s w : Bytes} (h : SpellsLiteral l s) (hw : Blank w)
    (rest : Bytes) :
    ∃ t, ∃ le : (t ++ rest).length ≤ (w ++ (s ++ rest)).length, SpellsUnsigned l t ∧
      readValue depth (w ++ (s ++ rest)) =
        (readNumber l.negative (t ++ rest)).map fun r => r.weaken le := by
  cases h with
  | plus hl h =>
    refine ⟨s, by simp, h, ?_⟩
    obtain ⟨b, t, d, rfl, hb⟩ := h.head
    have hskip := skipBlank_append hw (isBlank_of_digit hb) (t ++ rest)
    rw [hl]
    unfold readValue
    split
    next hnil => cases hskip.symm.trans hnil
    next heq =>
      cases hskip.symm.trans heq
      rw [if_neg (ne_of_digit hb rfl), if_neg (ne_of_digit hb rfl), if_neg (ne_of_digit hb rfl),
        if_neg (ne_of_digit hb rfl), if_pos (by rw [hb]; rfl)]
      rfl
  | @minus s hl h =>
    refine ⟨s, by simp only [List.length_append, List.length_cons]; omega, h, ?_⟩
    have hskip := skipBlank_append (b := Ascii.minus) hw rfl (s ++ rest)
    rw [hl]
    unfold readValue
    split
    next hnil => cases hskip.symm.trans hnil
    next heq =>
      cases hskip.symm.trans heq
      rw [if_neg (by decide), if_neg (by decide), if_neg (by decide), if_pos rfl]
      dsimp only
      cases readNumber true (s ++ rest) <;> rfl

theorem readValue_scalar {depth : Nat} {v : Value} {s w rest : Bytes} (h : SpellsScalar v s) (hw : Blank w)
    (hrest : EndsNumber rest) : Gives (readValue depth (w ++ (s ++ rest))) v rest := by
  have hskip {b : UInt8} (hb : isBlank b = false) (t : Bytes) : skipBlank (w ++ b :: t) = b :: t :=
    skipBlank_append hw hb t
  cases h with
  | null =>
    have hskip := hskip (b := 0x6E) rfl ([0x75, 0x6C, 0x6C] ++ rest)
    unfold readValue
    split
    next hnil => cases hskip.symm.trans hnil
    next heq =>
      cases hskip.symm.trans heq
      rw [if_pos rfl]
      exact (readWord_append _ _ _).weaken _
  | true =>
    have hskip := hskip (b := 0x74) rfl ([0x72, 0x75, 0x65] ++ rest)
    unfold readValue
    split
    next hnil => cases hskip.symm.trans hnil
    next heq =>
      cases hskip.symm.trans heq
      rw [if_neg (by decide), if_pos rfl]
      exact (readWord_append _ _ _).weaken _
  | false =>
    have hskip := hskip (b := 0x66) rfl ([0x61, 0x6C, 0x73, 0x65] ++ rest)
    unfold readValue
    split
    next hnil => cases hskip.symm.trans hnil
    next heq =>
      cases hskip.symm.trans heq
      rw [if_neg (by decide), if_neg (by decide), if_pos rfl]
      exact (readWord_append _ _ _).weaken _
  | number h hn =>
    obtain ⟨t, le, ht, hvalue⟩ := readValue_literal h hw rest
    rw [hvalue]
    exact (readNumber_append ht hn hrest).weaken le
  | string h =>
    cases h with
    | @quoted body h =>
      have hread := readString_append h rest
      have hskip := hskip (b := Ascii.quote) rfl (body ++ Ascii.quote :: rest)
      rw [List.cons_append, List.append_assoc, List.singleton_append]
      unfold readValue
      split
      next hnil => cases hskip.symm.trans hnil
      next heq =>
        cases hskip.symm.trans heq
        rw [if_neg (by decide), if_neg (by decide), if_neg (by decide), if_neg (by decide),
          if_neg (by decide), if_pos rfl]
        obtain ⟨_, hread⟩ := hread
        rw [hread]
        exact gives_ok _

theorem SpellsLiteral.startsValue {l : Literal} {s : Bytes} (h : SpellsLiteral l s) : StartsValue s := by
  cases h with
  | plus _ h =>
    obtain ⟨b, t, d, rfl, hb⟩ := h.head
    exact ⟨b, t, rfl, isBlank_of_digit hb, ne_of_digit hb rfl⟩
  | minus => exact ⟨_, _, rfl, rfl, by decide⟩

theorem startsValue_scalar {v : Value} {s : Bytes} (h : SpellsScalar v s) : StartsValue s := by
  cases h with
  | null => exact ⟨_, _, rfl, rfl, by decide⟩
  | true => exact ⟨_, _, rfl, rfl, by decide⟩
  | false => exact ⟨_, _, rfl, rfl, by decide⟩
  | number h => exact h.startsValue
  | string h =>
    cases h
    exact ⟨_, _, rfl, rfl, by decide⟩

theorem startsValue_of_spells {depth : Nat} {v : Value} {s : Bytes} (h : Spells depth v s) :
    StartsValue s := by
  cases depth with
  | zero => exact startsValue_scalar h
  | succ depth =>
    rcases h with h | h
    · exact startsValue_scalar h
    · cases h <;> exact ⟨_, _, rfl, rfl, by decide⟩

/-- After its bracket an array is read item by item. -/
theorem readValue_bracketOpen (depth : Nat) {s t : Bytes} (h : skipBlank s = Ascii.bracketOpen :: t) :
    readValue (depth + 1) s =
      (readItems (readValue depth) [] t (Nat.le_of_lt (length_of_skipBlank h))).map
        fun r => r.map .array := by
  conv_lhs => unfold readValue
  split
  next hnil => cases h.symm.trans hnil
  next heq =>
    cases h.symm.trans heq
    rw [if_neg (by decide), if_neg (by decide), if_neg (by decide), if_neg (by decide),
      if_neg (by decide), if_neg (by decide), if_pos rfl]

/-- After its brace an object is read member by member. -/
theorem readValue_braceOpen (depth : Nat) {s t : Bytes} (h : skipBlank s = Ascii.braceOpen :: t) :
    readValue (depth + 1) s =
      (readMembers (readValue depth) [] t (Nat.le_of_lt (length_of_skipBlank h))).map
        fun r => r.map .object := by
  conv_lhs => unfold readValue
  split
  next hnil => cases h.symm.trans hnil
  next heq =>
    cases h.symm.trans heq
    rw [if_neg (by decide), if_neg (by decide), if_neg (by decide), if_neg (by decide),
      if_neg (by decide), if_neg (by decide), if_neg (by decide), if_pos rfl]

/-- A value is read from each of its texts. -/
theorem readValue_append (depth : Nat) : ReadsAll (readValue depth) (Spells depth) := by
  induction depth with
  | zero => exact fun h hw hrest => readValue_scalar h hw hrest
  | succ depth ih =>
    intro v s w rest h hw hrest
    rcases h with h | h
    · exact readValue_scalar h hw hrest
    cases h with
    | @array items body h =>
      have hskip := skipBlank_append (b := Ascii.bracketOpen) hw rfl (body ++ Ascii.bracketClose :: rest)
      obtain ⟨_, hread⟩ := readItems_append ih startsValue_of_spells h rest
        (Nat.le_of_lt (length_of_skipBlank hskip))
      rw [List.cons_append, List.append_assoc, List.singleton_append, readValue_bracketOpen depth hskip, hread]
      exact gives_ok _
    | @object members body h =>
      have hskip := skipBlank_append (b := Ascii.braceOpen) hw rfl (body ++ Ascii.braceClose :: rest)
      obtain ⟨_, hread⟩ := readMembers_append ih h rest (Nat.le_of_lt (length_of_skipBlank hskip))
      rw [List.cons_append, List.append_assoc, List.singleton_append, readValue_braceOpen depth hskip, hread]
      exact gives_ok _

/-- A text that holds one value and nothing else is read as that value. -/
theorem read_spelled {v : Value} {text : Bytes} (h : SpellsText v text) : read text = .ok v := by
  cases h with
  | @text w s w' hw hs hw' =>
    have hrest : EndsNumber w' := by simpa using endsNumber_append hw' endsNumber_nil
    obtain ⟨_, hread⟩ := readValue_append maxDepth hs hw hrest
    simp only [read, readText, hread, skipBlank_blank hw']
    rfl

example : read (Utf8.encode " [\"\\ud83d\\uDE00\", -7 ]\n") =
    .ok (.array [.string "😀", .number (.whole ⟨-7, by decide, by decide⟩)]) := by
  cbv

end EventScript.Json
