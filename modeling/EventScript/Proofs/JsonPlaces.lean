import EventScript.Proofs.RepeatedKeys

/-!
# Places in JSON texts

What stands around an item of an array is a place: whatever value is put there, the text is that of an array of
the other items and that value. The same goes for the value of a member of an object. Whether the others can be
read does not depend on what is put there, so either every such text is refused, or each is read as an array or an
object in which only the value at the place is another.

* `IsJson.array`: an array of values is a value.
* `ArrayText.cut`, `ObjectText.cut`: every item, and the value of every member, stands at a place.
* `AroundItem.spells_or_refuses`, `AroundMember.spells_or_refuses`: what is read when a place is filled.
* `exists_aroundItem`, `exists_aroundMember`: the place of an item of an array that is read, and of a value of an
  object, which is that of the last member with its key.
-/

namespace EventScript.Json

variable {value : Bytes → Prop}

/-! ## Values -/

theorem ArrayText.imp {value' : Bytes → Prop} {items : List Bytes} {s : Bytes} (h : ArrayText value items s)
    (hvalue : ∀ t ∈ items, value' t) : ArrayText value' items s := by
  obtain ⟨h⟩ := h
  refine .items (h.forall₂ (List.forall₂_same.mpr ?_))
  rintro t ht _ ⟨-⟩
  exact .text (hvalue t ht)

theorem ObjectText.imp {value' : Bytes → Prop} {members : List (String × Bytes)} {s : Bytes}
    (h : ObjectText value members s) (hvalue : ∀ m ∈ members, value' m.2) : ObjectText value' members s := by
  obtain ⟨h⟩ := h
  refine .members (h.forall₂ (List.forall₂_same.mpr ?_))
  rintro m hm _ ⟨hkey, hw, hw', -⟩
  exact .pair hkey hw hw' (hvalue _ hm)

/-- A value that nests no deeper than so far nests no deeper than farther. -/
theorem isValue_mono {depth depth' : Nat} (hle : depth ≤ depth') {s : Bytes} (h : IsValue depth s) :
    IsValue depth' s := by
  induction depth generalizing depth' s with
  | zero =>
    cases depth' with
    | zero => exact h
    | succ depth' => exact .inl h
  | succ depth ih =>
    obtain ⟨depth', rfl⟩ := Nat.exists_eq_add_of_le' (Nat.le_trans (Nat.le_add_left 1 depth) hle)
    have hle : depth ≤ depth' := Nat.le_of_succ_le_succ hle
    rcases h with h | ⟨items, h⟩ | ⟨members, h⟩
    · exact .inl h
    · exact .inr (.inl ⟨items, h.imp fun t ht => ih hle (h.forall_value t ht)⟩)
    · exact .inr (.inr ⟨members, h.imp fun m hm => ih hle (h.forall_value m hm)⟩)

/-- Texts of values nest no deeper than the deepest of them. -/
theorem exists_depth {ts : List Bytes} (h : ∀ t ∈ ts, IsJson t) : ∃ depth, ∀ t ∈ ts, IsValue depth t := by
  induction ts with
  | nil => exact ⟨0, by simp⟩
  | cons t ts ih =>
    obtain ⟨⟨depth, ht⟩, hts⟩ := List.forall_mem_cons.mp h
    obtain ⟨depth', hdepth⟩ := ih hts
    refine ⟨max depth depth', List.forall_mem_cons.mpr ⟨isValue_mono (Nat.le_max_left ..) ht, ?_⟩⟩
    exact fun t' ht' => isValue_mono (Nat.le_max_right ..) (hdepth t' ht')

/-- An array of values is a value. -/
theorem IsJson.array {items : List Bytes} {s : Bytes} (h : ArrayText IsJson items s) : IsJson s := by
  obtain ⟨depth, hdepth⟩ := exists_depth h.forall_value
  exact ⟨depth + 1, .inr (.inl ⟨items, h.imp hdepth⟩)⟩

/-! ## Places -/

/-- What stands around an item of an array, after `before` and in front of `after`: with any value in it, this is
an array of the others and that value. -/
def AroundItem (before after : List Bytes) (p q : Bytes) : Prop :=
  ∀ t, IsJson t → ArrayText IsJson (before ++ t :: after) (p ++ (t ++ q))

/-- What stands around the value of a member of an object: with any value in it, this is an object of the others
and a member with that value. -/
def AroundMember (before after : List (String × Bytes)) (key : String) (p q : Bytes) : Prop :=
  ∀ t, IsJson t → ObjectText IsJson (before ++ (key, t) :: after) (p ++ (t ++ q))

/-- Of a list each thing can be replaced. -/
theorem Separated.cut {α : Type} {spells : α → Bytes → Prop} {before after : List α} {a : α} {s : Bytes}
    (h : Separated spells (before ++ a :: after) s) :
    ∃ p t q, s = p ++ (t ++ q) ∧ spells a t ∧
      ∀ b u, spells b u → Separated spells (before ++ b :: after) (p ++ (u ++ q)) := by
  generalize hall : before ++ a :: after = all at h
  induction h generalizing before with
  | @last c w s w' hw hs hw' =>
    obtain ⟨rfl, hcons⟩ := List.append_eq_singleton_iff.mp hall |>.resolve_right (by simp)
    cases hcons
    exact ⟨w, s, w', rfl, hs, fun b u hu => .last hw hu hw'⟩
  | @comma c cs w s w' t hw hs hw' hmore ih =>
    cases before with
    | nil =>
      cases hall
      exact ⟨w, s, _, rfl, hs, fun b u hu => .comma hw hu hw' hmore⟩
    | cons c' before =>
      cases hall
      obtain ⟨p, u, q, rfl, hu, hput⟩ := ih rfl
      refine ⟨w ++ (s ++ (w' ++ Ascii.comma :: p)), u, q, by simp, hu, fun b v hv => ?_⟩
      simpa using Separated.comma hw hs hw' (hput b v hv)

theorem Listed.separated {α : Type} {spells : α → Bytes → Prop} {as : List α} {s : Bytes}
    (h : Listed spells as s) (hne : as ≠ []) : Separated spells as s := by
  cases h with
  | empty => exact absurd rfl hne
  | items hs => exact hs

/-- Every item of an array stands at a place. -/
theorem ArrayText.cut {before after : List Bytes} {t s : Bytes} (h : ArrayText IsJson (before ++ t :: after) s) :
    ∃ p q, s = p ++ (t ++ q) ∧ AroundItem before after p q := by
  obtain ⟨h⟩ := h
  obtain ⟨p, _, q, rfl, ⟨-⟩, hput⟩ := (h.separated (by simp)).cut
  refine ⟨Ascii.bracketOpen :: p, q ++ [Ascii.bracketClose], by simp, fun u hu => ?_⟩
  simpa using ArrayText.items (.items (hput u u (.text hu)))

/-- The value of every member of an object stands at a place. -/
theorem ObjectText.cut {before after : List (String × Bytes)} {key : String} {t s : Bytes}
    (h : ObjectText IsJson (before ++ (key, t) :: after) s) :
    ∃ p q, s = p ++ (t ++ q) ∧ AroundMember before after key p q := by
  obtain ⟨h⟩ := h
  obtain ⟨p, _, q, rfl, @⟨_, k, w, w', _, hkey, hw, hw', -⟩, hput⟩ := (h.separated (by simp)).cut
  refine ⟨Ascii.braceOpen :: (p ++ (k ++ (w ++ Ascii.colon :: w'))), q ++ [Ascii.braceClose], by simp,
    fun u hu => ?_⟩
  simpa using ObjectText.members (.items (hput (key, u) _ (.pair hkey hw hw' hu)))

/-! ## Reading -/

theorem isJson_null : IsJson [0x6E, 0x75, 0x6C, 0x6C] :=
  ⟨0, .null⟩

theorem mem_around {α : Type} {before after : List α} {a : α} (ha : a ∈ before ++ after) (b : α) :
    a ∈ before ++ b :: after :=
  ((List.sublist_cons_self b after).append_left before).subset ha

/-- Either a place is in an array that is refused whatever is put there, or in one whose other items are read, and
then it is read as the array of them and the value that is put there. -/
theorem AroundItem.spells_or_refuses {before after : List Bytes} {p q : Bytes} (h : AroundItem before after p q)
    (depth : Nat) :
    (∃ vs ws : List Value, vs.length = before.length ∧ ∀ t v, IsJson t → Spells depth v t →
        Spells (depth + 1) (.array (vs ++ v :: ws)) (p ++ (t ++ q))) ∨
      ∀ t, IsJson t → Refuses (readValue (depth + 1)) (p ++ (t ++ q)) := by
  have hothers (t : Bytes) (ht : t ∈ before ++ after) : IsJson t :=
    (h _ isJson_null).forall_value t (mem_around ht _)
  rcases refused_or_spelled fun t ht => (hothers t ht).spelled_or_refused depth with ⟨t, ht, hrefuses⟩ | ⟨f, hf⟩
  · right
    intro u hu
    exact refuses_array IsJson.startsValue (IsJson.spelled_or_refused depth) (h u hu)
      ⟨t, mem_around ht u, hrefuses⟩
  · left
    obtain ⟨hbefore, hafter⟩ := List.forall_mem_append.mp hf
    refine ⟨before.map f, after.map f, List.length_map f, fun t v ht hv => (h t ht).spells_forall₂ ?_⟩
    refine List.rel_append ?_ (.cons hv ?_)
    · exact forall₂_map hbefore
    · exact forall₂_map hafter

/-- Either a place is in an object that is refused whatever is put there, or in one whose other members are read,
and then it is read as the object of them and the member with the value that is put there. -/
theorem AroundMember.spells_or_refuses {before after : List (String × Bytes)} {key : String} {p q : Bytes}
    (h : AroundMember before after key p q) (depth : Nat) :
    (∃ ms ns : List (String × Value), ∀ t v, IsJson t → Spells depth v t →
        Spells (depth + 1) (.object (Value.putMembers [] (ms ++ (key, v) :: ns))) (p ++ (t ++ q))) ∨
      ∀ t, IsJson t → Refuses (readValue (depth + 1)) (p ++ (t ++ q)) := by
  have hothers : ∀ t ∈ (before ++ after).map Prod.snd, IsJson t :=
    List.forall_mem_map.mpr fun m hm => (h _ isJson_null).forall_value m (mem_around hm _)
  rcases refused_or_spelled fun t ht => (hothers t ht).spelled_or_refused depth with ⟨t, ht, hrefuses⟩ | ⟨f, hf⟩
  · right
    intro u hu
    obtain ⟨m, hm, rfl⟩ := List.mem_map.mp ht
    exact refuses_object (IsJson.spelled_or_refused depth) (h u hu) ⟨m, mem_around hm _, hrefuses⟩
  · left
    obtain ⟨hbefore, hafter⟩ := List.forall_mem_append.mp (List.forall_mem_map.mp hf)
    refine ⟨before.map (Prod.map id f), after.map (Prod.map id f),
      fun t v ht hv => (h t ht).spells_forall₂ (List.rel_append ?_ (.cons ⟨rfl, hv⟩ ?_))⟩
    · exact forall₂_map fun m hm => ⟨rfl, hbefore m hm⟩
    · exact forall₂_map fun m hm => ⟨rfl, hafter m hm⟩

/-! ## Values that are read -/

/-- Lists that are related place by place are cut together. -/
theorem forall₂_cut {α β : Type} {R : α → β → Prop} {as : List α} {before after : List β} {b : β}
    (h : List.Forall₂ R as (before ++ b :: after)) :
    ∃ before' a after', as = before' ++ a :: after' ∧ List.Forall₂ R before' before ∧ R a b ∧
      List.Forall₂ R after' after := by
  induction before generalizing as with
  | nil =>
    obtain ⟨a, after', hab, hafter, rfl⟩ := List.forall₂_cons_right_iff.mp h
    exact ⟨[], a, after', rfl, .nil, hab, hafter⟩
  | cons c before ih =>
    obtain ⟨d, as, hdc, hmore, rfl⟩ := List.forall₂_cons_right_iff.mp h
    obtain ⟨before', a, after', rfl, hbefore, hab, hafter⟩ := ih hmore
    exact ⟨d :: before', a, after', rfl, .cons hdc hbefore, hab, hafter⟩

theorem exists_cut {α : Type} {as : List α} {i : Nat} {a : α} (h : as[i]? = some a) :
    ∃ before after, as = before ++ a :: after ∧ before.length = i ∧ ∀ b, as.set i b = before ++ b :: after := by
  obtain ⟨hi, rfl⟩ := List.getElem?_eq_some_iff.mp h
  refine ⟨as.take i, as.drop (i + 1), by simp, by simpa using Nat.le_of_lt hi, fun b => ?_⟩
  rw [List.set_eq_take_append_cons_drop, if_pos hi]

/-- Every item of an array that is read stands at a place, and what is put there is read as the item. -/
theorem exists_aroundItem {depth : Nat} {items : List Value} {s : Bytes}
    (h : Spells (depth + 1) (.array items) s) {i : Nat} {v : Value} (hv : items[i]? = some v) :
    ∃ before after p t q, before.length = i ∧ AroundItem before after p q ∧ s = p ++ (t ++ q) ∧ Spells depth v t ∧
      ∀ v' t', Spells depth v' t' → Spells (depth + 1) (.array (items.set i v')) (p ++ (t' ++ q)) := by
  have hjson {v : Value} {t : Bytes} (ht : Spells depth v t) : IsJson t := ⟨depth, isValue_of_spells ht⟩
  obtain ⟨ts, hts, hspells⟩ := exists_arrayText hjson h
  obtain ⟨vs, ws, rfl, rfl, hset⟩ := exists_cut hv
  obtain ⟨before, t, after, rfl, hbefore, ht, hafter⟩ := forall₂_cut hspells
  obtain ⟨p, q, rfl, hplace⟩ := hts.cut
  refine ⟨before, after, p, t, q, hbefore.length_eq, hplace, rfl, ht, fun v' t' ht' => ?_⟩
  rw [hset]
  exact (hplace t' (hjson ht')).spells_forall₂ (List.rel_append hbefore (.cons ht' hafter))

/-- What differs at one key only differs at one place of a list that has the key once. -/
theorem map_eq_set {α β : Type} {ks : List α} (hks : ks.Nodup) {i : Nat} {key : α} (hkey : ks[i]? = some key)
    {f g : α → β} (hfg : ∀ k, k ≠ key → g k = f k) : ks.map g = (ks.map f).set i (g key) := by
  obtain ⟨before, after, rfl, rfl, -⟩ := exists_cut hkey
  rw [List.nodup_middle, List.nodup_cons] at hks
  have hothers : ∀ k ∈ before ++ after, g k = f k := fun k hk => hfg k (by rintro rfl; exact hks.1 hk)
  obtain ⟨hbefore, hafter⟩ := List.forall_mem_append.mp hothers
  simp [List.map_congr_left hbefore, List.map_congr_left hafter]

theorem lookup_reverse_around (before after : List (String × Value)) (key : String) (v : Value) (k : String) :
    (before ++ (key, v) :: after).reverse.lookup k =
      (after.reverse.lookup k).or (if k = key then some v else before.reverse.lookup k) := by
  rw [List.reverse_append, List.reverse_cons, List.append_assoc, List.singleton_append, List.lookup_append,
    lookup_cons_of_key]

/-- Where a member is the last with its key, another value for it is another value of the object at the place of
the key. -/
theorem values_around {before after : List (String × Value)} {key : String} (hlast : after.reverse.lookup key = none)
    {i : Nat} {v : Value} (hkey : ((before ++ (key, v) :: after).map Prod.fst).eraseDups[i]? = some key) (v' : Value) :
    (Value.putMembers [] (before ++ (key, v') :: after)).map Prod.snd =
      ((Value.putMembers [] (before ++ (key, v) :: after)).map Prod.snd).set i v' := by
  have hnodup := nodup_putMembers (before ++ (key, v) :: after)
  rw [keys_putMembers] at hnodup
  have hkeys : (before ++ (key, v') :: after).map Prod.fst = (before ++ (key, v) :: after).map Prod.fst := by
    simp
  -- the keys are the same, and every other key has the value that it had
  have hset := map_eq_set (f := fun k => (before ++ (key, v) :: after).reverse.lookup k)
    (g := fun k => (before ++ (key, v') :: after).reverse.lookup k) hnodup hkey fun k hk => by
      rw [lookup_reverse_around, lookup_reverse_around, if_neg hk, if_neg hk]
  rw [← values_putMembers, ← hkeys, ← values_putMembers, lookup_reverse_around, hlast, if_pos rfl,
    Option.none_or] at hset
  apply List.map_injective_iff.mpr (Option.some_injective _)
  rw [List.map_set, List.map_map, List.map_map]
  exact hset

/-- Of the members that an object is made of, the last one with a key has its value in the object. -/
theorem exists_last {ms : List (String × Value)} {i : Nat} {v : Value}
    (hv : ((Value.putMembers [] ms).map Prod.snd)[i]? = some v) :
    ∃ before key after, ms = before ++ (key, v) :: after ∧
      ∀ v', (Value.putMembers [] (before ++ (key, v') :: after)).map Prod.snd =
        ((Value.putMembers [] ms).map Prod.snd).set i v' := by
  rw [List.getElem?_map] at hv
  obtain ⟨⟨key, v⟩, hm, rfl⟩ := Option.map_eq_some_iff.mp hv
  have hkey : (ms.map Prod.fst).eraseDups[i]? = some key := by
    rw [← keys_putMembers, List.getElem?_map, hm]
    rfl
  have hlookup : ms.reverse.lookup key = some v := by
    have hvalues := congrArg (·[i]?) (values_putMembers ms)
    simpa only [List.getElem?_map, hm, hkey, Option.map_some, Option.some.injEq, eq_comm] using hvalues
  obtain ⟨after, before, hms, hafter⟩ := List.lookup_eq_some_iff.mp hlookup
  obtain rfl : ms = before.reverse ++ (key, v) :: after.reverse := by
    rw [← List.reverse_reverse ms, hms]
    simp
  refine ⟨before.reverse, key, after.reverse, rfl, fun v' => values_around ?_ hkey v'⟩
  rw [List.reverse_reverse]
  exact List.lookup_eq_none_iff.mpr hafter

/-- Every value of an object that is read stands at a place, and what is put there is read as the value. -/
theorem exists_aroundMember {depth : Nat} {members : List (String × Value)} {s : Bytes}
    (h : Spells (depth + 1) (.object members) s) {i : Nat} {v : Value} (hv : (members.map Prod.snd)[i]? = some v) :
    ∃ before key after p t q, AroundMember before after key p q ∧ s = p ++ (t ++ q) ∧ Spells depth v t ∧
      ∀ v' t', Spells depth v' t' → ∃ members', members'.map Prod.snd = (members.map Prod.snd).set i v' ∧
        Spells (depth + 1) (.object members') (p ++ (t' ++ q)) := by
  have hjson {v : Value} {t : Bytes} (ht : Spells depth v t) : IsJson t := ⟨depth, isValue_of_spells ht⟩
  obtain ⟨ms, ts, rfl, hts, hspells⟩ := exists_objectText hjson h
  obtain ⟨ms₁, key, ms₂, rfl, hset⟩ := exists_last hv
  obtain ⟨before, ⟨_, t⟩, after, rfl, hbefore, ⟨rfl, ht⟩, hafter⟩ := forall₂_cut hspells
  obtain ⟨p, q, rfl, hplace⟩ := hts.cut
  refine ⟨before, _, after, p, t, q, hplace, rfl, ht, fun v' t' ht' => ⟨_, hset v', ?_⟩⟩
  exact (hplace t' (hjson ht')).spells_forall₂ (List.rel_append hbefore (.cons ⟨rfl, ht'⟩ hafter))

end EventScript.Json
