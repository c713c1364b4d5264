import EventScript.Proofs.RecordRoundTrip
import EventScript.Script

/-!
# Round trip and canonicity of scripts

* `Header.decode_eq_ok_iff`: a header is read off the front of some octets exactly when it has the current
  version and its octets are that front.
* `readEvents_eq_ok_iff`: as many events as are asked for are read off the front of some octets exactly when
  their records, one after another, are that front.
* `decode_eq_ok_iff`: octets are a script exactly when they are the octets of that script, it has the current
  version, and its header counts its events.
* `assemble_eq`: what becomes of a list of events, by its length alone.
* `decode_assemble`: every list of events that a header can count is read back from its script.
* `decode_canonical`: octets that are read as a script are those that its events assemble to, or the
  header of no events. No script is the front of another one.
-/

namespace EventScript.Script

open Outcome

/-! ## Headers -/

namespace Header

/-- The octets of a record count. -/
def countOctets (count : UInt32) : Bytes :=
  LittleEndian.encode countLength count.toNat

theorem span_countLength : LittleEndian.span countLength = 2 ^ 32 := by
  decide

@[simp]
theorem length_countOctets (count : UInt32) : (countOctets count).length = countLength :=
  LittleEndian.length_encode _ _

@[simp]
theorem ofNat_decode_countOctets (count : UInt32) :
    UInt32.ofNat (LittleEndian.decode (countOctets count)) = count := by
  have hlt : count.toNat < 2 ^ 32 := count.toNat_lt
  rw [countOctets, LittleEndian.decode_encode, span_countLength, Nat.mod_eq_of_lt hlt,
    UInt32.ofNat_toNat]

theorem countOctets_ofNat_decode {bs : Bytes} (h : bs.length = countLength) :
    countOctets (UInt32.ofNat (LittleEndian.decode bs)) = bs := by
  have hlt : LittleEndian.decode bs < 2 ^ 32 := by
    have := LittleEndian.decode_lt bs
    rwa [h, span_countLength] at this
  rw [countOctets, UInt32.toNat_ofNat_of_lt' hlt, ← h]
  exact LittleEndian.encode_decode bs

/-- A header with what follows it, part by part. -/
theorem encode_append (h : Header) (s : Bytes) :
    h.encode ++ s = magic ++ (Utf8.encode h.version ++ (countOctets h.count ++ s)) := by
  simp only [encode, countOctets, List.append_assoc]

/-- The only tag that is found is the current one. -/
theorem find?_supportedVersions {tagged : Bytes} {version : String} :
    (supportedVersions.find? fun v => (Utf8.encode v).isPrefixOf tagged) = some version ↔
      version = currentVersion ∧ Utf8.encode currentVersion <+: tagged := by
  rw [supportedVersions, List.find?_singleton]
  split
  next h =>
    rw [List.isPrefixOf_iff_prefix] at h
    simp [h, eq_comm]
  next h =>
    rw [List.isPrefixOf_iff_prefix] at h
    simp [h]

theorem decode_eq_ok_iff {s rest : Bytes} {h : Header} :
    decode s = .ok (h, rest) ↔ h.version = currentVersion ∧ s = h.encode ++ rest := by
  rw [encode_append, decode]
  constructor
  · intro hs
    split at hs
    next => cases hs
    split at hs
    next => cases hs
    next hlong hmagic =>
      dsimp only at hs
      split at hs
      next => cases hs
      next version hfind =>
        obtain ⟨rfl, tagged, htagged⟩ := find?_supportedVersions.mp hfind
        rw [← htagged, List.drop_left] at hs
        split at hs
        next => cases hs
        next hcount =>
          cases hs
          have hlength : (tagged.take countLength).length = countLength := by
            rw [List.length_take] at hcount ⊢
            omega
          refine ⟨rfl, ?_⟩
          rw [countOctets_ofNat_decode hlength, List.take_append_drop, htagged]
          calc s = s.take magic.length ++ s.drop magic.length := (List.take_append_drop _ _).symm
            _ = magic ++ s.drop magic.length := by rw [Classical.not_not.mp hmagic]
  · rintro ⟨hversion, rfl⟩
    have hfind : (supportedVersions.find? fun v => (Utf8.encode v).isPrefixOf
        (Utf8.encode h.version ++ (countOctets h.count ++ rest))) = some currentVersion := by
      rw [find?_supportedVersions, ← hversion]
      exact ⟨rfl, List.prefix_append _ _⟩
    have htake : (countOctets h.count ++ rest).take countLength = countOctets h.count :=
      List.take_left' (length_countOctets _)
    have hdrop : (countOctets h.count ++ rest).drop countLength = rest :=
      List.drop_left' (length_countOctets _)
    simp only [List.take_left, List.drop_left, Nat.lt_irrefl, if_false, ne_eq, not_true_eq_false]
    rw [hfind]
    simp only [← hversion, List.drop_left, htake, hdrop, length_countOctets, Nat.lt_irrefl,
      if_false, ofNat_decode_countOctets]

end Header

/-! ## Sequences of records -/

theorem readEvents_eq_ok_iff {count : Nat} {s rest : Bytes} {es : List Event} :
    readEvents count s = .ok (es, rest) ↔
      es.length = count ∧ s = es.flatMap Event.encode ++ rest := by
  induction count generalizing s es with
  | zero =>
    rw [readEvents, List.length_eq_zero_iff]
    constructor
    · intro h
      cases h
      exact ⟨rfl, rfl⟩
    · rintro ⟨rfl, rfl⟩
      rfl
  | succ count ih =>
    rw [readEvents]
    constructor
    · intro h
      split at h
      next => cases h
      split at h
      next => cases h
      next e after he =>
        split at h
        next => cases h
        next es' rest' hes =>
          cases h
          obtain ⟨hlength, hafter⟩ := ih.mp hes
          have hs := Event.decode_eq_ok_iff.mp he
          refine ⟨by rw [List.length_cons, hlength], ?_⟩
          rw [hs, hafter, List.flatMap_cons, List.append_assoc]
    · rintro ⟨hlength, rfl⟩
      obtain ⟨e, es', rfl⟩ := List.exists_cons_of_length_eq_add_one hlength
      have hne : ((e :: es').flatMap Event.encode ++ rest).isEmpty = false := by
        simp [Event.encode_ne_nil]
      have hes : readEvents count (es'.flatMap Event.encode ++ rest) = .ok (es', rest) :=
        ih.mpr ⟨by simpa using hlength, rfl⟩
      rw [hne, List.flatMap_cons, List.append_assoc]
      simp only [Bool.false_eq_true, if_false, Event.decode_encode_append, hes]

/-! ## Scripts -/

/-- The octets of a script. -/
def encode (f : Script) : Bytes :=
  f.header.encode ++ f.events.flatMap Event.encode

/-- A script has the current version and its header counts its events. -/
structure Consistent (f : Script) : Prop where
  version : f.header.version = currentVersion
  count : f.header.count.toNat = f.events.length

theorem decode_eq_ok_iff {s : Bytes} {f : Script} :
    decode s = .ok f ↔ f.Consistent ∧ s = f.encode := by
  rw [decode, bind_eq_ok_iff]
  constructor
  · rintro ⟨⟨header, records⟩, hheader, h⟩
    dsimp only at h
    obtain ⟨hversion, rfl⟩ := Header.decode_eq_ok_iff.mp hheader
    split at h
    next => cases h
    next events rest hevents =>
      obtain ⟨hcount, rfl⟩ := readEvents_eq_ok_iff.mp hevents
      split at h
      next hrest =>
        cases h
        rw [List.isEmpty_iff] at hrest
        exact ⟨⟨hversion, hcount.symm⟩, by rw [hrest, List.append_nil, encode]⟩
      next => cases h
  · rintro ⟨⟨hversion, hcount⟩, rfl⟩
    have hevents : readEvents f.header.count.toNat (f.events.flatMap Event.encode) =
        .ok (f.events, []) :=
      readEvents_eq_ok_iff.mpr ⟨hcount.symm, by rw [List.append_nil]⟩
    refine ⟨(f.header, f.events.flatMap Event.encode), Header.decode_eq_ok_iff.mpr ⟨hversion, rfl⟩, ?_⟩
    simp only [hevents]
    rfl

/-! ## Assembling -/

namespace Builder

theorem count_pushAll (b : Builder) (es : List Event) :
    (b.pushAll es).count = b.count + es.length := by
  induction es generalizing b with
  | nil => rfl
  | cons e es ih =>
    show ((b.push e).pushAll es).count = _
    rw [ih, List.length_cons]
    show b.count + 1 + es.length = _
    omega

theorem records_pushAll (b : Builder) (es : List Event) :
    (b.pushAll es).records.toList = b.records.toList ++ es.flatMap Event.encode := by
  induction es generalizing b with
  | nil => simp [pushAll]
  | cons e es ih =>
    show ((b.push e).pushAll es).records.toList = _
    rw [ih, push, Array.toList_appendList, List.flatMap_cons, List.append_assoc]

end Builder

/-- The script of some events. -/
def ofEvents (es : List Event) : Script :=
  ⟨Header.ofCount (UInt32.ofNat es.length), es⟩

theorem toNat_count_ofEvents {es : List Event} (h : es.length ≤ maxCount) :
    (ofEvents es).header.count.toNat = es.length := by
  have hlt : es.length < 2 ^ 32 := by
    rw [maxCount] at h
    omega
  exact UInt32.toNat_ofNat_of_lt' hlt

theorem consistent_ofEvents {es : List Event} (h : es.length ≤ maxCount) :
    (ofEvents es).Consistent :=
  ⟨rfl, toNat_count_ofEvents h⟩

/-- What a builder that was given some events makes of them. -/
theorem assemble_eq (es : List Event) :
    assemble es =
      if es = [] then .error .empty
      else if maxCount < es.length then .error (.tooMany es.length)
      else .ok (ofEvents es).encode := by
  have hcount : (Builder.empty.pushAll es).count = es.length := by
    rw [Builder.count_pushAll]
    exact Nat.zero_add _
  have hrecords : (Builder.empty.pushAll es).records.toList = es.flatMap Event.encode := by
    rw [Builder.records_pushAll]
    rfl
  have hempty : (es.length = 0 ∨ (Builder.empty.pushAll es).records.isEmpty) ↔ es = [] := by
    rw [List.length_eq_zero_iff, ← Array.isEmpty_toList, hrecords]
    cases es <;> simp [Event.encode_ne_nil]
  rw [assemble, Builder.finish, hcount, hrecords]
  simp only [hempty]
  rfl

theorem assemble_eq_ok_iff {es : List Event} {script : Bytes} :
    assemble es = .ok script ↔ es ≠ [] ∧ es.length ≤ maxCount ∧ script = (ofEvents es).encode := by
  rw [assemble_eq]
  split_ifs with hnil hmany
  · simp [hnil]
  · simp [hnil, Nat.not_le.mpr hmany]
  · simp [hnil, Nat.not_lt.mp hmany, eq_comm]

theorem assemble_eq_error_iff {es : List Event} {r : Refusal} :
    assemble es = .error r ↔
      (es = [] ∧ r = .empty) ∨ (maxCount < es.length ∧ r = .tooMany es.length) := by
  rw [assemble_eq]
  split_ifs with hnil hmany
  · simp [hnil, eq_comm]
  · simp [hnil, hmany, eq_comm]
  · simp [hnil, hmany]

/-! ## Main results -/

/-- **Round trip.** A builder that is given some events in order refuses exactly the empty list, as no data,
and exactly the lists that no header can count, as wrong usage. From any other list it makes a script
that is read back as these events, under a header of the current version that counts them. -/
theorem decode_assemble (es : List Event) :
    assemble es = (es.foldl Builder.push Builder.empty).finish ∧
    ((∃ r, assemble es = .error r ∧ r.fault.kind = .noData) ↔ es = []) ∧
    ((∃ r, assemble es = .error r ∧ r.fault.kind = .usage) ↔ 4294967295 < es.length) ∧
    (es ≠ [] → es.length ≤ 4294967295 →
      ∃ script header, assemble es = .ok script ∧ decode script = .ok ⟨header, es⟩ ∧
        header.version = "v0.9.0" ∧ header.count.toNat = es.length) := by
  have hmax : maxCount = 4294967295 := rfl
  refine ⟨rfl, ?_, ?_, ?_⟩
  · constructor
    · rintro ⟨r, h, hkind⟩
      rcases assemble_eq_error_iff.mp h with ⟨hnil, -⟩ | ⟨-, rfl⟩
      · exact hnil
      · cases hkind
    · intro hnil
      exact ⟨.empty, assemble_eq_error_iff.mpr (.inl ⟨hnil, rfl⟩), rfl⟩
  · constructor
    · rintro ⟨r, h, hkind⟩
      rcases assemble_eq_error_iff.mp h with ⟨-, rfl⟩ | ⟨hmany, -⟩
      · cases hkind
      · exact hmany
    · intro hmany
      exact ⟨.tooMany es.length, assemble_eq_error_iff.mpr (.inr ⟨hmany, rfl⟩), rfl⟩
  · intro hnil hfew
    rw [← hmax] at hfew
    exact ⟨(ofEvents es).encode, (ofEvents es).header, assemble_eq_ok_iff.mpr ⟨hnil, hfew, rfl⟩,
      decode_eq_ok_iff.mpr ⟨consistent_ofEvents hfew, rfl⟩, rfl, toNat_count_ofEvents hfew⟩

/-- The script that a header and its events come from is the one assembled from them. -/
theorem Consistent.eq_ofEvents {f : Script} (h : f.Consistent) : f = ofEvents f.events := by
  obtain ⟨⟨version, count⟩, events⟩ := f
  obtain ⟨hversion, hcount⟩ := h
  dsimp only at hversion hcount
  rw [ofEvents, ← hcount, UInt32.ofNat_toNat, hversion]
  rfl

theorem Consistent.length_le {f : Script} (h : f.Consistent) : f.events.length ≤ maxCount := by
  have hlt : f.header.count.toNat < 2 ^ 32 := f.header.count.toNat_lt
  rw [← h.count, maxCount]
  omega

/-- No script is the front of another one. -/
theorem eq_of_encode_append {f g : Script} (hf : f.Consistent) (hg : g.Consistent) {t : Bytes}
    (h : g.encode = f.encode ++ t) : t = [] := by
  have hheader : Header.decode g.encode = .ok (g.header, g.events.flatMap Event.encode) :=
    Header.decode_eq_ok_iff.mpr ⟨hg.version, rfl⟩
  have hfront : Header.decode g.encode = .ok (f.header, f.events.flatMap Event.encode ++ t) :=
    Header.decode_eq_ok_iff.mpr ⟨hf.version, by rw [h, encode, List.append_assoc]⟩
  have hpair := Except.ok.inj (hheader.symm.trans hfront)
  have hsame : g.header = f.header := congrArg Prod.fst hpair
  have hrecords : g.events.flatMap Event.encode = f.events.flatMap Event.encode ++ t :=
    congrArg Prod.snd hpair
  -- as many events are read off both record sections, and the longer one starts with the shorter
  have hlong : readEvents f.events.length (g.events.flatMap Event.encode) = .ok (g.events, []) :=
    readEvents_eq_ok_iff.mpr ⟨by rw [← hg.count, hsame, hf.count], by rw [List.append_nil]⟩
  have hshort : readEvents f.events.length (g.events.flatMap Event.encode) = .ok (f.events, t) :=
    readEvents_eq_ok_iff.mpr ⟨rfl, hrecords⟩
  exact (congrArg Prod.snd (Except.ok.inj (hlong.symm.trans hshort))).symm

/-- **Canonicity.** Octets that are read as a script have as many events as their header counts, with texts
free of NUL. They are what these events assemble to, or, if there are none, the header of no events. So
a script is read off one octet string only, and no octets that are read as a script are the front of others
that are. -/
theorem decode_canonical :
    (∀ (s : Bytes) (f : Script), decode s = .ok f →
      f.events.length = f.header.count.toNat ∧
      (∀ e ∈ f.events, ∀ octets ∈ e.octets.toList, Ascii.nul ∉ octets) ∧
      (1 ≤ f.header.count.toNat ∧ assemble f.events = .ok s ∨
        f.header.count.toNat = 0 ∧ s = (Header.ofCount 0).encode ∧ s.length = 14)) ∧
    (∀ (s₁ s₂ : Bytes) (f : Script), decode s₁ = .ok f → decode s₂ = .ok f → s₁ = s₂) ∧
    (∀ (s₁ s₂ : Bytes) (f₁ f₂ : Script), decode s₁ = .ok f₁ → decode s₂ = .ok f₂ →
      s₁ <+: s₂ → s₁ = s₂) := by
  refine ⟨?_, ?_, ?_⟩
  · intro s f h
    obtain ⟨hf, rfl⟩ := decode_eq_ok_iff.mp h
    refine ⟨hf.count.symm, ?_, ?_⟩
    · intro e _ octets hoctets
      simp only [Texts.toList, Event.octets, List.mem_cons, List.not_mem_nil, or_false] at hoctets
      rcases hoctets with rfl | rfl | rfl | rfl | rfl <;> exact Field.nulFree _
    · rcases Nat.eq_zero_or_pos f.header.count.toNat with hzero | hpos
      · have hnil : f.events = [] := by rw [← List.length_eq_zero_iff, ← hf.count, hzero]
        have hencode : f.encode = (Header.ofCount 0).encode := by
          rw [hf.eq_ofEvents, hnil, encode, ofEvents, List.flatMap_nil, List.append_nil]
          rfl
        refine .inr ⟨hzero, hencode, ?_⟩
        rw [hencode]
        decide
      · refine .inl ⟨hpos, assemble_eq_ok_iff.mpr ⟨?_, hf.length_le, ?_⟩⟩
        · rw [← List.length_pos_iff, ← hf.count]
          exact hpos
        · rw [← hf.eq_ofEvents]
  · intro s₁ s₂ f h₁ h₂
    rw [(decode_eq_ok_iff.mp h₁).2, (decode_eq_ok_iff.mp h₂).2]
  · rintro s₁ s₂ f₁ f₂ h₁ h₂ ⟨t, rfl⟩
    obtain ⟨hf₁, rfl⟩ := decode_eq_ok_iff.mp h₁
    obtain ⟨hf₂, h⟩ := decode_eq_ok_iff.mp h₂
    rw [eq_of_encode_append hf₁ hf₂ h.symm, List.append_nil]

end EventScript.Script
