import EventScript.Event.Record
import EventScript.Proofs.Outcome

/-!
# Round trip and canonicity of records

* `Field.read_eq_some_iff`: what is read up to a NUL is a text exactly when the octets start with that text
  and a NUL.
* `timerOfOctets_timerOctets`, `timerOctets_timerOfOctets`: timers and strings of eight octets are the
  same things.
* `decode_eq_ok_iff`: an event is read off the front of some octets exactly when its record is that
  front. So a record is read back whatever follows it, no octets but its record are read as an event, and
  nothing after the record is touched.
* `exists_decode_iff`: whether there is a record shows from the number of octets and the number of NULs alone.
* `decode_delimits`: which octets start with a record, and that just these are taken.
-/

namespace EventScript

open Outcome

/-! ## Texts -/

namespace Field

theorem not_nul_of_mem (f : Field) : ∀ b ∈ f.octets, (b != Ascii.nul) = true := by
  intro b hb
  rw [bne_iff_ne]
  rintro rfl
  exact f.nulFree hb

theorem takeWhile_append (f : Field) (rest : Bytes) :
    (f.octets ++ Ascii.nul :: rest).takeWhile (· != Ascii.nul) = f.octets := by
  rw [List.takeWhile_append_of_pos f.not_nul_of_mem]
  simp

theorem dropWhile_append (f : Field) (rest : Bytes) :
    (f.octets ++ Ascii.nul :: rest).dropWhile (· != Ascii.nul) = Ascii.nul :: rest := by
  rw [List.dropWhile_append_of_pos f.not_nul_of_mem]
  simp

theorem read_eq_some_iff {s rest : Bytes} {f : Field} :
    read s = some (f, rest) ↔ s = f.octets ++ Ascii.nul :: rest := by
  unfold read
  split
  next hdrop =>
    -- without a NUL there is no text either way
    constructor
    · intro h
      cases h
    · rintro rfl
      rw [dropWhile_append] at hdrop
      cases hdrop
  next b after hdrop =>
    constructor
    · intro h
      cases h
      have hb : b = Ascii.nul := by
        have hhead := List.head_dropWhile_not (· != Ascii.nul) (l := s) (by rw [hdrop]; simp)
        simpa [hdrop] using hhead
      have hsplit : s.takeWhile (· != Ascii.nul) ++ s.dropWhile (· != Ascii.nul) = s :=
        List.takeWhile_append_dropWhile
      rw [hdrop, hb] at hsplit
      exact hsplit.symm
    · rintro rfl
      rw [dropWhile_append] at hdrop
      cases hdrop
      simp only [takeWhile_append]

/-- A text and its NUL leave one NUL less. -/
theorem count_nul_append (f : Field) (rest : Bytes) :
    (f.octets ++ Ascii.nul :: rest).count Ascii.nul = rest.count Ascii.nul + 1 := by
  rw [List.count_append, List.count_eq_zero_of_not_mem f.nulFree, List.count_cons_self, Nat.zero_add]

/-- A text with its NUL stands before `n` further NULs exactly if there are more than `n` in all. -/
theorem lt_count_nul_iff {n : Nat} {s : Bytes} :
    n < s.count Ascii.nul ↔
      ∃ (f : Field) (rest : Bytes), s = f.octets ++ Ascii.nul :: rest ∧ n ≤ rest.count Ascii.nul := by
  constructor
  · intro h
    have hnul : Ascii.nul ∈ s := List.count_pos_iff.mp (Nat.zero_lt_of_lt h)
    obtain ⟨text, rest, rfl, htext⟩ := List.eq_append_cons_of_mem hnul
    rw [count_nul_append ⟨text, htext⟩] at h
    exact ⟨⟨text, htext⟩, rest, rfl, Nat.le_of_lt_succ h⟩
  · rintro ⟨f, rest, rfl, h⟩
    rw [count_nul_append]
    exact Nat.lt_succ_of_le h

end Field

namespace Event

/-! ## Timers -/

theorem span_timerLength : LittleEndian.span timerLength = 2 ^ 64 := by
  decide

@[simp]
theorem length_timerOctets (timer : Int64) : (timerOctets timer).length = timerLength :=
  LittleEndian.length_encode _ _

@[simp]
theorem timerOfOctets_timerOctets (timer : Int64) : timerOfOctets (timerOctets timer) = timer := by
  have hlt : timer.toUInt64.toNat < 2 ^ 64 := timer.toUInt64.toNat_lt
  rw [timerOfOctets, timerOctets, LittleEndian.decode_encode, span_timerLength,
    Nat.mod_eq_of_lt hlt, UInt64.ofNat_toNat, Int64.toInt64_toUInt64]

theorem timerOctets_timerOfOctets {bs : Bytes} (h : bs.length = timerLength) :
    timerOctets (timerOfOctets bs) = bs := by
  have hlt : LittleEndian.decode bs < 2 ^ 64 := by
    have := LittleEndian.decode_lt bs
    rwa [h, span_timerLength] at this
  rw [timerOctets, timerOfOctets, UInt64.toUInt64_toInt64, UInt64.toNat_ofNat_of_lt' hlt, ← h]
  exact LittleEndian.encode_decode bs

/-! ## Records -/

/-- A record with what follows it, text by text. -/
theorem encode_append (e : Event) (s : Bytes) :
    e.encode ++ s = timerOctets e.timer ++ (e.system.octets ++ Ascii.nul ::
      (e.target.octets ++ Ascii.nul :: (e.source.octets ++ Ascii.nul ::
        (e.command.octets ++ Ascii.nul :: (e.arguments.octets ++ Ascii.nul :: s))))) := by
  simp [encode, Texts.toList]

theorem readField_eq_ok_iff {record s rest : Bytes} {column : Column} {f : Field} :
    readField record column s = .ok (f, rest) ↔ s = f.octets ++ Ascii.nul :: rest := by
  rw [← Field.read_eq_some_iff, readField]
  split
  next found h => simp [h]
  next h => simp [h]

theorem decode_eq_ok_iff {record rest : Bytes} {e : Event} :
    decode record = .ok (e, rest) ↔ record = e.encode ++ rest := by
  rw [encode_append, decode]
  constructor
  · intro h
    split at h
    next => cases h
    next hlong =>
      simp only [bind_eq_ok_iff, Prod.exists, readField_eq_ok_iff] at h
      obtain ⟨system, s, h₁, target, s, h₂, source, s, h₃, command, s, h₄, arguments, s, h₅, h⟩ := h
      cases h
      have hfront : (record.take timerLength).length = timerLength := by
        rw [List.length_take] at hlong ⊢
        omega
      rw [timerOctets_timerOfOctets hfront, ← h₅, ← h₄, ← h₃, ← h₂, ← h₁, List.take_append_drop]
  · rintro rfl
    rw [List.take_left' (length_timerOctets e.timer), List.drop_left' (length_timerOctets e.timer)]
    simp only [length_timerOctets, Nat.lt_irrefl, if_false, bind_eq_ok_iff, Prod.exists,
      readField_eq_ok_iff]
    refine ⟨_, _, rfl, _, _, rfl, _, _, rfl, _, _, rfl, _, _, rfl, ?_⟩
    rw [timerOfOctets_timerOctets]
    rfl

theorem decode_encode_append (e : Event) (s : Bytes) : decode (e.encode ++ s) = .ok (e, s) :=
  decode_eq_ok_iff.mpr rfl

theorem encode_ne_nil (e : Event) : e.encode ≠ [] := by
  have htimer : 0 < (timerOctets e.timer).length := by
    rw [length_timerOctets]
    decide
  exact List.append_ne_nil_of_left_ne_nil (List.length_pos_iff.mp htimer) _

/-! ## How far a record goes -/

/-- Octets start with a record exactly if there are enough of them for a timer and five NULs after that. A NUL
that is an octet of the timer ends nothing. -/
theorem exists_decode_iff {record : Bytes} :
    (∃ e rest, decode record = .ok (e, rest)) ↔
      8 ≤ record.length ∧ 5 ≤ (record.drop 8).count Ascii.nul := by
  simp only [decode_eq_ok_iff, encode_append]
  constructor
  · rintro ⟨e, rest, rfl⟩
    have htimer : (timerOctets e.timer).length = 8 := length_timerOctets e.timer
    rw [List.drop_left' htimer, List.length_append, htimer]
    simp only [Field.count_nul_append]
    omega
  · rintro ⟨htimer, hcount⟩
    obtain ⟨system, s₁, h₁, hcount⟩ := Field.lt_count_nul_iff.mp hcount
    obtain ⟨target, s₂, h₂, hcount⟩ := Field.lt_count_nul_iff.mp hcount
    obtain ⟨source, s₃, h₃, hcount⟩ := Field.lt_count_nul_iff.mp hcount
    obtain ⟨command, s₄, h₄, hcount⟩ := Field.lt_count_nul_iff.mp hcount
    obtain ⟨arguments, rest, h₅, -⟩ := Field.lt_count_nul_iff.mp hcount
    have hfront : (record.take 8).length = timerLength := List.length_take_of_le htimer
    refine ⟨⟨⟨system, target, source, command, arguments⟩, timerOfOctets (record.take 8)⟩, rest, ?_⟩
    rw [timerOctets_timerOfOctets hfront, ← h₅, ← h₄, ← h₃, ← h₂, ← h₁, List.take_append_drop]

/-- **A record delimits itself.** A record is read back as its event whatever follows it, and nothing of what
follows is taken; it is as long as `encodedLength` says. Any octets are read exactly if there are eight of
them for the timer and five NULs after these. What is taken then is the record of the event that is read,
octet for octet, and all the rest is left. -/
theorem decode_delimits :
    (∀ (e : Event) (s : Bytes), decode (e.encode ++ s) = .ok (e, s) ∧ e.encode.length = e.encodedLength) ∧
    ∀ record : Bytes,
      ((∃ e rest, decode record = .ok (e, rest)) ↔
        8 ≤ record.length ∧ 5 ≤ (record.drop 8).count Ascii.nul) ∧
      ∀ e rest, decode record = .ok (e, rest) →
        record.length - rest.length = e.encodedLength ∧ e.encodedLength ≤ record.length ∧
          record.take e.encodedLength = e.encode ∧ record.drop e.encodedLength = rest := by
  refine ⟨fun e s => ⟨decode_encode_append e s, length_encode e⟩, fun record => ⟨exists_decode_iff, ?_⟩⟩
  intro e rest h
  obtain rfl := decode_eq_ok_iff.mp h
  rw [List.length_append, length_encode, Nat.add_sub_cancel]
  exact ⟨rfl, Nat.le_add_right _ _, List.take_left' (length_encode e), List.drop_left' (length_encode e)⟩

/-- An event whose record has NULs in the timer, and three texts of no octets. -/
def sparse : Event where
  system := ⟨[0x61], by decide⟩
  target := ⟨[], by decide⟩
  source := ⟨[0x62, 0x63], by decide⟩
  command := ⟨[], by decide⟩
  arguments := ⟨[], by decide⟩
  timer := -9223372036854775552

/-- Of twelve NULs, five end texts; the text and the NUL after the fifth are left. -/
theorem decode_delimits_sparse :
    decode [0, 1, 0, 0, 0, 0, 0, 0x80, 0x61, 0, 0, 0x62, 0x63, 0, 0, 0, 0x64, 0] = .ok (sparse, [0x64, 0]) ∧
      sparse.encode = [0, 1, 0, 0, 0, 0, 0, 0x80, 0x61, 0, 0, 0x62, 0x63, 0, 0, 0] ∧
      sparse.encodedLength = 16 := by
  obtain ⟨-, hrecord⟩ := decode_delimits
  have hread : decode [0, 1, 0, 0, 0, 0, 0, 0x80, 0x61, 0, 0, 0x62, 0x63, 0, 0, 0, 0x64, 0] =
      .ok (sparse, [0x64, 0]) := by
    decide
  obtain ⟨hlength, -, htaken, -⟩ := (hrecord _).2 _ _ hread
  have hlength : sparse.encodedLength = 16 := hlength.symm
  rw [hlength] at htaken
  exact ⟨hread, htaken.symm, hlength⟩

end Event

end EventScript
