import EventScript.Proofs.CorruptScripts
import EventScript.Proofs.Utf8RoundTrip

/-!
# Headers under other tags

A version tag has neither a length nor an end of its own, so it is only known by what it starts with. A header
is read back if its tag is the current one. Under another tag it is refused, unless the tag overlaps the current
one: it goes on after that, or it breaks off in it and what follows it completes that. Two tags of one length do
not overlap, and the format has tags of six octets only.

* `exists_countOctets_append`: any octets that are long enough start with a record count.
* `Overlaps`: a tag that is taken for the current one.
* `decode_under_any_tag`: what is read of a header with anything after it.
-/

namespace EventScript.Script.Header

/-- The tag of a header is taken for the current one, with `s` after the header. -/
inductive Overlaps (h : Header) (s : Bytes) : Prop
  /-- The tag goes on after the current one, and the record count is read off what it goes on with. -/
  | longer {more : Bytes} (hne : more ≠ []) (htag : Utf8.encode h.version = Utf8.encode currentVersion ++ more)
  /-- The tag breaks off in the current one. What follows the tag completes that, and holds a record count after
  it. -/
  | shorter {more : Bytes} (hne : more ≠ []) (htag : Utf8.encode h.version ++ more = Utf8.encode currentVersion)
      (hmore : more <+: countOctets h.count ++ s) (hroom : more.length ≤ s.length)

/-- Any octets that are long enough start with a record count. -/
theorem exists_countOctets_append {s : Bytes} (h : countLength ≤ s.length) :
    ∃ count rest, s = countOctets count ++ rest := by
  have hlength : (s.take countLength).length = countLength := List.length_take_of_le h
  refine ⟨UInt32.ofNat (LittleEndian.decode (s.take countLength)), s.drop countLength, ?_⟩
  rw [countOctets_ofNat_decode hlength, List.take_append_drop]

/-- A header with something after it is accepted exactly if it starts like a header of the current version. -/
theorem exists_decode_encode_append_iff {h : Header} {s : Bytes} :
    (∃ h' rest, decode (h.encode ++ s) = .ok (h', rest)) ↔
      ∃ count rest, Utf8.encode h.version ++ (countOctets h.count ++ s) =
        Utf8.encode currentVersion ++ (countOctets count ++ rest) := by
  simp only [decode_eq_ok_iff, encode_append, List.append_right_inj]
  constructor
  · rintro ⟨h', rest, hversion, heq⟩
    exact ⟨h'.count, rest, hversion ▸ heq⟩
  · rintro ⟨count, rest, heq⟩
    exact ⟨⟨currentVersion, count⟩, rest, rfl, heq⟩

theorem overlaps_iff {h : Header} {s : Bytes} (hversion : h.version ≠ currentVersion) :
    Overlaps h s ↔ ∃ h' rest, decode (h.encode ++ s) = .ok (h', rest) := by
  rw [exists_decode_encode_append_iff]
  have htags : Utf8.encode h.version ≠ Utf8.encode currentVersion := by
    intro heq
    have hsame := Utf8.decode?_encode h.version
    rw [heq, Utf8.decode?_encode] at hsame
    exact hversion (Option.some.inj hsame).symm
  constructor
  · rintro (@⟨more, hne, htag⟩ | @⟨more, hne, htag, ⟨after, hafter⟩, hroom⟩)
    · have hlong : countLength ≤ (more ++ (countOctets h.count ++ s)).length := by
        simp only [List.length_append, length_countOctets]
        omega
      obtain ⟨count, rest, heq⟩ := exists_countOctets_append hlong
      exact ⟨count, rest, by rw [htag, List.append_assoc, heq]⟩
    · have hlong : countLength ≤ after.length := by
        have hlength := congrArg List.length hafter
        simp only [List.length_append, length_countOctets] at hlength
        omega
      obtain ⟨count, rest, heq⟩ := exists_countOctets_append hlong
      exact ⟨count, rest, by rw [← htag, List.append_assoc, ← heq, hafter]⟩
  · rintro ⟨count, rest, heq⟩
    rcases List.append_eq_append_iff.mp heq with ⟨more, htag, hmore⟩ | ⟨more, htag, -⟩
    · have hlength := congrArg List.length hmore
      simp only [List.length_append, length_countOctets] at hlength
      refine .shorter ?_ htag.symm ⟨_, hmore.symm⟩ (by omega)
      rintro rfl
      exact htags (by rw [htag, List.append_nil])
    · refine .longer ?_ htag
      rintro rfl
      exact htags (by rw [htag, List.append_nil])

/-- A tag of as many octets as the current one does not overlap it. -/
theorem not_overlaps {h : Header} {s : Bytes} (hlength : (Utf8.encode h.version).length = 6) :
    ¬ Overlaps h s := by
  have hcurrent : (Utf8.encode currentVersion).length = 6 := by decide
  rintro (⟨hne, htag⟩ | ⟨hne, htag, -, -⟩)
  all_goals
    have hsum := congrArg List.length htag
    rw [List.length_append, hlength, hcurrent] at hsum
    exact hne (List.length_eq_zero_iff.mp (by omega))

/-- **Headers under other tags.** Take a header, of any version and count, with any octets after it. If its version
is the current one, it is read back, and the octets after it are left. If not, it is accepted just if its tag
overlaps the current one. Whatever is accepted is a header of the current version that the octets start with; so if
the tag has six octets, it is the header itself. All else is refused as corrupt. -/
theorem decode_under_any_tag (h : Header) (s : Bytes) :
    (h.version = "v0.9.0" → decode (h.encode ++ s) = .ok (h, s)) ∧
    (h.version ≠ "v0.9.0" → ((∃ h' rest, decode (h.encode ++ s) = .ok (h', rest)) ↔ Overlaps h s)) ∧
    (∀ h' rest, decode (h.encode ++ s) = .ok (h', rest) →
      h'.version = "v0.9.0" ∧ h.encode ++ s = h'.encode ++ rest) ∧
    ((Utf8.encode h.version).length = 6 →
      ∀ h' rest, decode (h.encode ++ s) = .ok (h', rest) → h' = h ∧ rest = s) ∧
    ∀ c, decode (h.encode ++ s) = .error c → c.fault.kind = .corrupt := by
  have hown (hversion : h.version = currentVersion) : decode (h.encode ++ s) = .ok (h, s) :=
    decode_eq_ok_iff.mpr ⟨hversion, rfl⟩
  refine ⟨hown, fun hversion => (overlaps_iff hversion).symm, fun h' rest => decode_eq_ok_iff.mp, ?_,
    fun c _ => c.kind_fault⟩
  intro hlength h' rest hdecode
  by_cases hversion : h.version = currentVersion
  · cases hdecode.symm.trans (hown hversion)
    exact ⟨rfl, rfl⟩
  · exact absurd ((overlaps_iff hversion).mpr ⟨h', rest, hdecode⟩) (not_overlaps hlength)

/-- A tag of six octets that is not the current one is refused. -/
theorem decode_under_other_tag :
    (Utf8.encode "v0.9.1").length = 6 ∧
      ∃ c, decode ((⟨"v0.9.1", 1⟩ : Header).encode ++ []) = .error c ∧ c.fault.kind = .corrupt := by
  have hlength : (Utf8.encode "v0.9.1").length = 6 := by decide
  obtain ⟨-, -, hcurrent, hsix, hcorrupt⟩ := decode_under_any_tag ⟨"v0.9.1", 1⟩ []
  refine ⟨hlength, ?_⟩
  cases hdecode : decode ((⟨"v0.9.1", 1⟩ : Header).encode ++ []) with
  | error c => exact ⟨c, rfl, hcorrupt c hdecode⟩
  | ok read =>
    obtain ⟨h', rest⟩ := read
    obtain ⟨hversion, -⟩ := hcurrent h' rest hdecode
    obtain ⟨rfl, -⟩ := hsix hlength h' rest hdecode
    exact absurd hversion (by decide)

/-- A header whose tag goes on after the current one is read under that, with a record count that starts in the
tag. -/
theorem decode_under_longer_tag :
    decode ((⟨"v0.9.01", 1⟩ : Header).encode ++ []) = .ok (⟨"v0.9.0", 305⟩, [0]) ∧
      (⟨"v0.9.0", 305⟩ : Header) ≠ ⟨"v0.9.01", 1⟩ ∧ ([0] : Bytes) ≠ [] := by
  decide

end EventScript.Script.Header
