import EventScript.Proofs.Utf8RoundTrip
import EventScript.Report

/-!
# Arguments in one text and as a list

The arguments of an event are shown twice: the text as it is, and the list of its parts between semicolons.
Octets that are not UTF-8 are replaced in the whole text and in every part apart. A character that the end of
a part cuts off is ended in the whole text by the semicolon, so both show the same.

* `length_splitOn`, `notMem_of_mem_splitOn`: a list falls into one part more than it has delimiters, and none
  is left in a part.
* `Utf8.lossyChars_intercalate`, `Utf8.mem_of_mem_lossyChars`: what is shown for octets joined by an ASCII
  octet, and that such an octet is shown only where it is.
* `Utf8.lossyChars_splitOn`: octets can be replaced before they are divided or after.
* `argumentList_divides`: the list of arguments, and what is shown for it, divide the text of the arguments,
  and what is shown for that.
-/

namespace EventScript

/-! ## Dividing lists -/

section

variable {α : Type} [BEq α]

theorem length_splitOn (a : α) (l : List α) : (l.splitOn a).length = l.count a + 1 := by
  induction l with
  | nil => rfl
  | cons x l ih =>
    rw [List.splitOn_cons_eq_if_modifyHead, List.count_cons]
    split <;> simp [ih]

theorem notMem_of_mem_splitOn [LawfulBEq α] {a : α} {l part : List α} (h : part ∈ l.splitOn a) : a ∉ part := by
  induction l generalizing part with
  | nil =>
    rw [List.splitOn_nil, List.mem_singleton] at h
    simp [h]
  | cons x l ih =>
    rw [List.splitOn_cons_eq_if_modifyHead] at h
    split at h
    next =>
      rcases List.mem_cons.mp h with rfl | h
      · exact List.not_mem_nil
      · exact ih h
    next hx =>
      -- what is not the delimiter belongs to the first part
      obtain ⟨first, parts, hparts⟩ := List.exists_cons_of_ne_nil (List.splitOn_ne_nil a l)
      rw [hparts] at h ih
      rcases List.mem_cons.mp h with rfl | h
      · rw [List.mem_cons, not_or]
        exact ⟨fun hax => hx (beq_iff_eq.mpr hax.symm), ih List.mem_cons_self⟩
      · exact ih (List.mem_cons_of_mem _ h)

end

/-! ## Dividing what is shown -/

namespace Utf8

variable {b : UInt8}

/-- An ASCII character is shown only for its octet. -/
theorem mem_of_mem_lossyChars (hb : b < 0x80) {bs : Bytes} (h : Char.ofNat b.toNat ∈ lossyChars bs) :
    b ∈ bs := by
  obtain ⟨piece, hpiece, hshown⟩ := List.mem_map.mp h
  rw [← flatMap_octets_pieces bs, List.mem_flatMap]
  refine ⟨piece, hpiece, ?_⟩
  cases piece with
  | char c =>
    have hc : c = Char.ofNat b.toNat := hshown
    rw [Piece.octets, hc, utf8EncodeChar_ascii hb]
    exact List.mem_singleton_self b
  | invalid octets =>
    have hlt : b.toNat < 0x80 := hb
    have hcode : 0xFFFD = (Char.ofNat b.toNat).toNat := congrArg Char.toNat hshown
    rw [toNat_ofNat_ascii hlt] at hcode
    omega

theorem lossyChars_append_ascii (xs : Bytes) (hb : b < 0x80) (ys : Bytes) :
    lossyChars (xs ++ b :: ys) = lossyChars xs ++ Char.ofNat b.toNat :: lossyChars ys := by
  simp [lossyChars, pieces_append_ascii xs hb ys, Piece.shown]

theorem lossyChars_intercalate (hb : b < 0x80) (parts : List Bytes) :
    lossyChars ([b].intercalate parts) = [Char.ofNat b.toNat].intercalate (parts.map lossyChars) := by
  induction parts with
  | nil => rfl
  | cons part parts ih =>
    cases parts with
    | nil => simp
    | cons next parts =>
      rw [List.intercalate_cons_cons, List.append_assoc, List.singleton_append,
        lossyChars_append_ascii part hb, ih]
      simp

/-- Octets that are not UTF-8 can be replaced before the octets are divided at an ASCII octet, or after. -/
theorem lossyChars_splitOn (hb : b < 0x80) (bs : Bytes) :
    (lossyChars bs).splitOn (Char.ofNat b.toNat) = (bs.splitOn b).map lossyChars := by
  have hparts : ∀ part ∈ (bs.splitOn b).map lossyChars, Char.ofNat b.toNat ∉ part := by
    intro shown hshown hmem
    obtain ⟨part, hpart, rfl⟩ := List.mem_map.mp hshown
    exact notMem_of_mem_splitOn hpart (mem_of_mem_lossyChars hb hmem)
  have hne : (bs.splitOn b).map lossyChars ≠ [] := by
    simp
  have hjoined := lossyChars_intercalate hb (bs.splitOn b)
  rw [List.intercalate_splitOn] at hjoined
  rw [hjoined, List.splitOn_intercalate _ hparts hne]

/-- A character that is cut off before a semicolon is replaced once, on whichever side the end is seen. -/
example : lossyChars [0xE2, 0x82, 0x3B, 0x82, 0x41] = ['\uFFFD', ';', '\uFFFD', 'A'] := by
  decide

theorem split_lossy (octets : Bytes) :
    ((lossy octets).split ';').toList.map String.Slice.copy =
      (octets.splitOn Ascii.semicolon).map lossy := by
  have hchars : (lossyChars octets).splitOn ';' = (octets.splitOn Ascii.semicolon).map lossyChars :=
    lossyChars_splitOn (b := Ascii.semicolon) (by decide) octets
  rw [String.toList_split_char, lossy, String.toList_ofList, hchars, List.map_map]
  rfl

end Utf8

/-! ## Arguments -/

/-- Octets are divided into parts at every semicolon. -/
structure Divides (parts : List Bytes) (octets : Bytes) : Prop where
  length : parts.length = octets.count Ascii.semicolon + 1
  undivided : ∀ part ∈ parts, Ascii.semicolon ∉ part
  joined : [Ascii.semicolon].intercalate parts = octets

theorem divides_splitOn (octets : Bytes) : Divides (octets.splitOn Ascii.semicolon) octets where
  length := length_splitOn Ascii.semicolon octets
  undivided _ hpart := notMem_of_mem_splitOn hpart
  joined := List.intercalate_splitOn Ascii.semicolon

/-- **Two views of the arguments.** The argument list of an event divides its arguments text: it has one part more
than there are semicolons, none of them in a part, and the parts joined by semicolons are the text. In the JSON
object of the event, the string of the arguments divided at its semicolons is the array of the arguments, with
U+FFFD for what is not UTF-8 in either. The same holds of any octets, also of those that no text of an event
may be. -/
theorem argumentList_divides (e : Event) (index : Nat) :
    Divides e.argumentList e.arguments.octets ∧
    (∃ members text texts, e.json index = .object members ∧
      members.lookup "arguments" = some (.string text) ∧
      members.lookup "args" = some (.array (texts.map .string)) ∧
      (text.split ';').toList.map String.Slice.copy = texts ∧
      text = Utf8.lossy e.arguments.octets ∧ texts = e.argumentList.map Utf8.lossy) ∧
    ∀ octets : Bytes, Divides (octets.splitOn Ascii.semicolon) octets ∧
      ((Utf8.lossy octets).split ';').toList.map String.Slice.copy =
        (octets.splitOn Ascii.semicolon).map Utf8.lossy := by
  refine ⟨divides_splitOn _, ?_, fun octets => ⟨divides_splitOn octets, Utf8.split_lossy octets⟩⟩
  refine ⟨_, Utf8.lossy e.arguments.octets, e.argumentList.map Utf8.lossy, rfl, rfl, ?_,
    Utf8.split_lossy _, rfl, rfl⟩
  rw [List.map_map]
  rfl

end EventScript
