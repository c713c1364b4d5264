import EventScript.Build
import EventScript.Proofs.WorkDirectory

/-!
# Where scripts go by default

A script goes next to its table, under the stem of the table's file name and the extension of scripts. Octets are
first taken off the end of the path for the old extension, which may be fewer than belong to it, if the path has
an insignificant end, and may leave a name that is none, if the stem is one dot.

* `Path.stemAndExtension_cases`: a file name is its stem, or its stem, a dot and its extension.
* `Path.split?_append`: a directory and a name put together are cut there.
* `Path.trim_append_take`: of an insignificant end, any front is insignificant.
* `Path.split?_take`: what is left of a path when octets for its extension are taken off.
* `Path.withExtension_eq`: what a path becomes with another extension.
* `Job.defaultOutput_keeps_stem`: what the path of a script has in common with that of its table.
-/

namespace EventScript

namespace Path

variable {path front name stem extension : Bytes}

/-! ## Stems and extensions -/

theorem ne_dot_of_notMem {s : Bytes} (h : Ascii.dot ∉ s) : ∀ b ∈ s, (b != Ascii.dot) = true := by
  intro b hb
  rw [bne_iff_ne]
  rintro rfl
  exact h hb

theorem stemAndExtension_append (hstem : stem ≠ []) (hextension : Ascii.dot ∉ extension) :
    stemAndExtension (stem ++ Ascii.dot :: extension) = (stem, some extension) := by
  have hpos := ne_dot_of_notMem (s := extension.reverse) (by simpa using hextension)
  have hreverse : (stem ++ Ascii.dot :: extension).reverse =
      extension.reverse ++ Ascii.dot :: stem.reverse := by
    simp
  have hfront : (Ascii.dot :: stem.reverse).reverse.dropLast = stem := by simp
  rw [stemAndExtension, hreverse, List.takeWhile_append_of_pos hpos, List.dropWhile_append_of_pos hpos,
    List.takeWhile_cons_of_neg (by simp), List.dropWhile_cons_of_neg (by simp), hfront, List.append_nil,
    List.reverse_reverse]
  cases stem with
  | nil => exact absurd rfl hstem
  | cons b rest => rfl

theorem stemAndExtension_of_notMem (h : Ascii.dot ∉ name) : stemAndExtension name = (name, none) := by
  have hpos := ne_dot_of_notMem (s := name.reverse) (by simpa using h)
  rw [stemAndExtension, List.dropWhile_eq_nil_iff.mpr hpos]
  rfl

/-- A dot that a file name starts with begins no extension. -/
theorem stemAndExtension_dot_cons (h : Ascii.dot ∉ name) :
    stemAndExtension (Ascii.dot :: name) = (Ascii.dot :: name, none) := by
  have hpos := ne_dot_of_notMem (s := name.reverse) (by simpa using h)
  rw [stemAndExtension, List.reverse_cons, List.dropWhile_append_of_pos hpos,
    List.dropWhile_cons_of_neg (by simp)]
  rfl

/-- A file name is its stem, or its stem, a dot and its extension. -/
theorem stemAndExtension_cases (name : Bytes) :
    stemAndExtension name = (name, none) ∨
      ∃ stem extension, name = stem ++ Ascii.dot :: extension ∧ stem ≠ [] ∧ Ascii.dot ∉ extension ∧
        stemAndExtension name = (stem, some extension) := by
  by_cases hdot : Ascii.dot ∈ name
  · obtain ⟨after, before, hreverse, hafter⟩ := List.eq_append_cons_of_mem (List.mem_reverse.mpr hdot)
    have hname : name = before.reverse ++ Ascii.dot :: after.reverse := by
      rw [← List.reverse_reverse name, hreverse]
      simp
    have hextension : Ascii.dot ∉ after.reverse := by simpa using hafter
    by_cases hstem : before.reverse = []
    · rw [hstem, List.nil_append] at hname
      exact .inl (hname ▸ stemAndExtension_dot_cons hextension)
    · exact .inr ⟨_, _, hname, hstem, hextension, hname ▸ stemAndExtension_append hstem hextension⟩
  · exact .inl (stemAndExtension_of_notMem hdot)

/-! ## Directory and name -/

/-- What comes before the name of an entry: nothing, or a path that ends with a slash. -/
def IsFront (front : Bytes) : Prop :=
  front = [] ∨ ∃ path, front = path ++ [Ascii.slash]

/-- The name of an entry: a component that is neither of the dot names. -/
structure IsEntryName (name : Bytes) : Prop where
  noSlash : Ascii.slash ∉ name
  nonempty : name ≠ []
  notHere : name ≠ here
  notUp : name ≠ up

theorem isName_of_notMem {s : Bytes} (h : Ascii.slash ∉ s) : ∀ b ∈ s, isName b = true := by
  intro b hb
  rw [isName, bne_iff_ne]
  rintro rfl
  exact h hb

/-- A path is cut after its last slash. -/
theorem names_append (hfront : IsFront front) (hname : Ascii.slash ∉ name) :
    lastName (front ++ name) = name ∧ beforeName (front ++ name) = front := by
  have hpos := isName_of_notMem (s := name.reverse) (by simpa using hname)
  rw [lastName, beforeName, List.reverse_append, List.takeWhile_append_of_pos hpos,
    List.dropWhile_append_of_pos hpos]
  rcases hfront with rfl | ⟨path, rfl⟩
  · simp
  · have hslash : ¬ isName Ascii.slash = true := by decide
    rw [List.reverse_concat, List.takeWhile_cons_of_neg hslash, List.dropWhile_cons_of_neg hslash]
    simp

/-- A directory and a name put together are cut there. -/
theorem split?_append (hfront : IsFront front) (hname : IsEntryName name) :
    trim (front ++ name) = front ++ name ∧ split? (front ++ name) = some (front, name) := by
  obtain ⟨hlast, hbefore⟩ := names_append hfront hname.noSlash
  have htrim : trim (front ++ name) = front ++ name :=
    trim_eq_self (by rw [hlast]; exact hname.nonempty) (by rw [hlast]; exact hname.notHere)
  refine ⟨htrim, ?_⟩
  simp only [split?, htrim, hlast, hbefore]
  rw [if_neg]
  rintro (h | h | h)
  · exact hname.nonempty h
  · exact hname.notHere h
  · exact hname.notUp h

/-- The directory above has no file name. -/
theorem split?_append_up (hfront : IsFront front) : split? (front ++ up) = none := by
  have hlast := (names_append hfront (show Ascii.slash ∉ up by decide)).1
  have htrim : trim (front ++ up) = front ++ up :=
    trim_eq_self (by rw [hlast]; decide) (by rw [hlast]; decide)
  simp only [split?, htrim, hlast]
  rw [if_pos (.inr (.inr trivial))]

theorem isFront_and_isEntryName (h : split? path = some (front, name)) : IsFront front ∧ IsEntryName name := by
  simp only [split?] at h
  split at h
  next => cases h
  next hnot =>
    cases h
    refine ⟨beforeName_cases _, slash_notMem_lastName _, fun h => hnot (.inl h), fun h => hnot (.inr (.inl h)),
      fun h => hnot (.inr (.inr h))⟩

/-! ## Insignificant ends -/

theorem trimReversed_append_of_suffix {tail tail' rest : Bytes} (h : trimReversed (tail ++ rest) = rest)
    (hsuffix : tail' <:+ tail) : trimReversed (tail' ++ rest) = rest := by
  induction tail with
  | nil => rwa [List.suffix_nil.mp hsuffix]
  | cons b tail ih =>
    rcases List.suffix_cons_iff.mp hsuffix with rfl | hsuffix
    · exact h
    refine ih ?_ hsuffix
    rw [List.cons_append] at h
    cases hmore : tail ++ rest with
    | nil =>
      rw [(List.append_eq_nil_iff.mp hmore).2]
      rfl
    | cons c more =>
      rw [hmore, trimReversed] at h
      split_ifs at h
      · exact h
      · exact h
      · -- nothing would be trimmed, but the rest is shorter by `b` and the tail
        have hlength := congrArg List.length h
        rw [← hmore, List.length_cons, List.length_append] at hlength
        omega

/-- Of an insignificant end, any front is insignificant. -/
theorem trim_append_take {tail : Bytes} (h : trim path ++ tail = path) (n : Nat) :
    trim (trim path ++ tail.take n) = trim path := by
  have htrim : trimReversed (tail.reverse ++ (trim path).reverse) = (trim path).reverse := by
    rw [← List.reverse_append, h, trim, List.reverse_reverse]
  have hsuffix : (tail.take n).reverse <:+ tail.reverse := List.reverse_suffix.mpr (List.take_prefix n tail)
  have htake := trimReversed_append_of_suffix htrim hsuffix
  rw [← List.reverse_append] at htake
  conv_lhs => rw [trim, htake, List.reverse_reverse]

/-! ## Other extensions -/

theorem setExtension_eq (h : split? path = some (front, name)) :
    setExtension extension path = front ++ ((stemAndExtension name).1 ++ Ascii.dot :: extension) := by
  simp only [setExtension, h, List.append_assoc]

theorem split?_congr {path' : Bytes} (h : trim path = trim path') : split? path = split? path' := by
  simp only [split?, h]

theorem extension?_eq (h : split? path = some (front, name)) : extension? path = (stemAndExtension name).2 := by
  simp only [extension?, fileName?, h, Option.map_some, Option.bind_some]

theorem stem?_eq (h : split? path = some (front, name)) : stem? path = some (stemAndExtension name).1 := by
  simp only [stem?, fileName?, h, Option.map_some]

/-- A stem, a dot and what is left of an extension are the name of an entry, unless they are two dots. -/
theorem IsEntryName.take {rest : Bytes} (h : IsEntryName (stem ++ Ascii.dot :: rest)) (hstem : stem ≠ [])
    (n : Nat) (hup : stem ++ Ascii.dot :: rest.take n ≠ up) : IsEntryName (stem ++ Ascii.dot :: rest.take n) where
  noSlash := by
    intro hslash
    apply h.noSlash
    rcases List.mem_append.mp hslash with hmem | hmem
    · exact List.mem_append_left _ hmem
    · refine List.mem_append_right _ ?_
      rcases List.mem_cons.mp hmem with heq | hmem
      · exact heq ▸ List.mem_cons_self
      · exact List.mem_cons_of_mem _ (List.mem_of_mem_take hmem)
  nonempty := by simp
  notHere := by
    intro hhere
    have hlength := congrArg List.length hhere
    have hpos := List.length_pos_iff.mpr hstem
    simp only [here, List.length_append, List.length_cons, List.length_nil] at hlength
    omega
  notUp := hup

/-- Where a path is cut to take its old extension off: after its directory, its stem, the dot and as much of the
extension as the insignificant end is long. -/
theorem take_extension {old tail : Bytes} (htrim : front ++ (stem ++ Ascii.dot :: old) = trim path)
    (htail : trim path ++ tail = path) (hshort : tail.length ≤ old.length) :
    path.take (path.length - old.length) = front ++ (stem ++ Ascii.dot :: old.take tail.length) := by
  have hpath : path = (front ++ (stem ++ [Ascii.dot])) ++ (old ++ tail) := by
    rw [← htail, ← htrim]
    simp
  have hlength : path.length - old.length = (front ++ (stem ++ [Ascii.dot])).length + tail.length := by
    have := congrArg List.length hpath
    simp only [List.length_append] at this ⊢
    omega
  rw [hlength]
  conv_lhs => rw [hpath]
  rw [List.take_length_add_append, List.take_append_of_le_length hshort]
  simp

/-- Where a path is cut to take its old extension off, it has the same directory and stem, and of the extension so
much as the insignificant end is long, unless that leaves two dots. -/
theorem split?_take {old tail : Bytes} (h : split? path = some (front, stem ++ Ascii.dot :: old))
    (hstem : stem ≠ []) (htail : trim path ++ tail = path)
    (hup : stem ++ Ascii.dot :: old.take tail.length ≠ up) :
    split? (path.take (path.length - old.length)) = some (front, stem ++ Ascii.dot :: old.take tail.length) := by
  obtain ⟨hfront, hname⟩ := isFront_and_isEntryName h
  rcases le_total old.length tail.length with hlong | hshort
  · -- the end is long enough, so only of it octets are taken
    have hcut : path.take (path.length - old.length) = trim path ++ tail.take (tail.length - old.length) := by
      conv_lhs => rw [← htail]
      rw [List.length_append, Nat.add_sub_assoc hlong, List.take_length_add_append]
    rw [hcut, split?_congr (trim_append_take htail _), h, List.take_of_length_le hlong]
  · rw [take_extension (split?_eq_some h) htail hshort]
    exact (split?_append hfront (hname.take hstem _ hup)).2

/-- Two dots are a stem, a dot and an extension only in one way. -/
theorem eq_here_of_append_eq_up (hstem : stem ≠ []) (h : stem ++ Ascii.dot :: extension = up) :
    stem = here ∧ extension = [] := by
  cases stem with
  | nil => exact absurd rfl hstem
  | cons b stem =>
    cases stem with
    | nil => simpa [up, here] using h
    | cons c stem => simp [up] at h

/-- A path with another extension is its directory, its stem, a dot and that, unless its stem is a single dot and
nothing at its end is insignificant. -/
theorem withExtension_eq (h : split? path = some (front, name)) :
    withExtension extension path =
      if (stemAndExtension name).1 = here ∧ trim path = path then front ++ up
      else front ++ ((stemAndExtension name).1 ++ Ascii.dot :: extension) := by
  obtain ⟨hfront, hname⟩ := isFront_and_isEntryName h
  obtain ⟨tail, htail⟩ := trim_isPrefix path
  rcases stemAndExtension_cases name with hnone | ⟨stem, old, rfl, hstem, hold, hsome⟩
  · rw [withExtension, extension?_eq h, hnone, if_neg fun hdot => hname.notHere hdot.1]
    rw [setExtension_eq h, hnone]
  rw [withExtension, extension?_eq h, hsome]
  dsimp only
  by_cases hup : stem ++ Ascii.dot :: old.take tail.length = up
  · -- nothing is left of the extension, and since there was one, nothing was insignificant
    obtain ⟨rfl, hleft⟩ := eq_here_of_append_eq_up hstem hup
    have hnil : tail = [] := by
      rcases List.take_eq_nil_iff.mp hleft with hlength | rfl
      · exact List.length_eq_zero_iff.mp hlength
      · exact absurd rfl hname.notUp
    subst hnil
    rw [take_extension (split?_eq_some h) htail (Nat.zero_le _), hup, setExtension, split?_append_up hfront,
      if_pos ⟨rfl, by rwa [List.append_nil] at htail⟩]
  · have hrest : Ascii.dot ∉ old.take tail.length := fun hmem => hold (List.mem_of_mem_take hmem)
    rw [setExtension_eq (split?_take h hstem htail hup), stemAndExtension_append hstem hrest, if_neg]
    rintro ⟨rfl, hwhole⟩
    rw [hwhole, List.append_right_eq_self] at htail
    exact hup (by rw [htail]; rfl)

/-! ## What another extension keeps -/

/-- The parent of a path is told by what comes before its file name. -/
theorem parent?_eq (h : split? path = some (front, name)) :
    parent? path =
      some (if trim front = [] ∧ front.head? = some Ascii.slash then [Ascii.slash] else trim front) := by
  obtain ⟨hfront, hname⟩ := isFront_and_isEntryName h
  have htrim := split?_eq_some h
  have hne : trim path ≠ [] := by
    rw [← htrim]
    exact List.append_ne_nil_of_right_ne_nil _ hname.nonempty
  have hbefore : beforeName (trim path) = front := by
    rw [← htrim]
    exact (names_append hfront hname.noSlash).2
  have habsolute : path.head? = some Ascii.slash ↔ front.head? = some Ascii.slash := by
    rw [← FileTree.head?_of_isPrefix (trim_isPrefix path) hne, ← htrim]
    cases front with
    | cons b front => rfl
    | nil =>
      refine iff_of_false (fun hhead => ?_) (by simp)
      exact hname.noSlash (List.mem_of_mem_head? hhead)
  rw [parent?, if_neg hne]
  simp only [hbefore, habsolute]

/-- The name of an entry has a stem, which it starts with. -/
theorem IsEntryName.starts (h : IsEntryName name) :
    (stemAndExtension name).1 ≠ [] ∧ (stemAndExtension name).1 <+: name := by
  rcases stemAndExtension_cases name with hnone | ⟨stem, extension, rfl, hstem, -, hsome⟩
  · rw [hnone]
    exact ⟨h.nonempty, List.prefix_refl name⟩
  · rw [hsome]
    exact ⟨hstem, List.prefix_append _ _⟩

/-- A stem, a dot and an extension that is not empty and has no slash are the name of an entry. -/
theorem IsEntryName.stem_append (h : IsEntryName name) (hne : extension ≠ []) (hslash : Ascii.slash ∉ extension) :
    IsEntryName ((stemAndExtension name).1 ++ Ascii.dot :: extension) := by
  obtain ⟨hstem, hstart⟩ := h.starts
  have hpos := List.length_pos_iff.mpr hstem
  refine ⟨fun hmem => ?_, by simp, fun heq => ?_, fun heq => hne (eq_here_of_append_eq_up hstem heq).2⟩
  · rcases List.mem_append.mp hmem with hmem | hmem
    · exact h.noSlash (hstart.subset hmem)
    · exact hslash (List.mem_of_ne_of_mem (by decide) hmem)
  · have hlength := congrArg List.length heq
    simp only [here, List.length_append, List.length_cons, List.length_nil] at hlength
    omega

theorem withExtension_of_fileName?_eq_none (h : fileName? path = none) : withExtension extension path = path := by
  have hsplit : split? path = none := Option.map_eq_none_iff.mp h
  simp only [withExtension, extension?, h, Option.bind_none, setExtension, hsplit]

/-- An extension that is not empty and has neither dots nor slashes. -/
structure IsPlain (extension : Bytes) : Prop where
  noDot : Ascii.dot ∉ extension
  noSlash : Ascii.slash ∉ extension
  nonempty : extension ≠ []

/-- Whether taking the extension off leaves no file name: the stem is a dot, and nothing at the end of the path is
insignificant, so that two dots are left. -/
def LosesName (path : Bytes) : Prop :=
  stem? path = some here ∧ trim path = path

/-- Unless the name is lost, a path with another extension is cut into the same directory and a name with the same
stem. -/
theorem split?_withExtension (hplain : IsPlain extension) (h : split? path = some (front, name))
    (hkeep : ¬ LosesName path) :
    withExtension extension path = front ++ ((stemAndExtension name).1 ++ Ascii.dot :: extension) ∧
      trim (withExtension extension path) = withExtension extension path ∧
      split? (withExtension extension path) = some (front, (stemAndExtension name).1 ++ Ascii.dot :: extension) := by
  obtain ⟨hfront, hname⟩ := isFront_and_isEntryName h
  have heq : withExtension extension path = front ++ ((stemAndExtension name).1 ++ Ascii.dot :: extension) := by
    rw [withExtension_eq h, if_neg fun hlost => hkeep ⟨(stem?_eq h).trans (congrArg some hlost.1), hlost.2⟩]
  obtain ⟨htrim, hsplit⟩ := split?_append hfront (hname.stem_append hplain.nonempty hplain.noSlash)
  rw [heq]
  exact ⟨rfl, htrim, hsplit⟩

theorem exists_split?_of_stem? (h : stem? path = some stem) :
    ∃ front name, split? path = some (front, name) ∧ (stemAndExtension name).1 = stem := by
  obtain ⟨name, hfile, hname⟩ := Option.map_eq_some_iff.mp h
  obtain ⟨⟨front, _⟩, hsplit, rfl⟩ := Option.map_eq_some_iff.mp hfile
  exact ⟨front, _, hsplit, hname⟩

/-- Another extension leaves the directory and the stem, unless the name is lost. -/
theorem withExtension_keeps (hplain : IsPlain extension) (h : stem? path = some stem) (hkeep : ¬ LosesName path) :
    parent? (withExtension extension path) = parent? path ∧ stem? (withExtension extension path) = some stem ∧
      extension? (withExtension extension path) = some extension := by
  obtain ⟨front, name, hsplit, rfl⟩ := exists_split?_of_stem? h
  obtain ⟨-, -, hout⟩ := split?_withExtension hplain hsplit hkeep
  have hname := stemAndExtension_append (isFront_and_isEntryName hsplit).2.starts.1 hplain.noDot
  rw [parent?_eq hout, parent?_eq hsplit, stem?_eq hout, extension?_eq hout, hname]
  exact ⟨rfl, rfl, rfl⟩

/-- Where the name is lost, the path was a directory, two dots and an extension, and the last is cut off. -/
theorem withExtension_of_losesName (extension : Bytes) (h : LosesName path) :
    ∃ front old, path = front ++ (up ++ old) ∧ withExtension extension path = front ++ up ∧
      fileName? (withExtension extension path) = none := by
  obtain ⟨hdot, htrim⟩ := h
  obtain ⟨front, name, hsplit, hname⟩ := exists_split?_of_stem? hdot
  obtain ⟨hfront, hentry⟩ := isFront_and_isEntryName hsplit
  have hout : withExtension extension path = front ++ up := by
    rw [withExtension_eq hsplit, if_pos ⟨hname, htrim⟩]
  rcases stemAndExtension_cases name with hnone | ⟨stem, old, rfl, -, -, hsome⟩
  · rw [hnone] at hname
    exact absurd hname hentry.notHere
  · rw [hsome] at hname
    obtain rfl : stem = here := hname
    have hpath : path = front ++ (here ++ Ascii.dot :: old) := htrim.symm.trans (split?_eq_some hsplit).symm
    refine ⟨front, old, hpath, hout, ?_⟩
    rw [hout, fileName?, split?_append_up hfront]
    rfl

/-- Putting an extension twice is putting it once, unless the name is lost the second time only. -/
theorem withExtension_withExtension_iff (hplain : IsPlain extension) :
    withExtension extension (withExtension extension path) = withExtension extension path ↔
      ¬ (stem? path = some here ∧ trim path ≠ path) := by
  cases hstem : stem? path with
  | none =>
    have hfile : fileName? path = none := Option.map_eq_none_iff.mp hstem
    simp [withExtension_of_fileName?_eq_none hfile]
  | some stem =>
    by_cases hlost : LosesName path
    · obtain ⟨-, -, -, -, hnone⟩ := withExtension_of_losesName extension hlost
      exact iff_of_true (withExtension_of_fileName?_eq_none hnone) fun h => h.2 hlost.2
    · obtain ⟨front, name, hsplit, rfl⟩ := exists_split?_of_stem? hstem
      obtain ⟨heq, htrim, hout⟩ := split?_withExtension hplain hsplit hlost
      have hname := stemAndExtension_append (isFront_and_isEntryName hsplit).2.starts.1 hplain.noDot
      rw [withExtension_eq hout, hname, htrim]
      by_cases hdot : (stemAndExtension name).1 = here
      · have hends : trim path ≠ path := fun htrim => hlost ⟨hstem.trans (congrArg some hdot), htrim⟩
        have hne : front ++ up ≠ front ++ (here ++ Ascii.dot :: extension) := fun hsame =>
          hplain.nonempty (by simpa [up, here] using hsame)
        simp [hdot, hends, heq, hne]
      · simp [hdot, heq]

end Path

/-! ## Scripts next to their tables -/

theorem isPlain_scriptExtension : Path.IsPlain Job.scriptExtension where
  noDot := by decide
  noSlash := by decide
  nonempty := by decide

namespace Job

open EventScript.Path

theorem resolveFormat_ofInput (path : Bytes) :
    (ofInput path).resolveFormat = (Table.Format.ofPath path).mapError fun u => u.fault path :=
  rfl

/-- The path of a script tells no format of tables. -/
theorem ofPath_defaultOutput (path : Bytes) (h : fileName? path ≠ none) :
    ∃ u, Table.Format.ofPath (defaultOutput path) = .error u := by
  have hstem : stem? path ≠ none := by simpa [stem?] using h
  obtain ⟨stem, hstem⟩ := Option.ne_none_iff_exists'.mp hstem
  by_cases hlost : LosesName path
  · obtain ⟨-, -, -, -, hnone⟩ := withExtension_of_losesName scriptExtension hlost
    refine ⟨.noExtension, ?_⟩
    rw [Table.Format.ofPath, extension?, defaultOutput, hnone]
    rfl
  · obtain ⟨-, -, hext⟩ := withExtension_keeps isPlain_scriptExtension hstem hlost
    refine ⟨.unsupported scriptExtension, ?_⟩
    rw [Table.Format.ofPath, defaultOutput, hext]
    decide

/-- A script goes to the directory of its table, under the stem of the table's file name and the extension of
scripts. A table whose file name is a dot, a dot and an extension, with nothing insignificant after it, has its
script sent to the directory above instead; with such an end, taking the script for a table sends the next script
there. A path that tells a format of tables is never where its script goes, and that path tells none. -/
theorem defaultOutput_keeps_stem (path : Bytes) :
    (fileName? path = none → defaultOutput path = path) ∧
    (∀ stem, stem? path = some stem → ¬ (stem = here ∧ trim path = path) →
      parent? (defaultOutput path) = parent? path ∧ stem? (defaultOutput path) = some stem ∧
        extension? (defaultOutput path) = some (Utf8.encode "sdf")) ∧
    (stem? path = some here → trim path = path →
      ∃ front extension, path = front ++ (up ++ extension) ∧ defaultOutput path = front ++ up ∧
        fileName? (defaultOutput path) = none) ∧
    (defaultOutput (defaultOutput path) = defaultOutput path ↔ ¬ (stem? path = some here ∧ trim path ≠ path)) ∧
    ∀ format, (ofInput path).resolveFormat = .ok format →
      fileName? (ofInput path).output ≠ fileName? path ∧ (ofInput path).output ≠ (ofInput path).input ∧
        ∃ e, (ofInput (ofInput path).output).resolveFormat = .error e ∧ e.kind = .format := by
  refine ⟨withExtension_of_fileName?_eq_none, fun stem hstem hkeep => ?_,
    fun hdot htrim => withExtension_of_losesName _ ⟨hdot, htrim⟩,
    withExtension_withExtension_iff isPlain_scriptExtension, fun format hformat => ?_⟩
  · refine withExtension_keeps isPlain_scriptExtension hstem fun hlost => hkeep ⟨?_, hlost.2⟩
    exact Option.some.inj (hstem.symm.trans hlost.1)
  · rw [resolveFormat_ofInput] at hformat
    cases htells : Table.Format.ofPath path with
    | error u => rw [htells] at hformat; cases hformat
    | ok told =>
      have hfile : fileName? path ≠ none := by
        intro hnone
        rw [Table.Format.ofPath, extension?, hnone] at htells
        cases htells
      obtain ⟨u, hu⟩ := ofPath_defaultOutput path hfile
      have hname : fileName? (defaultOutput path) ≠ fileName? path := by
        intro hsame
        have hboth : Table.Format.ofPath (defaultOutput path) = Table.Format.ofPath path := by
          simp only [Table.Format.ofPath, extension?, hsame]
        rw [hu, htells] at hboth
        cases hboth
      refine ⟨hname, fun hsame => hname (congrArg fileName? hsame), u.fault (defaultOutput path), ?_, rfl⟩
      rw [resolveFormat_ofInput]
      exact congrArg _ hu

/-- The script of `a/..csv/` goes to `a/..sdf`. -/
theorem defaultOutput_keeps_stem_dotStem :
    stem? (Utf8.encode "a/..csv/") = some here ∧ trim (Utf8.encode "a/..csv/") ≠ Utf8.encode "a/..csv/" ∧
      defaultOutput (Utf8.encode "a/..csv/") = Utf8.encode "a/..sdf" ∧
      parent? (Utf8.encode "a/..sdf") = some (Utf8.encode "a") ∧
      stem? (Utf8.encode "a/..sdf") = some here ∧
      defaultOutput (Utf8.encode "a/..sdf") = Utf8.encode "a/.." := by
  have hstem : stem? (Utf8.encode "a/..csv/") = some here := by decide
  have htrim : trim (Utf8.encode "a/..csv/") ≠ Utf8.encode "a/..csv/" := by decide
  have hout : defaultOutput (Utf8.encode "a/..csv/") = Utf8.encode "a/..sdf" := by decide
  obtain ⟨-, hkeeps, -⟩ := defaultOutput_keeps_stem (Utf8.encode "a/..csv/")
  obtain ⟨hparent, hsame, -⟩ := hkeeps here hstem fun h => htrim h.2
  rw [hout] at hparent hsame
  exact ⟨hstem, htrim, hout, hparent.trans (by decide), hsame, by decide⟩

/-- The script of `..csv` goes to the directory above, though the table has a file name, and the script of `..csv/`
goes elsewhere when taken for a table itself. -/
theorem defaultOutput_dotStem :
    fileName? (Utf8.encode "..csv") = some (Utf8.encode "..csv") ∧
      defaultOutput (Utf8.encode "..csv") = up ∧ fileName? up = none ∧
      defaultOutput (defaultOutput (Utf8.encode "..csv/")) ≠ defaultOutput (Utf8.encode "..csv/") := by
  decide

end Job

end EventScript
