import EventScript.Proofs.Destinations

/-!
# The directory of a replacement

A replacement is made in a directory that is known by a path of its own, cut off the path to replace at. A path
is cut after its last slash; what that leaves insignificant at its end is taken off as well, and if nothing is
left, the path of the root or of the working directory takes its place. When all names of the path but the last
lead to a directory, the path that was cut off leads to the same one.

* `Path.trim_eq_self`: a path that ends with the name of an entry has no insignificant end.
* `names_eq_concat`: cutting a path cuts off its last name.
* `directoryAt_names_trim`: what is insignificant at the end of a path does not change the directory it leads to.
* `Destination.directoryAt_workDirectory`: the directory of a replacement is the one of its destination.
-/

namespace EventScript

/-! ## Cutting paths -/

namespace Path

theorem trimReversed_eq_self {reversed : Bytes} (hname : reversed.takeWhile isName ≠ [])
    (hhere : reversed.takeWhile isName ≠ [Ascii.dot]) : trimReversed reversed = reversed := by
  match reversed with
  | [] => rfl
  | [b] =>
    have hb : b ≠ Ascii.slash := by
      rintro rfl
      exact hname rfl
    rw [trimReversed, if_neg hb]
  | b :: c :: rest =>
    have hb : b ≠ Ascii.slash := by
      rintro rfl
      exact hname rfl
    have hdot : ¬ (b = Ascii.dot ∧ c = Ascii.slash) := by
      rintro ⟨rfl, rfl⟩
      exact hhere rfl
    rw [trimReversed, if_neg hb, if_neg hdot]

/-- A path that ends with the name of an entry has no insignificant end. -/
theorem trim_eq_self {path : Bytes} (hname : lastName path ≠ []) (hhere : lastName path ≠ here) :
    trim path = path := by
  have htrim : trimReversed path.reverse = path.reverse :=
    trimReversed_eq_self (fun h => hname (by rw [lastName, h]; rfl))
      (fun h => hhere (by rw [lastName, h]; rfl))
  rw [trim, htrim, List.reverse_reverse]

theorem trimReversed_suffix (reversed : Bytes) : trimReversed reversed <:+ reversed := by
  fun_induction trimReversed reversed with
  | case1 => exact List.suffix_refl _
  | case2 => exact List.nil_suffix
  | case3 => exact List.suffix_refl _
  | case4 c rest ih => exact ih.trans (List.suffix_cons _ _)
  | case5 b c rest hslash hdot ih => exact ih.trans (List.suffix_cons _ _)
  | case6 => exact List.suffix_refl _

theorem trim_isPrefix (path : Bytes) : trim path <+: path := by
  rw [trim, ← List.reverse_suffix, List.reverse_reverse]
  exact trimReversed_suffix _

theorem beforeName_isPrefix (path : Bytes) : beforeName path <+: path :=
  ⟨lastName path, beforeName_append_lastName path⟩

theorem slash_notMem_lastName (path : Bytes) : Ascii.slash ∉ lastName path := by
  intro h
  have hname := List.mem_takeWhile_imp (List.mem_reverse.mp h)
  simp [isName] at hname

/-- What comes before the last name of a path is empty or ends with a slash. -/
theorem beforeName_cases (path : Bytes) :
    beforeName path = [] ∨ ∃ front, beforeName path = front ++ [Ascii.slash] := by
  cases h : path.reverse.dropWhile isName with
  | nil => exact .inl (by rw [beforeName, h]; rfl)
  | cons b rest =>
    have hhead := List.head?_dropWhile_not isName path.reverse
    rw [h] at hhead
    have hb : b = Ascii.slash := by simpa [isName] using hhead
    exact .inr ⟨rest.reverse, by rw [beforeName, h, hb, List.reverse_cons]⟩

/-- The directory of a replacement at a path that has no insignificant end. -/
theorem workDirectory_eq {path : Bytes} (htrim : trim path = path) (hne : path ≠ []) :
    workDirectory path =
      if trim (beforeName path) = [] then (if path.head? = some Ascii.slash then [Ascii.slash] else here)
      else trim (beforeName path) := by
  rw [workDirectory, parent?, htrim, if_neg hne]
  by_cases hfront : trim (beforeName path) = []
  · by_cases habsolute : path.head? = some Ascii.slash
    · simp [hfront, habsolute]
    · simp [hfront, habsolute]
  · simp [hfront]

end Path

namespace FileTree

open EventScript.Path (here lastName beforeName trim trimReversed workDirectory)

theorem names_concat_slash (path : Bytes) {last : Bytes} (h : Ascii.slash ∉ last) :
    names (path ++ Ascii.slash :: last) = names path ++ [last] := by
  rw [names, List.splitOn_append_cons_self, List.splitOn_eq_singleton h]
  rfl

/-- Cutting a path after its last slash cuts off its last name. -/
theorem names_eq_concat (path : Bytes) :
    ∃ front, names path = front ++ [lastName path] ∧ names (beforeName path) = front ++ [[]] := by
  have hpath := Path.beforeName_append_lastName path
  have hslash := Path.slash_notMem_lastName path
  rcases Path.beforeName_cases path with hbefore | ⟨front, hbefore⟩
  · have hlast : lastName path = path := by rwa [hbefore, List.nil_append] at hpath
    rw [hlast] at hslash ⊢
    exact ⟨[], List.splitOn_eq_singleton hslash, by rw [hbefore]; rfl⟩
  · have hnames : names path = names front ++ [lastName path] := by
      rw [← names_concat_slash front hslash, List.append_cons, ← hbefore, hpath]
    exact ⟨names front, hnames, by rw [hbefore, names_concat_slash front List.not_mem_nil]⟩

/-! ## Insignificant ends -/

section

variable (t : FileTree) (dir place : Place)

/-- A name that stays, after names that lead to a directory, changes nothing. -/
theorem directoryAt_concat_stays (ns : List Name) {name : Name}
    (h : name = [] ∨ name = here) :
    t.directoryAt dir (ns ++ [name]) = .ok place ↔ t.directoryAt dir ns = .ok place := by
  rw [directoryAt_eq_ok_iff, directoryAt_eq_ok_iff]
  rcases walk_append t maxLinks dir ns with ⟨found, mode, left, hwalk, hcut⟩ | ⟨hwalk, hfails⟩
  · rw [hcut true [name] (by simp), walk, if_pos h, walk, hwalk]
    simp
  · obtain ⟨e, he⟩ := hfails true [name] (by simp)
    rw [he]
    apply iff_of_false
    · simp
    · rintro ⟨mode, hdir⟩
      exact hwalk place mode hdir

theorem directoryAt_of_stay {ns : List Name}
    (h : ∀ name ∈ ns, name = [] ∨ name = here) : t.directoryAt dir ns = .ok dir := by
  rw [directoryAt_eq_ok_iff]
  refine ⟨t.directoryMode dir, ?_⟩
  induction ns with
  | nil => rw [walk]
  | cons name ns ih =>
    obtain ⟨hname, hns⟩ := List.forall_mem_cons.mp h
    rw [walk, if_pos hname, ih hns]

theorem directoryAt_names_reverse_trimReversed (reversed : Bytes) :
    t.directoryAt dir (names (trimReversed reversed).reverse) = .ok place ↔
      t.directoryAt dir (names reversed.reverse) = .ok place := by
  have hslash (front : Bytes) :
      t.directoryAt dir (names (front ++ [Ascii.slash])) = .ok place ↔
        t.directoryAt dir (names front) = .ok place := by
    rw [names_concat_slash front List.not_mem_nil, directoryAt_concat_stays _ _ _ _ (.inl rfl)]
  fun_induction trimReversed reversed with
  | case1 => exact Iff.rfl
  | case2 => exact (hslash []).symm
  | case3 => exact Iff.rfl
  | case4 c rest ih =>
    refine ih.trans ?_
    rw [List.reverse_cons (a := Ascii.slash), hslash]
  | case5 b c rest hb hends ih =>
    obtain ⟨rfl, rfl⟩ := hends
    have hends : (Ascii.dot :: Ascii.slash :: rest).reverse = rest.reverse ++ Ascii.slash :: here := by
      simp [here]
    have hhere : Ascii.slash ∉ here := by decide
    refine ih.trans ?_
    rw [List.reverse_cons, hslash, hends, names_concat_slash _ hhere,
      directoryAt_concat_stays _ _ _ _ (.inr rfl)]
  | case6 => exact Iff.rfl

/-- What is insignificant at the end of a path does not change the directory that the path leads to. -/
theorem directoryAt_names_trim (path : Bytes) :
    t.directoryAt dir (names (trim path)) = .ok place ↔ t.directoryAt dir (names path) = .ok place := by
  have h := directoryAt_names_reverse_trimReversed t dir place path.reverse
  rwa [List.reverse_reverse] at h

end

/-! ## The directory of a replacement -/

theorem checkPath_eq_ok_iff {path : Bytes} :
    checkPath path = .ok () ↔ Ascii.nul ∉ path ∧ path ≠ [] ∧ path.length < pathLimit := by
  unfold checkPath
  split_ifs with hnul hnil hlimit
  · simp [hnul]
  · simp [hnil]
  · simp [hlimit]
  · simp [hnul, hnil, Nat.lt_of_not_le hlimit]

theorem checkPath_of_isPrefix {start path : Bytes} (h : start <+: path) (hne : start ≠ [])
    (hpath : checkPath path = .ok ()) : checkPath start = .ok () := by
  obtain ⟨hnul, -, hlength⟩ := checkPath_eq_ok_iff.mp hpath
  exact checkPath_eq_ok_iff.mpr
    ⟨fun hmem => hnul (h.subset hmem), hne, Nat.lt_of_le_of_lt h.length_le hlength⟩

theorem base_congr {path other : Bytes}
    (h : path.head? = some Ascii.slash ↔ other.head? = some Ascii.slash) (home : Place) :
    base home path = base home other := by
  simp only [base, isAbsolute, beq_iff_eq, h]

theorem head?_of_isPrefix {start path : Bytes} (h : start <+: path) (hne : start ≠ []) :
    start.head? = path.head? := by
  obtain ⟨rest, rfl⟩ := h
  exact (List.head?_append_of_ne_nil start hne).symm

/-- The directory of a replacement is the one of its destination. -/
theorem Destination.directoryAt_workDirectory {t : FileTree} {path : Bytes} {front : List Name} {dir : Place}
    {last : Name}
    (h : Destination t path front dir last) (hpath : checkPath path = .ok ()) :
    checkPath (workDirectory path) = .ok () ∧
      t.directoryAt (base t.home (workDirectory path)) (names (workDirectory path)) = .ok dir := by
  obtain ⟨front', hnames, hbefore⟩ := names_eq_concat path
  obtain ⟨rfl, hlast⟩ := List.append_inj' (hnames.symm.trans h.names_eq) rfl
  cases hlast
  have htrim : trim path = path :=
    Path.trim_eq_self (fun hnil => h.followed.stays (.inl hnil)) (fun hhere => h.followed.stays (.inr hhere))
  have hdir : t.directoryAt (base t.home path) (names (trim (beforeName path))) = .ok dir := by
    rw [directoryAt_names_trim, hbefore, directoryAt_concat_stays _ _ _ _ (.inl rfl)]
    exact h.directory
  have hempty : ∀ name ∈ names [], name = [] ∨ name = here := by decide
  have hstart : trim (beforeName path) <+: path :=
    (Path.trim_isPrefix _).trans (Path.beforeName_isPrefix path)
  rw [Path.workDirectory_eq htrim (checkPath_eq_ok_iff.mp hpath).2.1]
  split_ifs with hfront habsolute
  · -- nothing is left, so the directory is the one at which the path starts
    have hbase : base t.home [Ascii.slash] = base t.home path := base_congr (iff_of_true rfl habsolute) _
    rw [hfront, directoryAt_of_stay _ _ hempty] at hdir
    rw [hbase, directoryAt_of_stay _ _ (by decide)]
    exact ⟨by decide, hdir⟩
  · have hbase : base t.home here = base t.home path := base_congr (iff_of_false (by decide) habsolute) _
    rw [hfront, directoryAt_of_stay _ _ hempty] at hdir
    rw [hbase, directoryAt_of_stay _ _ (by decide)]
    exact ⟨by decide, hdir⟩
  · have hbase : base t.home (trim (beforeName path)) = base t.home path :=
      base_congr (by rw [head?_of_isPrefix hstart hfront]) _
    rw [hbase]
    exact ⟨checkPath_of_isPrefix hstart hfront hpath, hdir⟩

end FileTree

end EventScript
