import EventScript.FileTree.Operations
import EventScript.Proofs.Outcome

/-!
# Where paths lead, and when that changes

* `walk_append`: names are followed one after another, so a walk can be cut at any directory on its way.
* `walk_true_of_walk_false`: whether the last link is followed makes a difference to links only.
* `walk_of_extends`: an entry that is reached is reached in every tree that has what this tree has.
* `toOption_walk_of_addsFile`: a file more in the tree changes a walk only if the walk ends at that file's
  place. A walk through the place fails without the file and with it.
* `walk_erase_of_not_leadsThrough`, `LeadsThrough.walk_erase_ne`: without the entry at a place, names lead to the
  directory they led to exactly if they did not lead through a link at that place.
-/

namespace EventScript.FileTree

open Outcome

/-! ## Steps -/

section

variable {t : FileTree} {followLast : Bool} {links : Nat} {dir : Place} {name : Name}

/-- Names that are followed are those that neither stay nor go up and are not too long. -/
structure Followed (name : Name) : Prop where
  stays : ¬ (name = [] ∨ name = Path.here)
  up : name ≠ Path.up
  short : ¬ maxName < name.length

theorem walk_cons (h : Followed name) (rest : List Name) :
    walk t followLast links dir (name :: rest) =
      match t.find? (dir ++ [name]) with
      | none => if rest = [] then .ok (.vacant (dir ++ [name])) else .error .notFound
      | some (.directory _) => walk t followLast links (dir ++ [name]) rest
      | some (.file mode content) =>
        if rest = [] then .ok (.entry (dir ++ [name]) (.file mode content)) else .error .notDirectory
      | some (.link target) =>
        if rest = [] ∧ followLast = false then .ok (.entry (dir ++ [name]) (.link target))
        else
          match links with
          | 0 => .error .tooManyLinks
          | links + 1 =>
            walk t followLast links (base dir target) (names target ++ rest) := by
  rw [walk]
  exact (if_neg h.stays).trans ((if_neg h.up).trans (if_neg h.short))

end

/-! ## Cutting walks -/

/-- Names are followed one after another: what comes after a directory is followed from there, and nothing is
reached by way of anything else. -/
theorem walk_append (t : FileTree) (links : Nat) (dir : Place) (ns : List Name) :
    (∃ place mode left, walk t true links dir ns = .ok (.entry place (.directory mode)) ∧
      ∀ followLast ms, ms ≠ [] →
        walk t followLast links dir (ns ++ ms) = walk t followLast left place ms) ∨
    (∀ place mode, walk t true links dir ns ≠ .ok (.entry place (.directory mode))) ∧
      ∀ followLast ms, ms ≠ [] → ∃ e, walk t followLast links dir (ns ++ ms) = .error e := by
  have hmore {rest ms : List Name} (hms : ms ≠ []) : rest ++ ms ≠ [] :=
    List.append_ne_nil_of_right_ne_nil _ hms
  fun_induction walk t true links dir ns with
  | case1 links dir => exact .inl ⟨dir, _, links, rfl, fun _ _ _ => rfl⟩
  | case2 links dir name rest hstays ih =>
    simpa only [List.cons_append, walk, hstays, if_true] using ih
  | case3 links dir rest hstays ih =>
    simpa only [List.cons_append, walk, hstays, if_true, if_false] using ih
  | case4 links dir name rest hstays hup hlong =>
    refine .inr ⟨by simp, fun _ _ _ => ⟨.nameTooLong, ?_⟩⟩
    rw [List.cons_append, walk, if_neg hstays, if_neg hup, if_pos hlong]
  | case5 links dir name hstays hup hshort hfind =>
    refine .inr ⟨by simp, fun _ ms hms => ⟨.notFound, ?_⟩⟩
    rw [List.cons_append, walk_cons ⟨hstays, hup, hshort⟩, hfind]
    exact if_neg (hmore hms)
  | case6 links dir name rest hstays hup hshort hfind hrest =>
    refine .inr ⟨by simp, fun _ ms hms => ⟨.notFound, ?_⟩⟩
    rw [List.cons_append, walk_cons ⟨hstays, hup, hshort⟩, hfind]
    exact if_neg (hmore hms)
  | case7 links dir name rest hstays hup hshort mode hfind ih =>
    simpa only [List.cons_append, walk_cons ⟨hstays, hup, hshort⟩, hfind] using ih
  | case8 links dir name hstays hup hshort mode content hfind =>
    refine .inr ⟨by simp, fun _ ms hms => ⟨.notDirectory, ?_⟩⟩
    rw [List.cons_append, walk_cons ⟨hstays, hup, hshort⟩, hfind]
    exact if_neg (hmore hms)
  | case9 links dir name rest hstays hup hshort mode content hfind hrest =>
    refine .inr ⟨by simp, fun _ ms hms => ⟨.notDirectory, ?_⟩⟩
    rw [List.cons_append, walk_cons ⟨hstays, hup, hshort⟩, hfind]
    exact if_neg (hmore hms)
  | case10 links dir name rest hstays hup hshort target hfind hends =>
    exact absurd hends.2 (by simp)
  | case11 dir name rest hstays hup hshort target hfind hends =>
    refine .inr ⟨by simp, fun _ ms hms => ⟨.tooManyLinks, ?_⟩⟩
    rw [List.cons_append, walk_cons ⟨hstays, hup, hshort⟩, hfind]
    exact if_neg fun hboth => hmore hms hboth.1
  | case12 dir name rest hstays hup hshort target hfind hends links ih =>
    rcases ih with ⟨place, mode, left, hwalk, hcut⟩ | ⟨hwalk, hcut⟩
    · refine .inl ⟨place, mode, left, hwalk, fun followLast ms hms => ?_⟩
      rw [← hcut followLast ms hms, List.cons_append, walk_cons ⟨hstays, hup, hshort⟩, hfind,
        List.append_assoc]
      exact if_neg fun hboth => hmore hms hboth.1
    · refine .inr ⟨hwalk, fun followLast ms hms => ?_⟩
      obtain ⟨e, he⟩ := hcut followLast ms hms
      refine ⟨e, ?_⟩
      rw [← he, List.cons_append, walk_cons ⟨hstays, hup, hshort⟩, hfind, List.append_assoc]
      exact if_neg fun hboth => hmore hms hboth.1

/-! ## The last link -/

/-- An entry that is no link is reached whether the last link is followed or not. -/
theorem walk_true_of_walk_false {t : FileTree} {links : Nat} {dir place : Place} {ns : List Name} {e : Entry}
    (he : ∀ target, e ≠ .link target) (h : walk t false links dir ns = .ok (.entry place e)) :
    walk t true links dir ns = .ok (.entry place e) := by
  fun_induction walk t false links dir ns with
  | case1 links dir => simpa [walk] using h
  | case2 links dir name rest hstays ih => simpa only [walk, hstays, if_true] using ih h
  | case3 links dir rest hstays ih => simpa only [walk, hstays, if_true, if_false] using ih h
  | case4 => cases h
  | case5 => cases h
  | case6 => cases h
  | case7 links dir name rest hstays hup hshort mode hfind ih =>
    rw [walk_cons ⟨hstays, hup, hshort⟩, hfind]
    exact ih h
  | case8 links dir name hstays hup hshort mode content hfind =>
    rw [walk_cons ⟨hstays, hup, hshort⟩, hfind]
    exact h
  | case9 => cases h
  | case10 links dir name rest hstays hup hshort target hfind hends =>
    cases h
    exact absurd rfl (he target)
  | case11 => cases h
  | case12 dir name rest hstays hup hshort target hfind hends links ih =>
    rw [walk_cons ⟨hstays, hup, hshort⟩, hfind]
    exact (if_neg fun hboth => absurd hboth.2 (by simp)).trans (ih h)

/-- A link that a path ends with is at its place. -/
theorem find?_of_walk_link {t : FileTree} {followLast : Bool} {links : Nat} {dir place : Place}
    {ns : List Name} {target : Bytes} (h : walk t followLast links dir ns = .ok (.entry place (.link target))) :
    t.find? place = some (.link target) := by
  fun_induction walk t followLast links dir ns <;> simp_all

/-! ## Larger trees -/

/-- The tree `s` has what `t` has, and no directory more. -/
structure Extends (t s : FileTree) : Prop where
  entry : ∀ place e, t.find? place = some e → s.find? place = some e
  directoryMode : ∀ place, s.directoryMode place = t.directoryMode place

/-- What a tree has more than another is at one place, and it is no directory. -/
theorem extends_of_others {t s : FileTree} {place : Place} (hvacant : t.find? place = none)
    (hfree : ∀ mode, s.find? place ≠ some (.directory mode))
    (hothers : ∀ other, other ≠ place → s.find? other = t.find? other) : Extends t s where
  entry other e he := by
    have hother : other ≠ place := by
      rintro rfl
      cases hvacant.symm.trans he
    rw [hothers other hother, he]
  directoryMode other := by
    by_cases hother : other = place
    · have hnone : ∀ mode, t.find? place ≠ some (.directory mode) := by simp [hvacant]
      rw [hother, directoryMode_of_free hnone, directoryMode_of_free hfree]
    · exact directoryMode_congr (hothers other hother)

/-- An entry that is no directory is all that a tree has more than the tree without it. -/
theorem extends_erase {t : FileTree} {place : Place} (hne : place ≠ [])
    (hfree : ∀ mode, t.find? place ≠ some (.directory mode)) : Extends (t.erase place) t :=
  extends_of_others (find?_erase_self hne t) hfree fun _ hother => (find?_erase_of_ne hother t).symm

/-- An entry that is reached is reached in every tree that has what this tree has. -/
theorem walk_of_extends {t s : FileTree} (hextends : Extends t s)
    {followLast : Bool} {links : Nat} {dir place : Place} {ns : List Name} {e : Entry}
    (h : walk t followLast links dir ns = .ok (.entry place e)) :
    walk s followLast links dir ns = .ok (.entry place e) := by
  fun_induction walk t followLast links dir ns with
  | case1 links dir => rwa [walk, hextends.directoryMode]
  | case2 links dir name rest hstays ih => simpa only [walk, hstays, if_true] using ih h
  | case3 links dir rest hstays ih => simpa only [walk, hstays, if_true, if_false] using ih h
  | case4 => cases h
  | case5 => cases h
  | case6 => cases h
  | case7 links dir name rest hstays hup hshort mode hfind ih =>
    rw [walk_cons ⟨hstays, hup, hshort⟩, hextends.entry _ _ hfind]
    exact ih h
  | case8 links dir name hstays hup hshort mode content hfind =>
    rw [walk_cons ⟨hstays, hup, hshort⟩, hextends.entry _ _ hfind]
    exact h
  | case9 => cases h
  | case10 links dir name rest hstays hup hshort target hfind hends =>
    rw [walk_cons ⟨hstays, hup, hshort⟩, hextends.entry _ _ hfind]
    exact (if_pos hends).trans h
  | case11 => cases h
  | case12 dir name rest hstays hup hshort target hfind hends links ih =>
    rw [walk_cons ⟨hstays, hup, hshort⟩, hextends.entry _ _ hfind]
    exact (if_neg hends).trans (ih h)

/-- The tree `s` is `t` with a file more, at a place where `t` has nothing. -/
structure AddsFile (t s : FileTree) (place : Place) (mode : Nat) (content : Bytes) : Prop where
  home : s.home = t.home
  vacant : t.find? place = none
  file : s.find? place = some (.file mode content)
  others : ∀ other, other ≠ place → s.find? other = t.find? other

/-- Where a path leads when there is an entry at a place that was vacant. -/
def Found.filled (place : Place) (e : Entry) (f : Found) : Found :=
  if f = .vacant place then .entry place e else f

section

variable {t s : FileTree} {place : Place} {mode : Nat} {content : Bytes}

theorem AddsFile.extends (h : AddsFile t s place mode content) : Extends t s :=
  extends_of_others h.vacant (by simp [h.file]) h.others

theorem toOption_walk_of_addsFile (h : AddsFile t s place mode content) (followLast : Bool)
    (links : Nat) (dir : Place) (ns : List Name) :
    (walk s followLast links dir ns).toOption =
      (walk t followLast links dir ns).toOption.map (Found.filled place (.file mode content)) := by
  fun_induction walk t followLast links dir ns with
  | case1 links dir => simp [walk, Except.toOption, Found.filled, h.extends.directoryMode]
  | case2 links dir name rest hstays ih => rw [walk, if_pos hstays, ih]
  | case3 links dir rest hstays ih => rw [walk, if_neg hstays, if_pos rfl, ih]
  | case4 links dir name rest hstays hup hlong =>
    rw [walk, if_neg hstays, if_neg hup, if_pos hlong]
    rfl
  | case5 links dir name hstays hup hshort hfind =>
    rw [walk_cons ⟨hstays, hup, hshort⟩]
    by_cases hplace : dir ++ [name] = place
    · simp [hplace, h.file, Except.toOption, Found.filled]
    · simp [hplace, h.others _ hplace, hfind, Except.toOption, Found.filled]
  | case6 links dir name rest hstays hup hshort hfind hrest =>
    -- the walk would go on, so it fails at the place whether the file is there or not
    rw [walk_cons ⟨hstays, hup, hshort⟩]
    by_cases hplace : dir ++ [name] = place
    · simp [hplace, h.file, hrest, Except.toOption]
    · simp [h.others _ hplace, hfind, hrest, Except.toOption]
  | case7 links dir name rest hstays hup hshort mode hfind ih =>
    rw [walk_cons ⟨hstays, hup, hshort⟩, h.extends.entry _ _ hfind]
    exact ih
  | case8 links dir name hstays hup hshort mode content hfind =>
    rw [walk_cons ⟨hstays, hup, hshort⟩, h.extends.entry _ _ hfind]
    simp [Except.toOption, Found.filled]
  | case9 links dir name rest hstays hup hshort mode content hfind hrest =>
    rw [walk_cons ⟨hstays, hup, hshort⟩, h.extends.entry _ _ hfind]
    simp [hrest, Except.toOption]
  | case10 links dir name rest hstays hup hshort target hfind hends =>
    rw [walk_cons ⟨hstays, hup, hshort⟩, h.extends.entry _ _ hfind]
    simp [hends, Except.toOption, Found.filled]
  | case11 dir name rest hstays hup hshort target hfind hends =>
    rw [walk_cons ⟨hstays, hup, hshort⟩, h.extends.entry _ _ hfind]
    simp [hends, Except.toOption]
  | case12 dir name rest hstays hup hshort target hfind hends links ih =>
    rw [walk_cons ⟨hstays, hup, hshort⟩, h.extends.entry _ _ hfind]
    simp only [hends, if_false]
    exact ih

theorem toOption_resolve_of_addsFile (h : AddsFile t s place mode content) (followLast : Bool)
    (path : Bytes) :
    (s.resolve followLast path).toOption =
      (t.resolve followLast path).toOption.map (Found.filled place (.file mode content)) := by
  unfold resolve
  rw [h.home]
  cases checkPath path with
  | error e => rfl
  | ok _ => exact toOption_walk_of_addsFile h followLast maxLinks (base t.home path) (names path)

theorem walk_eq_ok_iff_of_addsFile (h : AddsFile t s place mode content) {followLast : Bool}
    {links : Nat} {dir : Place} {ns : List Name} {f : Found} :
    walk s followLast links dir ns = .ok f ↔
      ∃ g, walk t followLast links dir ns = .ok g ∧ g.filled place (.file mode content) = f := by
  have hwalk := toOption_walk_of_addsFile h followLast links dir ns
  cases hs : walk s followLast links dir ns <;> cases ht : walk t followLast links dir ns <;>
    simp [hs, ht, Except.toOption] at hwalk ⊢
  rw [hwalk, eq_comm]

end

/-! ## Links on the way -/

/-- From a directory, names lead through the symbolic link at a place: to follow them is to follow that link. -/
inductive LeadsThrough (t : FileTree) (place : Place) : Place → List Name → Prop
  | stay {dir : Place} {name : Name} {rest : List Name} (hstays : name = [] ∨ name = Path.here)
      (h : LeadsThrough t place dir rest) : LeadsThrough t place dir (name :: rest)
  | up {dir : Place} {rest : List Name} (h : LeadsThrough t place dir.dropLast rest) :
      LeadsThrough t place dir (Path.up :: rest)
  | enter {dir : Place} {name : Name} {rest : List Name} {mode : Nat} (hname : Followed name)
      (hfind : t.find? (dir ++ [name]) = some (.directory mode))
      (h : LeadsThrough t place (dir ++ [name]) rest) : LeadsThrough t place dir (name :: rest)
  /-- The link at the place is the next to be followed. -/
  | here {dir : Place} {name : Name} {rest : List Name} {target : Bytes} (hname : Followed name)
      (hfind : t.find? (dir ++ [name]) = some (.link target)) (hplace : dir ++ [name] = place) :
      LeadsThrough t place dir (name :: rest)
  /-- Any link is followed, and the way goes on by the names of its target. -/
  | follow {dir : Place} {name : Name} {rest : List Name} {target : Bytes} (hname : Followed name)
      (hfind : t.find? (dir ++ [name]) = some (.link target))
      (h : LeadsThrough t place (base dir target) (names target ++ rest)) :
      LeadsThrough t place dir (name :: rest)

section

variable {t : FileTree} {place dir : Place} {ns : List Name}

theorem LeadsThrough.find?_eq_link (h : LeadsThrough t place dir ns) :
    ∃ target, t.find? place = some (.link target) := by
  induction h with
  | stay _ _ ih => exact ih
  | up _ ih => exact ih
  | enter _ _ _ ih => exact ih
  | @here dir name rest target _ hfind hplace => exact ⟨target, hplace ▸ hfind⟩
  | follow _ _ _ ih => exact ih

/-- Names that do not lead through a link at a place lead to the same directory without the entry there. -/
theorem walk_erase_of_not_leadsThrough (hne : place ≠ [])
    (hfree : ∀ mode, t.find? place ≠ some (.directory mode)) {links : Nat} {found : Place} {mode : Nat}
    (hthrough : ¬ LeadsThrough t place dir ns)
    (h : walk t true links dir ns = .ok (.entry found (.directory mode))) :
    walk (t.erase place) true links dir ns = .ok (.entry found (.directory mode)) := by
  fun_induction walk t true links dir ns with
  | case1 links dir => rwa [walk, ← (extends_erase hne hfree).directoryMode]
  | case2 links dir name rest hstays ih =>
    rw [walk, if_pos hstays]
    exact ih (fun hrest => hthrough (.stay hstays hrest)) h
  | case3 links dir rest hstays ih =>
    rw [walk, if_neg hstays, if_pos rfl]
    exact ih (fun hrest => hthrough (.up hrest)) h
  | case4 => cases h
  | case5 => cases h
  | case6 => cases h
  | case7 links dir name rest hstays hup hshort mode' hfind ih =>
    have hname : Followed name := ⟨hstays, hup, hshort⟩
    have hother : dir ++ [name] ≠ place := fun hplace => hfree mode' (hplace ▸ hfind)
    rw [walk_cons hname, find?_erase_of_ne hother, hfind]
    exact ih (fun hrest => hthrough (.enter hname hfind hrest)) h
  | case8 => cases h
  | case9 => cases h
  | case10 links dir name rest hstays hup hshort target hfind hends => exact absurd hends.2 (by simp)
  | case11 => cases h
  | case12 dir name rest hstays hup hshort target hfind hends links ih =>
    have hname : Followed name := ⟨hstays, hup, hshort⟩
    have hother : dir ++ [name] ≠ place := fun hplace => hthrough (.here hname hfind hplace)
    rw [walk_cons hname, find?_erase_of_ne hother, hfind]
    exact (if_neg hends).trans (ih (fun hrest => hthrough (.follow hname hfind hrest)) h)

/-- Names that lead through the link at a place lead to no directory without it. -/
theorem LeadsThrough.walk_erase_ne (hne : place ≠ []) (h : LeadsThrough t place dir ns) (links : Nat)
    (found : Place) (mode : Nat) :
    walk (t.erase place) true links dir ns ≠ .ok (.entry found (.directory mode)) := by
  -- the way is the same as in `t` until the link is missed
  have hmissed {dir : Place} {name : Name} (rest : List Name) (links : Nat) (hname : Followed name)
      (hplace : dir ++ [name] = place) :
      walk (t.erase place) true links dir (name :: rest) ≠ .ok (.entry found (.directory mode)) := by
    rw [walk_cons hname, hplace, find?_erase_self hne]
    dsimp only
    split <;> simp
  induction h generalizing links with
  | stay hstays _ ih =>
    rw [walk, if_pos hstays]
    exact ih links
  | up _ ih =>
    rw [walk, if_neg (by decide), if_pos rfl]
    exact ih links
  | @enter dir name rest mode' hname hfind _ ih =>
    by_cases hplace : dir ++ [name] = place
    · exact hmissed rest links hname hplace
    · rw [walk_cons hname, find?_erase_of_ne hplace, hfind]
      exact ih links
  | @here dir name rest target hname _ hplace => exact hmissed rest links hname hplace
  | @follow dir name rest target hname hfind _ ih =>
    by_cases hplace : dir ++ [name] = place
    · exact hmissed rest links hname hplace
    · rw [walk_cons hname, find?_erase_of_ne hplace, hfind]
      cases links with
      | zero => simp
      | succ links => exact (if_neg (by simp)).trans_ne (ih links)

end

end EventScript.FileTree
