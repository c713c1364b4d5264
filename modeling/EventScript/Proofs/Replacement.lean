import EventScript.FileTree.Disk
import EventScript.Proofs.Outcome
import EventScript.Proofs.Destinations

/-!
# Replacing files

A replacement takes several operations, and each of them can fail: because of the tree, or because the disk
fails it. Whichever does, the new file is thrown away and the tree is as it was. If none does, the tree has
one entry changed, the one that the path names: there is a file now, with the content asked for and the
permission bits of what the path led to. The new file on its way does not disturb this, wherever it is made
and whatever it is called.

What actions on trees do is said by what holds before and after them, with one rule for each way of
putting actions together.

* `mode?_of_addsFile`: the new file is what the path leads to only if the path led nowhere.
* `complete_leads`: until it is moved, the new file is all that is new, and it is moved to the destination.
* `Disk.replace_atomic`: a replacement that fails leaves the tree unchanged.
* `Disk.replaced_of_replace`: a replacement that succeeds leaves the tree with its destination changed.
-/

namespace EventScript.FileTree

open Outcome

/-! ## Running actions -/

section

variable {ε ε' α β : Type}

theorem run_bind (x : ExceptT ε (StateM FileTree) α) (f : α → ExceptT ε (StateM FileTree) β)
    (t : FileTree) :
    (x >>= f).run.run t =
      match x.run.run t with
      | (.ok a, t') => (f a).run.run t'
      | (.error e, t') => (.error e, t') := by
  rw [ExceptT.run_bind, StateT.run_bind]
  show StateT.run (match (x.run.run t).1 with
    | .ok a => (f a).run
    | .error e => pure (Except.error e)) (x.run.run t).2 = _
  rcases x.run.run t with ⟨_ | _, _⟩ <;> rfl

theorem run_mk_pure (r : Except ε α) (t : FileTree) :
    (ExceptT.mk (pure r : StateM FileTree (Except ε α))).run.run t = (r, t) :=
  rfl

theorem run_tryCatch (x : ExceptT ε (StateM FileTree) α) (h : ε → ExceptT ε (StateM FileTree) α)
    (t : FileTree) :
    (tryCatch x h).run.run t =
      match x.run.run t with
      | (.ok a, t') => (.ok a, t')
      | (.error e, t') => (h e).run.run t' := by
  show StateT.run (match (x.run.run t).1 with
    | .ok a => pure (Except.ok a)
    | .error e => (h e).run) (x.run.run t).2 = _
  rcases x.run.run t with ⟨_ | _, _⟩ <;> rfl

theorem run_adapt (f : ε → ε') (x : ExceptT ε (StateM FileTree) α) (t : FileTree) :
    (x.adapt f).run.run t = ((x.run.run t).1.mapError f, (x.run.run t).2) :=
  rfl

end

/-! ## Before and after -/

/-- From a tree with `P`, the action ends in a result and a tree that have `Q`, or it fails with an error
and a tree that have `R`. -/
def Leads {ε α : Type} (P : FileTree → Prop) (x : ExceptT ε (StateM FileTree) α)
    (Q : α → FileTree → Prop) (R : ε → FileTree → Prop) : Prop :=
  ∀ t, P t →
    match x.run.run t with
    | (.ok a, t') => Q a t'
    | (.error e, t') => R e t'

section

variable {ε α β : Type} {P : FileTree → Prop} {x : ExceptT ε (StateM FileTree) α}
  {Q : α → FileTree → Prop} {Q' : β → FileTree → Prop} {R R' : ε → FileTree → Prop}

theorem Leads.imp_error (hx : Leads P x Q R) (hR : ∀ e t, R e t → R' e t) : Leads P x Q R' := by
  intro t ht
  have hxt := hx t ht
  revert hxt
  rcases x.run.run t with ⟨e | a, t'⟩
  · exact hR e t'
  · exact id

theorem Leads.bind {f : α → ExceptT ε (StateM FileTree) β} (hx : Leads P x Q R)
    (hf : ∀ a, Leads (Q a) (f a) Q' R) : Leads P (x >>= f) Q' R := by
  intro t ht
  have hxt := hx t ht
  rw [run_bind]
  revert hxt
  rcases x.run.run t with ⟨e | a, t'⟩
  · exact id
  · exact hf a t'

theorem Leads.tryCatch {h : ε → ExceptT ε (StateM FileTree) α} (hx : Leads P x Q R)
    (hh : ∀ e, Leads (R e) (h e) Q R') : Leads P (tryCatch x h) Q R' := by
  intro t ht
  have hxt := hx t ht
  rw [run_tryCatch]
  revert hxt
  rcases x.run.run t with ⟨e | a, t'⟩
  · exact hh e t'
  · exact id

theorem Leads.lift {y : StateM FileTree α} (hy : ∀ t, P t → Q (y.run t).1 (y.run t).2) :
    Leads P (liftM y : ExceptT ε (StateM FileTree) α) Q R :=
  hy

theorem Leads.throw {e : ε} (he : ∀ t, P t → R e t) :
    Leads P (throw e : ExceptT ε (StateM FileTree) α) Q R :=
  he

theorem Leads.pure {a : α} (ha : ∀ t, P t → Q a t) :
    Leads P (Pure.pure a : ExceptT ε (StateM FileTree) α) Q R :=
  ha

end

/-! ## Operations of a disk -/

theorem run_change {α : Type} (disk : Disk) (op : Operation)
    (f : FileTree → Except FileError (α × FileTree)) (t : FileTree) :
    (disk.change op f).run t =
      match disk.failure? op t with
      | some e => (.error e, t)
      | none =>
        match f t with
        | .error e => (.error e, t)
        | .ok (a, t') => (.ok a, t') := by
  unfold Disk.change
  rw [StateT.run_bind, StateT.run_get, pure_bind]
  dsimp only
  rcases disk.failure? op t with _ | e
  · rcases f t with e | ⟨a, t'⟩ <;> rfl
  · rfl

/-- An operation that fails, for whatever reason, leaves the tree as it is. -/
theorem change_leads {α : Type} {P : FileTree → Prop} {Q : α → FileTree → Prop} {disk : Disk}
    {op : Operation} {f : FileTree → Except FileError (α × FileTree)}
    (hf : ∀ t a t', P t → f t = .ok (a, t') → Q a t') :
    Leads P (ExceptT.mk (disk.change op f)) Q fun _ => P := by
  intro t ht
  rw [ExceptT.run_mk, run_change]
  rcases disk.failure? op t with _ | e
  · rcases hft : f t with e | ⟨a, t'⟩
    · exact ht
    · exact hf t a t' ht hft
  · exact ht

/-- An operation that gives only another tree. -/
theorem change_map_leads {P Q : FileTree → Prop} {disk : Disk} {op : Operation}
    {f : FileTree → Except FileError FileTree} (hf : ∀ t t', P t → f t = .ok t' → Q t') :
    Leads P (ExceptT.mk (disk.change op fun t => (f t).map ((), ·))) (fun _ => Q) fun _ => P := by
  refine change_leads ?_
  intro t a t' ht hmap
  cases hft : f t with
  | error e => rw [hft] at hmap; cases hmap
  | ok s =>
    rw [hft] at hmap
    cases hmap
    exact hf t t' ht hft

/-! ## The new file -/

/-- The tree `s` is `t` with a file at a place where `t` has nothing. -/
structure Holds (t : FileTree) (place : Place) (mode : Nat) (content : Bytes) (s : FileTree) : Prop where
  unused : t.find? place = none
  eq_put : s = t.put place (.file mode content)

namespace Holds

variable {t s s' : FileTree} {place : Place} {mode : Nat} {content : Bytes}

theorem ne_nil (h : Holds t place mode content s) : place ≠ [] := by
  rintro rfl
  cases h.unused

theorem find?_eq (h : Holds t place mode content s) : s.find? place = some (.file mode content) := by
  rw [h.eq_put, find?_put_self h.ne_nil]

theorem addsFile (h : Holds t place mode content s) : AddsFile t s place mode content where
  home := by rw [h.eq_put]; rfl
  vacant := h.unused
  file := h.find?_eq
  others other hne := by rw [h.eq_put, find?_put_of_ne hne]

theorem setMode (h : Holds t place mode content s) {mode' : Nat}
    (hs : s.setMode place mode' = .ok s') : Holds t place mode' content s' := by
  rw [FileTree.setMode, h.find?_eq] at hs
  cases hs
  exact ⟨h.unused, by rw [h.eq_put, put_put]⟩

theorem append (h : Holds t place mode content s) {more : Bytes}
    (hs : s.append place more = .ok s') : Holds t place mode (content ++ more) s' := by
  rw [FileTree.append, h.find?_eq] at hs
  cases hs
  exact ⟨h.unused, by rw [h.eq_put, put_put]⟩

end Holds

/-- The permission bits of what a path leads to. -/
def Found.mode? : Found → Option Nat
  | .entry _ (.file mode _) => some mode
  | .entry _ (.directory mode) => some mode
  | _ => none

theorem mode?_eq (t : FileTree) (path : Bytes) :
    t.mode? path = (t.resolve true path).toOption.bind Found.mode? := by
  unfold FileTree.mode?
  rcases t.resolve true path with e | ⟨_, _ | _ | _⟩ | _ <;> rfl

/-- A file more changes the permission bits of what a path leads to only for a path that led nowhere. -/
theorem mode?_of_addsFile {t s : FileTree} {place : Place} {mode : Nat} {content : Bytes}
    (h : AddsFile t s place mode content) (path : Bytes) :
    s.mode? path = t.mode? path ∨ t.mode? path = none ∧ s.mode? path = some mode := by
  rw [mode?_eq, mode?_eq, toOption_resolve_of_addsFile h]
  rcases (t.resolve true path).toOption with _ | g
  · exact .inl rfl
  · by_cases hvacant : g = .vacant place
    · subst hvacant
      exact .inr ⟨rfl, by simp [Found.filled, Found.mode?]⟩
    · exact .inl (by simp [Found.filled, hvacant])

/-- The tree `s` is `t` with a file at a place where `t` has nothing, whatever is in it so far. -/
def Beside (t : FileTree) (place : Place) (s : FileTree) : Prop :=
  ∃ mode content, Holds t place mode content s

theorem Holds.beside {t s : FileTree} {place : Place} {mode : Nat} {content : Bytes}
    (h : Holds t place mode content s) : Beside t place s :=
  ⟨mode, content, h⟩

theorem Beside.erase {t s : FileTree} {place : Place} (h : Beside t place s) : s.erase place = t := by
  obtain ⟨mode, content, h⟩ := h
  rw [h.eq_put, erase_put h.unused]

/-! ## Replacements -/

/-- The tree that a replacement in `t` leaves: an entry is put at the destination of the path. -/
def Replaced (t : FileTree) (path content : Bytes) (t' : FileTree) : Prop :=
  checkPath path = .ok () ∧ ∃ front dir last, Destination t path front dir last ∧
    t' = t.put (dir ++ [last]) (.file ((t.mode? path).getD newFileMode) content)

section

variable (disk : Disk) (t : FileTree) (place : Place) (path content : Bytes)

theorem copyMode_leads :
    Leads (Holds t place newFileMode []) (@FileStore.copyMode _ _ _ disk.store place path)
      (fun _ => Holds t place ((t.mode? path).getD newFileMode) []) fun _ => Beside t place := by
  refine Leads.bind (Q := fun found s => Holds t place newFileMode [] s ∧
    found.getD newFileMode = (t.mode? path).getD newFileMode) (.lift fun s hs => ⟨hs, ?_⟩) ?_
  · -- the new file has the bits of a new file, so it makes no difference if the path leads to it
    show (s.mode? path).getD newFileMode = _
    rcases mode?_of_addsFile hs.addsFile path with hsame | ⟨hnone, hsome⟩
    · rw [hsame]
    · rw [hnone, hsome]
      rfl
  · rintro (_ | mode)
    · exact .pure fun s hs => by rw [← hs.2]; exact hs.1
    · refine (change_map_leads fun s s' hs hmode => ?_).imp_error fun _ _ hs => hs.1.beside
      rw [← hs.2]
      exact hs.1.setMode hmode

/-- The destination is the same whether the new file is there or not. -/
theorem moveTo_leads :
    Leads (Holds t place ((t.mode? path).getD newFileMode) content)
      (ExceptT.mk (@FileStore.moveTo _ _ disk.store place path))
      (fun _ => Replaced t path content) fun _ => Beside t place := by
  refine (change_map_leads fun s s' hs hmove => ?_).imp_error fun _ _ hs => hs.beside
  rw [moveTo, hs.find?_eq] at hmove
  obtain ⟨⟨⟩, hpath, hmove⟩ := bind_eq_ok_iff.mp hmove
  obtain ⟨there, hthere, hmove⟩ := bind_eq_ok_iff.mp hmove
  obtain ⟨front, dir, last, hdest, rfl⟩ := destination_eq_ok_iff.mp hthere
  cases hmove
  exact ⟨hpath, front, dir, last, hs.addsFile.destination_iff.mp hdest, by rw [hs.eq_put, erase_put hs.unused]⟩

/-- Until it is moved, the new file is all that is new. -/
theorem complete_leads :
    Leads (Holds t place newFileMode []) (@FileStore.complete _ _ _ disk.store place path content)
      (fun _ => Replaced t path content) fun _ => Beside t place := by
  refine (copyMode_leads disk t place path).bind ?_
  intro _
  refine Leads.bind (Q := fun _ => Holds t place ((t.mode? path).getD newFileMode) content)
    ((change_map_leads fun _ _ h hs => h.append hs).imp_error fun _ _ h => h.beside) ?_
  intro _
  refine Leads.bind (Q := fun _ => Holds t place ((t.mode? path).getD newFileMode) content)
    ((change_leads ?_).imp_error fun _ _ h => h.beside) fun _ => moveTo_leads disk t place path content
  intro s _ s' h hs
  cases hs
  exact h

/-- A new file takes a name that is not in use. -/
theorem makeTemporary_leads (directory : Bytes) :
    Leads (· = t) (ExceptT.mk (@FileStore.makeTemporary _ _ disk.store directory))
      (fun place => Holds t place newFileMode []) fun _ => (· = t) := by
  refine change_leads ?_
  rintro s place s' rfl hs
  obtain ⟨-, -, hs⟩ := bind_eq_ok_iff.mp hs
  obtain ⟨dir, -, hs⟩ := bind_eq_ok_iff.mp hs
  cases hs
  exact ⟨disk.name_unused s dir, rfl⟩

theorem discard_leads :
    Leads (ε := FileError) (Beside t place)
      (liftM (@FileStore.discard _ _ disk.store place)) (fun _ => (· = t)) fun _ => (· = t) :=
  .lift fun _ h => h.erase

theorem replace_leads :
    Leads (· = t) (@FileStore.replace _ _ _ disk.store path content)
      (fun _ => Replaced t path content) fun _ => (· = t) := by
  refine (makeTemporary_leads disk t _).bind ?_
  intro place
  refine (complete_leads disk t place path content).tryCatch ?_
  intro e
  refine (discard_leads disk t place).bind ?_
  intro _
  exact .throw fun _ h => h

end

namespace Disk

/-- What a replacement comes to on a disk, and the tree that it leaves. -/
def replace (disk : Disk) (path content : Bytes) (t : FileTree) : Except FileError Unit × FileTree :=
  (@FileStore.replace _ _ _ disk.store path content).run.run t

variable {disk : Disk} {path content : Bytes} {t t' : FileTree}

/-- A replacement that fails leaves the tree unchanged. -/
theorem replace_atomic {e : FileError} (h : disk.replace path content t = (.error e, t')) : t' = t := by
  have hleads := replace_leads disk t path content t rfl
  unfold replace at h
  rw [h] at hleads
  exact hleads

/-- A replacement that succeeds leaves the tree with the destination of the path changed. -/
theorem replaced_of_replace (h : disk.replace path content t = (.ok (), t')) :
    Replaced t path content t' := by
  have hleads := replace_leads disk t path content t rfl
  unfold replace at h
  rw [h] at hleads
  exact hleads

end Disk

end EventScript.FileTree
