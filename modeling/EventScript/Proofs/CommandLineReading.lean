import EventScript.CommandLine.Parser
import EventScript.Proofs.Outcome

/-!
# What a command line says stays said

Arguments are taken one after another, and none takes back what an earlier one has said. The options of a level
are ended by two dashes and by nothing else.

* `Progress.keeps_take`: what an argument leaves of a level.
* `State.asks_step`, `State.stillOpen_step`: what it leaves of the whole reading.
* `json_of_parse`: a line that says `--json` before any two dashes, and can be read, asks for JSON.
-/

namespace EventScript.CommandLine

open Outcome

/-- The argument that asks for JSON reports. -/
def jsonFlag : Bytes :=
  Utf8.encode "--json"

/-- The argument that ends the options. -/
def twoDashes : Bytes :=
  Utf8.encode "--"

/-- The flag for JSON is set by giving it and by nothing else, and is never taken back. -/
theorem Values.json_assign {v v' : Values} {a : Argument} {value : Bytes} (h : v.assign a value = .ok v') :
    v'.json = true ↔ v.json = true ∨ a = .json := by
  unfold assign at h
  cases a with
  | json | yes | help | version =>
    cases h
    simp
  | color | format | shell =>
    dsimp only at h
    split_ifs at h with hvalue
    split at h
    · cases h
      simp
    · cases h
  | input | output | file =>
    dsimp only at h
    split_ifs at h with hvalue
    cases h
    simp

namespace Progress

variable {l : Level} {p p' p'' : Progress}

/-- Reading goes on in the same part of a level, and a flag for JSON is kept. -/
structure Keeps (p p' : Progress) : Prop where
  json : p.values.json = true → p'.values.json = true
  ended : p'.ended = p.ended

theorem Keeps.refl (p : Progress) : p.Keeps p :=
  ⟨id, rfl⟩

theorem Keeps.trans (h : p.Keeps p') (h' : p'.Keeps p'') : p.Keeps p'' :=
  ⟨h'.json ∘ h.json, h'.ended.trans h.ended⟩

/-- What is kept back is no part of what has been said. -/
theorem Keeps.of_eq (h : p'.values = p.values) (hended : p'.ended = p.ended) : p.Keeps p' :=
  ⟨fun hjson => h ▸ hjson, hended⟩

theorem accept_eq_ok {a : Argument} {value : Bytes} (h : p.accept l a value = .ok p') :
    ∃ values, p.values.assign a value = .ok values ∧ p' = { p with values } := by
  unfold accept at h
  split_ifs at h with hrepeated
  split at h
  · cases h
  · cases h
    exact ⟨_, ‹_›, rfl⟩

theorem keeps_accept {a : Argument} {value : Bytes} (h : p.accept l a value = .ok p') : p.Keeps p' := by
  obtain ⟨values, hvalues, rfl⟩ := accept_eq_ok h
  exact ⟨fun hjson => (Values.json_assign hvalues).mpr (.inl hjson), rfl⟩

theorem keeps_settle (h : p.settle l = .ok p') : p.Keeps p' := by
  unfold settle at h
  split at h
  · cases h
    exact .refl _
  · cases h
  · cases h
  · have hcleared : p.Keeps { p with pending := .nothing } := .of_eq rfl rfl
    exact hcleared.trans (keeps_accept h)

theorem keeps_takeFlag {a : Argument} (h : p.takeFlag l a = .ok p') : p.Keeps p' := by
  obtain ⟨q, hq, h⟩ := bind_eq_ok_iff.mp h
  refine (keeps_settle hq).trans ?_
  split at h
  · cases h
  · cases h
  · exact keeps_accept h

theorem keeps_takeOption {word : Bytes} (h : p.takeOption l word = .ok p') : p.Keeps p' := by
  unfold takeOption at h
  dsimp only at h
  split at h
  · cases h
  · split_ifs at h
    · obtain ⟨q, hq, h⟩ := bind_eq_ok_iff.mp h
      cases h
      exact (keeps_settle hq).trans (.of_eq rfl rfl)
    · exact keeps_takeFlag h
  · split_ifs at h
    obtain ⟨q, hq, h⟩ := bind_eq_ok_iff.mp h
    exact (keeps_settle hq).trans (keeps_accept h)

theorem keeps_takeLetters {pieces : List Utf8.Piece} (h : p.takeLetters l pieces = .ok p') :
    p.Keeps p' := by
  induction pieces generalizing p with
  | nil =>
    cases h
    exact .refl _
  | cons piece rest ih =>
    cases piece with
    | invalid => cases h
    | char c =>
      unfold takeLetters at h
      split at h
      · cases h
      · obtain ⟨q, hq, h⟩ := bind_eq_ok_iff.mp h
        exact (keeps_takeFlag hq).trans (ih h)

theorem keeps_takeWord {word : Bytes} (h : p.takeWord l word = .ok p') : p.Keeps p' := by
  unfold takeWord at h
  split at h
  · cases h
    exact .of_eq rfl rfl
  · split at h
    · obtain ⟨q, hq, h⟩ := bind_eq_ok_iff.mp h
      cases h
      exact (keeps_settle hq).trans (.of_eq rfl rfl)
    · split_ifs at h

/-- Only two dashes end the options of a level. -/
theorem keeps_take {argument : Bytes} (h : p.take l argument = .ok p') :
    p.Keeps p' ∨ argument = twoDashes ∧ p' = p.endOptions := by
  unfold take at h
  split_ifs at h with hended
  · exact .inl (keeps_takeWord h)
  · split at h
    · exact .inl (keeps_takeWord h)
    · exact .inl (keeps_takeWord h)
    · split_ifs at h with ha hb hrest
      · exact .inl (keeps_takeWord h)
      · exact .inl (keeps_takeLetters h)
      · cases h
        refine .inr ⟨?_, rfl⟩
        rw [Classical.not_not.mp ha, Classical.not_not.mp hb, hrest]
        rfl
      · exact .inl (keeps_takeOption h)

theorem json_of_take {argument : Bytes} (h : p.take l argument = .ok p') (hjson : p.values.json = true) :
    p'.values.json = true := by
  rcases keeps_take h with hkeeps | ⟨-, rfl⟩
  · exact hkeeps.json hjson
  · exact hjson

theorem ended_of_take {argument : Bytes} (h : p.take l argument = .ok p') (hne : argument ≠ twoDashes) :
    p'.ended = p.ended := by
  rcases keeps_take h with hkeeps | ⟨heq, -⟩
  · exact hkeeps.ended
  · exact absurd heq hne

/-- While options are read, the flag for JSON is taken for what it is, at every level that has it. -/
theorem json_of_take_jsonFlag (hopen : p.ended = false) (h : p.take l jsonFlag = .ok p') :
    p'.values.json = true := by
  have htake : p.take l jsonFlag = p.takeOption l (Utf8.encode "json") := by
    unfold take
    rw [hopen]
    rfl
  have hoption : l.option? (Utf8.encode "json") = some .json ∨ l.option? (Utf8.encode "json") = none := by
    cases l <;> decide
  have hname : (Utf8.encode "json").takeWhile (· != Ascii.equals) = Utf8.encode "json" := by decide
  have hattached : ((Utf8.encode "json").dropWhile (· != Ascii.equals)).tail? = none := by decide
  rw [htake, takeOption, hname, hattached] at h
  rcases hoption with hoption | hoption
  · rw [hoption] at h
    obtain ⟨q, -, h⟩ := bind_eq_ok_iff.mp h
    obtain ⟨values, hvalues, rfl⟩ := accept_eq_ok h
    exact (Values.json_assign hvalues).mpr (.inr rfl)
  · rw [hoption] at h
    cases h

end Progress

namespace State

variable {s s' : State}

/-- JSON has been asked for, if the line comes to a command at all. -/
def Asks : State → Prop
  | .top p => p.values.json = true
  | .command outer _ p => p.values.json = true ∨ outer.values.json = true
  | .helping _ => True

/-- The options of the level that is read have not been ended. -/
def StillOpen : State → Prop
  | .top p | .command _ _ p => p.ended = false
  | .helping _ => True

/-- What an argument does to the reading of a line. -/
inductive Steps (argument : Bytes) : State → State → Prop
  | taken {p p' : Progress} (take : p.take .top argument = .ok p') : Steps argument (.top p) (.top p')
  | opened {p : Progress} {l : Level} (allowed : p.allowsCommand = true)
      (named : Level.ofName? argument = some l) : Steps argument (.top p) (.command p l {})
  | takenBy {outer p p' : Progress} {l : Level} (take : p.take l argument = .ok p') :
      Steps argument (.command outer l p) (.command outer l p')
  | help {p : Progress} (allowed : p.allowsCommand = true) (named : Level.ofName? argument = some .help) :
      Steps argument (.top p) (.helping .top)
  | helpOn {l : Level} (named : Level.ofName? argument = some l) :
      Steps argument (.helping .top) (.helping l)

theorem steps_of_step {argument : Bytes} (h : s.step argument = .ok s') : Steps argument s s' := by
  cases s with
  | top p =>
    dsimp only [step] at h
    split at h
    · rename_i hname
      cases h
      obtain ⟨hallowed, hnamed⟩ := Option.ite_none_right_eq_some.mp hname
      exact .help hallowed hnamed
    · rename_i hname
      cases h
      obtain ⟨hallowed, hnamed⟩ := Option.ite_none_right_eq_some.mp hname
      exact .opened hallowed hnamed
    · obtain ⟨p', htake, rfl⟩ := map_eq_ok_iff.mp h
      exact .taken htake
  | command outer l p =>
    obtain ⟨p', htake, rfl⟩ := map_eq_ok_iff.mp h
    exact .takenBy htake
  | helping l =>
    dsimp only [step] at h
    split at h
    · rename_i hname
      cases h
      obtain ⟨rfl, hnamed⟩ := Option.ite_none_right_eq_some.mp hname
      exact .helpOn hnamed
    · cases h

theorem asks_step {argument : Bytes} (h : s.step argument = .ok s') (hasks : s.Asks) : s'.Asks := by
  cases steps_of_step h with
  | taken take => exact Progress.json_of_take take hasks
  | opened => exact .inr hasks
  | takenBy take => exact hasks.imp (Progress.json_of_take take) id
  | help => trivial
  | helpOn => trivial

theorem stillOpen_step {argument : Bytes} (h : s.step argument = .ok s') (hne : argument ≠ twoDashes)
    (hopen : s.StillOpen) : s'.StillOpen := by
  cases steps_of_step h with
  | taken take => exact (Progress.ended_of_take take hne).trans hopen
  | opened => rfl
  | takenBy take => exact (Progress.ended_of_take take hne).trans hopen
  | help => trivial
  | helpOn => trivial

theorem asks_step_jsonFlag (h : s.step jsonFlag = .ok s') (hopen : s.StillOpen) : s'.Asks := by
  have hname : Level.ofName? jsonFlag = none := by decide
  cases steps_of_step h with
  | taken take => exact Progress.json_of_take_jsonFlag hopen take
  | opened _ named => cases named.symm.trans hname
  | takenBy take => exact .inl (Progress.json_of_take_jsonFlag hopen take)
  | help => trivial
  | helpOn => trivial

/-- A line that comes to a command has what it has asked for at either level. -/
theorem json_of_finish {inv : Invocation} (h : s.finish = .ok inv) (hasks : s.Asks) : inv.json = true := by
  cases s with
  | top p =>
    obtain ⟨q, -, h⟩ := bind_eq_ok_iff.mp h
    split_ifs at h
    all_goals cases h
  | command outer l p =>
    obtain ⟨q, hq, h⟩ := bind_eq_ok_iff.mp h
    split at h
    · cases h
    · obtain ⟨q', hq', h⟩ := bind_eq_ok_iff.mp h
      cases h
      rw [Bool.or_eq_true]
      exact hasks.imp (Progress.keeps_settle hq).json (Progress.keeps_settle hq').json
  | helping l => cases h

end State

/-- A line says `--json` before any two dashes. -/
def SaysJson (arguments : List Bytes) : Prop :=
  ∃ before after, twoDashes ∉ before ∧ arguments = before ++ jsonFlag :: after

/-- A line that says `--json` before any two dashes, and can be read, asks for JSON. -/
theorem json_of_parse {arguments : List Bytes} {inv : Invocation} (hjson : SaysJson arguments)
    (h : parse arguments = .ok inv) : inv.json = true := by
  obtain ⟨before, after, hopen, rfl⟩ := hjson
  obtain ⟨s, hs, hfinish⟩ := bind_eq_ok_iff.mp h
  rw [List.foldlM_append, bind_eq_ok_iff] at hs
  obtain ⟨s₁, hbefore, hs⟩ := hs
  rw [List.foldlM_cons, bind_eq_ok_iff] at hs
  obtain ⟨s₂, hflag, hafter⟩ := hs
  have hs₁ : s₁.StillOpen := by
    refine foldlM_preserves ?_ hbefore rfl
    intro a ha _ _ hstep
    exact State.stillOpen_step hstep (ne_of_mem_of_not_mem ha hopen)
  have hs₂ : s₂.Asks := State.asks_step_jsonFlag hflag hs₁
  have hasks : s.Asks := foldlM_preserves (fun _ _ _ _ hstep => State.asks_step hstep) hafter hs₂
  exact State.json_of_finish hfinish hasks

end EventScript.CommandLine
