import EventScript.Proofs.CommandLineReading

/-!
# Options in any order

A build is told its colour, the flag for JSON, a format, leave to overwrite, and one or two paths. Each of these is
an item of its line, of one word or of two. Items are read one after another, and what a level then holds is what
they say, in whichever order they came: only paths are told apart by their order.

* `Progress.gives_inOneWord`, `Progress.gives_inTwoWords`, `Progress.gives_flag`, `Progress.gives_letter`: what the
  ways to write an option do at a level; `Progress.gives_item`: all of them give its argument the same value.
* `Progress.told_concat`, `Progress.exists_told`: what one more item adds to a level, and what all of them come to.
* `parse_any_order`: a line that says each option of a build once, anywhere, and its paths in order, is read as that
  build.
-/

namespace EventScript.CommandLine

open Outcome

/-! ## Items -/

/-- What a build is told, one thing at a time. -/
inductive Item
  | color (c : ColorChoice)
  | json
  | format (f : Table.Format)
  | yes
  | input (octets : Bytes)
  | output (octets : Bytes)
  deriving DecidableEq, Repr

namespace Item

/-- The ways to write an option that takes a value: in two words or in one. -/
def withValue (name value : String) : List (List Bytes) :=
  [[Utf8.encode ("--" ++ name), Utf8.encode value], [Utf8.encode ("--" ++ name ++ "=" ++ value)]]

/-- The ways to write an item, each of them some words. -/
def spellings : Item → List (List Bytes)
  | .color c => withValue "color" c.label
  | .json => [[Utf8.encode "--json"]]
  | .format f => withValue "in" f.label
  | .yes => [[Utf8.encode "-y"], [Utf8.encode "--yes"]]
  | .input octets | .output octets => [[octets]]

/-- The argument that an item gives. -/
def argument : Item → Argument
  | .color _ => .color
  | .json => .json
  | .format _ => .format
  | .yes => .yes
  | .input _ => .input
  | .output _ => .output

/-- The value that an item gives to its argument; a flag has none. -/
def value : Item → Bytes
  | .color c => Utf8.encode c.label
  | .json | .yes => []
  | .format f => Utf8.encode f.label
  | .input octets | .output octets => octets

/-- Whether an item is a path. -/
def isPath : Item → Bool
  | .input _ | .output _ => true
  | _ => false

/-- Whether an item can also be said before the command. -/
def isGlobal : Item → Bool
  | .color _ | .json => true
  | _ => false

theorem spellings_of_isPath {item : Item} (h : item.isPath = true) : item.spellings = [[item.value]] := by
  cases item with
  | input | output => rfl
  | color | json | format | yes => cases h

end Item

/-- Words that say some items, each of them in one of its spellings. -/
def Spells (items : List Item) (words : List Bytes) : Prop :=
  ∃ spelled : List (List Bytes),
    List.Forall₂ (fun item spelling => spelling ∈ item.spellings) items spelled ∧ words = spelled.flatten

/-- No word of an item that can stand before the command is the name of one. -/
theorem Spells.ofName?_eq_none {items : List Item} {words : List Bytes} (h : Spells items words)
    (hglobal : ∀ item ∈ items, item.isGlobal = true) : ∀ word ∈ words, Level.ofName? word = none := by
  obtain ⟨spelled, hspelled, rfl⟩ := h
  induction hspelled with
  | nil => nofun
  | @cons item spelling items spelled hspelling _ ih =>
    rw [List.forall_mem_cons] at hglobal
    rw [List.flatten_cons, List.forall_mem_append]
    refine ⟨?_, ih hglobal.2⟩
    revert spelling
    cases item with
    | color c => cases c <;> decide
    | json => decide
    | format | yes | input | output => cases hglobal.1

/-- A path that cannot be taken for anything else: it is not empty, and does not start with a dash. -/
def IsPlain (octets : Bytes) : Prop :=
  octets ≠ [] ∧ octets.head? ≠ some Ascii.minus

instance (octets : Bytes) : Decidable (IsPlain octets) :=
  inferInstanceAs (Decidable (_ ∧ _))

/-! ## What values hold -/

namespace Values

/-- Adds what an item says. -/
def put (v : Values) : Item → Values
  | .color c => { v with color := some c }
  | .json => { v with json := true }
  | .format f => { v with format := some f }
  | .yes => { v with yes := true }
  | .input octets => { v with input := some octets }
  | .output octets => { v with output := some octets }

/-- An item has been said. -/
def Holds (v : Values) : Item → Prop
  | .color c => v.color = some c
  | .json => v.json = true
  | .format f => v.format = some f
  | .yes => v.yes = true
  | .input octets => v.input = some octets
  | .output octets => v.output = some octets

theorem not_holds_empty (item : Item) : ¬ ({} : Values).Holds item := by
  cases item <;> simp [Holds]

/-- An item whose argument has not been given adds itself and takes nothing away. -/
theorem holds_put {v : Values} {item : Item} (hnew : v.has item.argument = false) (other : Item) :
    (v.put item).Holds other ↔ v.Holds other ∨ other = item := by
  cases item <;> cases other <;> grind [put, Holds, has, Item.argument]

theorem exists_holds_of_has {v : Values} {item : Item} (h : v.has item.argument = true) :
    ∃ other, v.Holds other ∧ other.argument = item.argument := by
  cases item with
  | color =>
    obtain ⟨c, hc⟩ := Option.isSome_iff_exists.mp h
    exact ⟨.color c, hc, rfl⟩
  | json => exact ⟨.json, h, rfl⟩
  | format =>
    obtain ⟨f, hf⟩ := Option.isSome_iff_exists.mp h
    exact ⟨.format f, hf, rfl⟩
  | yes => exact ⟨.yes, h, rfl⟩
  | input =>
    obtain ⟨octets, hoctets⟩ := Option.isSome_iff_exists.mp h
    exact ⟨.input octets, hoctets, rfl⟩
  | output =>
    obtain ⟨octets, hoctets⟩ := Option.isSome_iff_exists.mp h
    exact ⟨.output octets, hoctets, rfl⟩

/-- The value of an item is one that its argument can have. -/
theorem assign_item (v : Values) {item : Item} (hpath : item.isPath = true → item.value ≠ []) :
    v.assign item.argument item.value = .ok (v.put item) := by
  cases item with
  | color c => cases c <;> rfl
  | json => rfl
  | format f => cases f <;> rfl
  | yes => rfl
  | input octets =>
    have hvalue : octets ≠ [] := hpath rfl
    simp [assign, put, Item.argument, Item.value, hvalue]
  | output octets =>
    have hvalue : octets ≠ [] := hpath rfl
    simp [assign, put, Item.argument, Item.value, hvalue]

end Values

namespace Progress

variable {l : Level} {p q : Progress} {a : Argument} {name value word : Bytes}

/-! ## What has been kept back -/

/-- To take what has been kept back changes the values of a level, and nothing else. -/
theorem settle_eq_ok (h : p.settle l = .ok q) :
    (∀ a, p.pending ≠ .awaiting a) ∧ ∃ values, q = { p with values, pending := .nothing } := by
  unfold settle at h
  split at h
  next hpending =>
    cases h
    rw [hpending]
    refine ⟨nofun, p.values, ?_⟩
    rw [← hpending]
  next => cases h
  next => cases h
  next a value hpending =>
    obtain ⟨values, -, rfl⟩ := accept_eq_ok h
    rw [hpending]
    exact ⟨nofun, values, rfl⟩

theorem ended_of_settle (h : p.settle l = .ok q) : p.ended = q.ended := by
  obtain ⟨-, values, rfl⟩ := settle_eq_ok h
  rfl

theorem pending_of_settle (h : p.settle l = .ok q) : q.pending = .nothing := by
  obtain ⟨-, values, rfl⟩ := settle_eq_ok h
  rfl

theorem settle_given (hpending : p.pending = .nothing) :
    ({ p with pending := .given a value } : Progress).settle l = p.accept l a value := by
  show ({ p with pending := .nothing } : Progress).accept l a value = _
  rw [← hpending]

/-- What is accepted at once leaves nothing that would be kept back. -/
theorem accept_bind_settle (hpending : p.pending = .nothing) :
    p.accept l a value >>= (·.settle l) = p.accept l a value := by
  cases h : p.accept l a value with
  | error => rfl
  | ok p' =>
    obtain ⟨values, -, rfl⟩ := accept_eq_ok h
    show settle _ l = _
    unfold settle
    rw [hpending]

/-! ## The ways to write an option -/

theorem take_dashes (hopen : p.ended = false) (hword : word ≠ []) :
    p.take l (twoDashes ++ word) = p.takeOption l word := by
  show p.take l (Ascii.minus :: Ascii.minus :: word) = _
  unfold take
  simp [hopen, hword]

theorem take_plain (hopen : p.ended = false) (hword : word.head? ≠ some Ascii.minus) :
    p.take l word = p.takeWord l word := by
  unfold take
  rw [hopen]
  match word with
  | [] => rfl
  | [_] => rfl
  | b :: c :: rest =>
    have hb : b ≠ Ascii.minus := fun h => hword (congrArg some h)
    simp [hb]

theorem bne_of_notMem {b : UInt8} (h : b ∉ word) : ∀ c ∈ word, (c != b) = true :=
  fun _ hc => bne_iff_ne.mpr (ne_of_mem_of_not_mem hc h)

theorem takeOption_alone (hname : Ascii.equals ∉ name) (hoption : l.option? name = some a) :
    p.takeOption l name =
      if a.takesValue then p.settle l >>= fun q => pure { q with pending := .awaiting a } else p.takeFlag l a := by
  unfold takeOption
  rw [List.takeWhile_eq_self_iff.mpr (bne_of_notMem hname), List.dropWhile_eq_nil_iff.mpr (bne_of_notMem hname)]
  dsimp only
  rw [hoption]
  rfl

/-- A word is divided at its first equals sign. -/
theorem takeOption_attached (hname : Ascii.equals ∉ name) (hoption : l.option? name = some a)
    (htakes : a.takesValue = true) :
    p.takeOption l (name ++ Ascii.equals :: value) = p.settle l >>= (·.accept l a value) := by
  unfold takeOption
  rw [List.takeWhile_append_of_pos (bne_of_notMem hname), List.dropWhile_append_of_pos (bne_of_notMem hname)]
  simp [hoption, htakes]

theorem takeFlag_eq (hhelp : a ≠ .help) (hversion : a ≠ .version) :
    p.takeFlag l a = p.settle l >>= (·.accept l a []) := by
  unfold takeFlag
  cases a <;> trivial

/-- Takes words one after another. -/
def takeAll (p : Progress) (l : Level) (words : List Bytes) : Except Stop Progress :=
  words.foldlM (fun p word => p.take l word) p

theorem takeAll_singleton : p.takeAll l [word] = p.take l word :=
  bind_pure _

theorem takeAll_cons (words : List Bytes) : p.takeAll l (word :: words) = p.take l word >>= (·.takeAll l words) :=
  List.foldlM_cons

theorem takeAll_append (words words' : List Bytes) :
    p.takeAll l (words ++ words') = p.takeAll l words >>= (·.takeAll l words') :=
  List.foldlM_append

/-- Words that give an argument its value, whatever has been read before them. -/
def Gives (l : Level) (words : List Bytes) (a : Argument) (value : Bytes) : Prop :=
  ∀ p q : Progress, p.settle l = .ok q → q.ended = false →
    p.takeAll l words >>= (·.settle l) = q.accept l a value

theorem gives_of_take (h : ∀ p : Progress, p.ended = false → p.take l word = p.settle l >>= (·.accept l a value)) :
    Gives l [word] a value := by
  intro p q hsettle hopen
  have htake : p.take l word = q.accept l a value := by
    rw [h p ((ended_of_settle hsettle).trans hopen), hsettle]
    rfl
  rw [takeAll_singleton, htake]
  exact accept_bind_settle (pending_of_settle hsettle)

theorem gives_inOneWord (hname : Ascii.equals ∉ name) (hoption : l.option? name = some a)
    (htakes : a.takesValue = true) : Gives l [twoDashes ++ (name ++ Ascii.equals :: value)] a value := by
  apply gives_of_take
  intro p hopen
  rw [take_dashes hopen (by simp), takeOption_attached hname hoption htakes]

/-- The value of an option is kept back in its turn. -/
theorem gives_inTwoWords (hname : Ascii.equals ∉ name) (hne : name ≠ [])
    (hoption : l.option? name = some a) (htakes : a.takesValue = true)
    (hvalue : value.head? ≠ some Ascii.minus) : Gives l [twoDashes ++ name, value] a value := by
  intro p q hsettle hopen
  have htake : p.take l (twoDashes ++ name) = .ok { q with pending := .awaiting a } := by
    rw [take_dashes ((ended_of_settle hsettle).trans hopen) hne, takeOption_alone hname hoption, if_pos htakes,
      hsettle]
    rfl
  have htakeValue : ({ q with pending := .awaiting a } : Progress).take l value =
      .ok { q with pending := .given a value } :=
    take_plain hopen hvalue
  rw [takeAll_cons, htake]
  show ({ q with pending := .awaiting a } : Progress).takeAll l [value] >>= (·.settle l) = _
  rw [takeAll_singleton, htakeValue]
  exact settle_given (pending_of_settle hsettle)

theorem gives_flag (hname : Ascii.equals ∉ name) (hne : name ≠ [])
    (hoption : l.option? name = some a) (htakes : a.takesValue = false) (hhelp : a ≠ .help)
    (hversion : a ≠ .version) : Gives l [twoDashes ++ name] a [] := by
  apply gives_of_take
  intro p hopen
  rw [take_dashes hopen hne, takeOption_alone hname hoption, htakes]
  exact takeFlag_eq hhelp hversion

theorem gives_letter {b : UInt8} (hascii : b < 0x80) (hne : b ≠ Ascii.minus)
    (hletter : l.letter? (Char.ofNat b.toNat) = some a) (hhelp : a ≠ .help) (hversion : a ≠ .version) :
    Gives l [[Ascii.minus, b]] a [] := by
  apply gives_of_take
  intro p hopen
  have hpieces : Utf8.pieces [b] = [.char (Char.ofNat b.toNat)] := Utf8.pieces_append_ascii [] hascii []
  have htake : p.take l [Ascii.minus, b] = p.takeLetters l (Utf8.pieces [b]) := by
    unfold take
    simp [hopen, hne]
  rw [htake, hpieces, takeLetters, hletter]
  dsimp only [takeLetters]
  rw [takeFlag_eq hhelp hversion]
  exact bind_pure _

theorem gives_withValue {name value : String} {spelling : List Bytes}
    (hname : Ascii.equals ∉ Utf8.encode name) (hne : Utf8.encode name ≠ [])
    (hoption : l.option? (Utf8.encode name) = some a) (htakes : a.takesValue = true)
    (hvalue : (Utf8.encode value).head? ≠ some Ascii.minus) (hspelled : spelling ∈ Item.withValue name value) :
    Gives l spelling a (Utf8.encode value) := by
  have hequals : Utf8.encode "=" = [Ascii.equals] := by decide
  simp only [Item.withValue, Utf8.encode_append, hequals, List.mem_pair] at hspelled
  obtain rfl | rfl := hspelled
  · exact gives_inTwoWords hname hne hoption htakes hvalue
  · rw [List.append_assoc, List.append_assoc]
    exact gives_inOneWord hname hoption htakes

/-- An option has the same name at every level that has it. -/
theorem option?_name (l : Level) :
    ∀ o ∈ Level.build.options, o.2 ∈ l.options.map Prod.snd → l.option? (Utf8.encode o.1) = some o.2 := by
  cases l <;> decide

/-- However an option is written, it gives its argument the same value. -/
theorem gives_item {item : Item} {spelling : List Bytes} (hpath : item.isPath = false)
    (hoption : item.argument ∈ l.options.map Prod.snd) (hspelled : spelling ∈ item.spellings) :
    Gives l spelling item.argument item.value := by
  cases item with
  | color c =>
    have hcolor := option?_name l ("color", .color) (by decide) hoption
    exact gives_withValue (by decide) (by decide) hcolor rfl (by cases c <;> decide) hspelled
  | format f =>
    have hformat := option?_name l ("in", .format) (by decide) hoption
    exact gives_withValue (by decide) (by decide) hformat rfl (by cases f <;> decide) hspelled
  | json =>
    have hjson := option?_name l ("json", .json) (by decide) hoption
    rw [Item.spellings, List.mem_singleton] at hspelled
    subst hspelled
    show Gives l [twoDashes ++ Utf8.encode "json"] .json []
    exact gives_flag (by decide) (by decide) hjson rfl nofun nofun
  | yes =>
    have hyes := option?_name l ("yes", .yes) (by decide) hoption
    have hletter : .yes ∈ l.options.map Prod.snd → l.letter? 'y' = some .yes := by
      cases l <;> decide
    rw [Item.spellings, List.mem_pair] at hspelled
    obtain rfl | rfl := hspelled
    · exact gives_letter (b := 0x79) (by decide) (by decide) (hletter hoption) nofun nofun
    · show Gives l [twoDashes ++ Utf8.encode "yes"] .yes []
      exact gives_flag (by decide) (by decide) hyes rfl nofun nofun
  | input | output => cases hpath

/-! ## Items one after another -/

/-- A path is kept back for the argument whose turn it is. -/
theorem take_path (hsettle : p.settle l = .ok q) (hopen : q.ended = false)
    (hword : word.head? ≠ some Ascii.minus) (hplace : l.positionals[q.count]? = some a) :
    p.take l word = .ok { q with pending := .given a word, count := q.count + 1 } := by
  obtain ⟨hawaiting, values, hq⟩ := settle_eq_ok hsettle
  have hcount : q.count = p.count := by rw [hq]
  rw [take_plain ((ended_of_settle hsettle).trans hopen) hword]
  unfold takeWord
  split
  next a ha => exact absurd ha (hawaiting a)
  next =>
    rw [← hcount, hplace]
    dsimp only
    rw [hsettle]
    rfl

theorem accept_item {item : Item} (hnew : p.values.has item.argument = false)
    (hpath : item.isPath = true → item.value ≠ []) :
    p.accept l item.argument item.value = .ok { p with values := p.values.put item } := by
  unfold accept
  rw [hnew, Values.assign_item p.values hpath]
  rfl

/-- Items that a level can be told: each argument once, and the paths in the order of its arguments without a name. -/
structure Fits (l : Level) (items : List Item) : Prop where
  once : (items.map Item.argument).Nodup
  options : ∀ item ∈ items, item.isPath = false → item.argument ∈ l.options.map Prod.snd
  paths : (items.filter Item.isPath).map Item.argument <+: l.positionals
  plain : ∀ item ∈ items, item.isPath = true → IsPlain item.value

/-- What has been read of a level is what some items say: when what has been kept back is taken, the level holds these
items and nothing else, and its options have not been ended. -/
def Told (l : Level) (items : List Item) (p : Progress) : Prop :=
  ∃ values, p.settle l = .ok { values, count := items.countP Item.isPath } ∧ ∀ item, values.Holds item ↔ item ∈ items

section

variable {items : List Item} {item : Item} {spelling words : List Bytes}

theorem Fits.of_append {items' : List Item} (h : Fits l (items ++ items')) : Fits l items where
  once := by
    have honce := h.once
    rw [List.map_append] at honce
    exact honce.of_append_left
  options other hother := h.options other (List.mem_append_left _ hother)
  paths := by
    have hpaths := h.paths
    rw [List.filter_append, List.map_append] at hpaths
    exact (List.prefix_append _ _).trans hpaths
  plain other hother := h.plain other (List.mem_append_left _ hother)

theorem Fits.place (h : Fits l (items ++ [item])) (hpath : item.isPath = true) :
    l.positionals[items.countP Item.isPath]? = some item.argument := by
  obtain ⟨rest, hrest⟩ := h.paths
  rw [← hrest, List.filter_append, List.map_append, List.countP_eq_length_filter]
  simp [hpath]

theorem Fits.new (h : Fits l (items ++ [item])) {v : Values} (hheld : ∀ other, v.Holds other → other ∈ items) :
    v.has item.argument = false := by
  rw [Bool.eq_false_iff]
  intro hhas
  obtain ⟨other, hother, hargument⟩ := Values.exists_holds_of_has hhas
  have honce := h.once
  rw [List.map_append, List.map_singleton, List.nodup_append] at honce
  exact honce.2.2 _ (List.mem_map_of_mem (hheld other hother)) _ (List.mem_singleton_self _) hargument

theorem told_nil : Told l [] {} :=
  ⟨{}, rfl, fun item => iff_of_false (Values.not_holds_empty item) List.not_mem_nil⟩

/-- One more item is added to those that have been read. -/
theorem told_concat (hfits : Fits l (items ++ [item])) (hspelled : spelling ∈ item.spellings)
    (htold : p.Told l items) : ∃ p', p.takeAll l spelling = .ok p' ∧ p'.Told l (items ++ [item]) := by
  obtain ⟨values, hsettle, hholds⟩ := htold
  have hnew : values.has item.argument = false := hfits.new fun other => (hholds other).mp
  have hadds : ∀ other, (values.put item).Holds other ↔ other ∈ items ++ [item] := by
    intro other
    rw [Values.holds_put hnew, hholds, List.mem_append, List.mem_singleton]
  have hplain : item.isPath = true → IsPlain item.value := hfits.plain item (by simp)
  have haccept {p : Progress} (hvalues : p.values = values) :
      p.accept l item.argument item.value = .ok { p with values := values.put item } := by
    subst hvalues
    exact accept_item hnew fun hpath => (hplain hpath).1
  cases hpath : item.isPath with
  | false =>
    have hgives := gives_item hpath (hfits.options item (by simp) hpath) hspelled p _ hsettle rfl
    rw [haccept rfl] at hgives
    obtain ⟨p', hp', hsettle'⟩ := bind_eq_ok_iff.mp hgives
    refine ⟨p', hp', _, ?_, hadds⟩
    rw [hsettle', List.countP_append]
    simp [hpath]
  | true =>
    rw [Item.spellings_of_isPath hpath, List.mem_singleton] at hspelled
    have htake := take_path hsettle rfl (hplain hpath).2 (hfits.place hpath)
    rw [hspelled, takeAll_singleton]
    refine ⟨_, htake, _, ?_, hadds⟩
    show ({ values, count := items.countP Item.isPath + 1 } : Progress).accept l item.argument item.value = _
    rw [haccept rfl, List.countP_append]
    simp [hpath]

/-- The words of some items are read as these items. -/
theorem exists_told (hfits : Fits l items) (hspells : Spells items words) :
    ∃ p, ({} : Progress).takeAll l words = .ok p ∧ p.Told l items := by
  obtain ⟨spelled, hspelled, rfl⟩ := hspells
  -- the items that are still to come are read where others have been said
  suffices hrest : ∀ (said : List Item) (p : Progress), Fits l (said ++ items) → p.Told l said →
      ∃ p', p.takeAll l spelled.flatten = .ok p' ∧ p'.Told l (said ++ items) from
    hrest [] {} hfits told_nil
  clear hfits
  induction hspelled with
  | nil =>
    intro said p _ htold
    rw [List.append_nil]
    exact ⟨p, rfl, htold⟩
  | @cons item spelling items spelled hspelling _ ih =>
    intro said p hfits htold
    rw [List.append_cons] at hfits ⊢
    obtain ⟨p₁, hp₁, htold₁⟩ := told_concat hfits.of_append hspelling htold
    obtain ⟨p', hp', htold'⟩ := ih (said ++ [item]) p₁ hfits htold₁
    refine ⟨p', ?_, htold'⟩
    rw [List.flatten_cons, takeAll_append, hp₁]
    exact hp'

end

end Progress

/-! ## Whole lines -/

namespace State

variable {words : List Bytes} {p q outer outer' : Progress} {l : Level}

theorem foldlM_command :
    words.foldlM step (.command outer l p) = (p.takeAll l words).map (.command outer l) :=
  foldlM_map fun _ _ _ => rfl

/-- Words that name no command are read before it. -/
theorem foldlM_top (hwords : ∀ word ∈ words, Level.ofName? word = none) :
    words.foldlM step (.top p) = (p.takeAll .top words).map .top := by
  apply foldlM_map
  intro word hword p
  dsimp only [step]
  rw [hwords word hword, ite_self]

/-- A word that names a command opens its level, if what has been kept back can be taken. -/
theorem step_command {word : Bytes} (hsettle : p.settle .top = .ok q) (hopen : q.ended = false)
    (hname : Level.ofName? word = some l) (hhelp : l ≠ .help) : (State.top p).step word = .ok (.command p l {}) := by
  obtain ⟨hawaiting, -⟩ := Progress.settle_eq_ok hsettle
  have hallows : p.allowsCommand = true := by
    unfold Progress.allowsCommand
    rw [(Progress.ended_of_settle hsettle).trans hopen]
    cases hpending : p.pending with
    | awaiting a => exact absurd hpending (hawaiting a)
    | nothing | lacking | given => rfl
  dsimp only [step]
  rw [hallows, if_pos rfl, hname]
  cases l with
  | help => exact absurd rfl hhelp
  | top | build | inspect | completion => rfl

theorem finish_command {named : Command} (houter : outer.settle .top = .ok outer')
    (hsettle : p.settle l = .ok q) (hnamed : commandOf? l q.values = some named) :
    (State.command outer l p).finish =
      .ok
        { color := (q.values.color <|> outer'.values.color).getD .auto
          json := q.values.json || outer'.values.json
          command := named } := by
  refine bind_eq_ok_iff.mpr ⟨q, hsettle, ?_⟩
  rw [hnamed]
  exact bind_eq_ok_iff.mpr ⟨outer', houter, rfl⟩

end State

section

variable {color : Option ColorChoice} {json : Bool} {format : Option Table.Format} {yes : Bool} {input : Bytes}
  {output : Option Bytes}

/-- The options of a build: a colour, the flag for JSON, a format, and leave to overwrite, as far as they are set. -/
def optionItems (color : Option ColorChoice) (json : Bool) (format : Option Table.Format) (yes : Bool) :
    List Item :=
  color.toList.map .color ++ (if json then [.json] else []) ++ format.toList.map .format ++
    (if yes then [.yes] else [])

/-- The paths of a build, in their order. -/
def pathItems (input : Bytes) (output : Option Bytes) : List Item :=
  .input input :: output.toList.map .output

/-- Options and paths are said before and after a command: each once, the paths in their order after it, and before it
only what can stand there. -/
structure Arranges (options paths before after : List Item) : Prop where
  once : (before ++ after).Perm (options ++ paths)
  inOrder : paths.Sublist after
  outer : ∀ item ∈ before, item.isGlobal = true

/-- The items of a build are those that its values hold. -/
theorem mem_items_iff {item : Item} :
    item ∈ optionItems color json format yes ++ pathItems input output ↔
      ({ color, json, format, yes, input := some input, output } : Values).Holds item := by
  cases item <;> simp [optionItems, pathItems, Values.Holds, eq_comm]

theorem nodup_arguments :
    ((optionItems color json format yes ++ pathItems input output).map Item.argument).Nodup := by
  cases color <;> cases json <;> cases format <;> cases yes <;> cases output <;>
    simp [optionItems, pathItems, Item.argument]

theorem filter_optionItems : (optionItems color json format yes).filter Item.isPath = [] := by
  cases color <;> cases json <;> cases format <;> cases yes <;> rfl

theorem filter_pathItems : (pathItems input output).filter Item.isPath = pathItems input output := by
  cases output <;> rfl

namespace Arranges

variable {before after : List Item}
  (h : Arranges (optionItems color json format yes) (pathItems input output) before after)

include h

theorem nodup : ((before ++ after).map Item.argument).Nodup :=
  (h.once.map Item.argument).nodup_iff.mpr nodup_arguments

theorem mem_iff {item : Item} :
    item ∈ after ∨ item ∈ before ↔
      ({ color, json, format, yes, input := some input, output } : Values).Holds item := by
  rw [← mem_items_iff, ← h.once.mem_iff, List.mem_append, or_comm]

theorem mem_after_iff {item : Item} (hlocal : item.isGlobal = false) :
    item ∈ after ↔ ({ color, json, format, yes, input := some input, output } : Values).Holds item := by
  have hbefore : item ∉ before := by
    intro hitem
    rw [h.outer item hitem] at hlocal
    cases hlocal
  rw [← h.mem_iff, or_iff_left hbefore]

theorem filter_before : before.filter Item.isPath = [] := by
  rw [List.filter_eq_nil_iff]
  intro item hitem
  have hglobal := h.outer item hitem
  cases item with
  | color | json => nofun
  | format | yes | input | output => cases hglobal

theorem filter_after : after.filter Item.isPath = pathItems input output := by
  have hpaths : (after.filter Item.isPath).Perm (pathItems input output) := by
    have honce := h.once.filter Item.isPath
    rwa [List.filter_append, List.filter_append, h.filter_before, filter_optionItems, filter_pathItems] at honce
  have hin : (pathItems input output).Sublist (after.filter Item.isPath) := by
    have hin := h.inOrder.filter Item.isPath
    rwa [filter_pathItems] at hin
  exact (hin.eq_of_length hpaths.length_eq.symm).symm

theorem fits_before : Progress.Fits .top before where
  once := by
    have honce := h.nodup
    rw [List.map_append] at honce
    exact honce.of_append_left
  options item hitem _ := by
    have hglobal := h.outer item hitem
    cases item with
    | color | json => simp [Item.argument, Level.options]
    | format | yes | input | output => cases hglobal
  paths := by
    rw [h.filter_before]
    exact List.nil_prefix
  plain item hitem hpath := by
    have hnone : item ∈ before.filter Item.isPath := List.mem_filter.mpr ⟨hitem, hpath⟩
    rw [h.filter_before] at hnone
    exact absurd hnone List.not_mem_nil

theorem fits_after (hinput : IsPlain input) (houtput : ∀ octets, output = some octets → IsPlain octets) :
    Progress.Fits .build after where
  once := by
    have honce := h.nodup
    rw [List.map_append] at honce
    exact honce.of_append_right
  options item _ hoption := by
    cases item with
    | color | json | format | yes => simp [Item.argument, Level.options]
    | input | output => cases hoption
  paths := by
    rw [h.filter_after]
    cases output <;> simp [pathItems, Item.argument, Level.positionals]
  plain item hitem hpath := by
    have hone : item ∈ after.filter Item.isPath := List.mem_filter.mpr ⟨hitem, hpath⟩
    rw [h.filter_after, pathItems, List.mem_cons, List.mem_map] at hone
    obtain rfl | ⟨octets, hoctets, rfl⟩ := hone
    · exact hinput
    · exact houtput octets (Option.mem_toList.mp hoctets)

end Arranges

/-- What is given at one of two levels. -/
theorem orElse_eq_of_iff {α : Type} {inner outer said : Option α}
    (h : ∀ a, inner = some a ∨ outer = some a ↔ said = some a) : (inner <|> outer) = said := by
  cases inner with
  | none =>
    apply Option.ext
    intro a
    simpa using h a
  | some a => exact ((h a).mp (.inl rfl)).symm

/-- **Options in any order.** Take the options and the paths of a build, and write each of them once, in any of its
spellings: the paths in order after the command, the options anywhere among them, the colour and the flag for JSON
also before the command. Such a line is read as that build; if no colour is said, the terminal decides. -/
theorem parse_any_order {before after : List Item} {outer inner : List Bytes}
    (harranges : Arranges (optionItems color json format yes) (pathItems input output) before after)
    (hinput : IsPlain input) (houtput : ∀ octets, output = some octets → IsPlain octets)
    (hbefore : Spells before outer) (hafter : Spells after inner) :
    parse (outer ++ Utf8.encode "build" :: inner) =
      .ok { color := color.getD .auto, json, command := .build input output format yes } := by
  obtain ⟨o, ho, outerValues, hsettleOuter, houter⟩ := Progress.exists_told harranges.fits_before hbefore
  obtain ⟨p, hp, values, hsettle, hinner⟩ :=
    Progress.exists_told (harranges.fits_after hinput houtput) hafter
  have hread : (outer ++ Utf8.encode "build" :: inner).foldlM State.step (.top {}) = .ok (.command o .build p) := by
    have hbuild : Level.ofName? (Utf8.encode "build") = some .build := by decide
    rw [List.foldlM_append, State.foldlM_top (hbefore.ofName?_eq_none harranges.outer), ho]
    show List.foldlM State.step (.top o) (Utf8.encode "build" :: inner) = _
    rw [List.foldlM_cons, State.step_command hsettleOuter rfl hbuild nofun]
    show List.foldlM State.step (.command o .build {}) inner = _
    rw [State.foldlM_command, hp]
    rfl
  -- the colour and the flag for JSON are said at either level, all else at that of the command
  have heither (item : Item) : values.Holds item ∨ outerValues.Holds item ↔
      ({ color, json, format, yes, input := some input, output } : Values).Holds item :=
    (or_congr (hinner item) (houter item)).trans harranges.mem_iff
  have hlocal (item : Item) (h : item.isGlobal = false) : values.Holds item ↔
      ({ color, json, format, yes, input := some input, output } : Values).Holds item :=
    (hinner item).trans (harranges.mem_after_iff h)
  have hcolor : (values.color <|> outerValues.color) = color := orElse_eq_of_iff fun c => heither (.color c)
  have hjson : (values.json || outerValues.json) = json := by
    rw [Bool.eq_iff_iff, Bool.or_eq_true]
    exact heither .json
  have hnamed : State.commandOf? .build values = some (.build input output format yes) := by
    have hformat : values.format = format := Option.ext fun f => hlocal (.format f) rfl
    have hyes : values.yes = yes := Bool.eq_iff_iff.mpr (hlocal .yes rfl)
    have hgiven : values.input = some input := (hlocal (.input input) rfl).mpr rfl
    have hother : values.output = output := Option.ext fun octets => hlocal (.output octets) rfl
    rw [State.commandOf?, hgiven, hother, hformat, hyes]
    rfl
  unfold parse
  rw [hread]
  show (State.command o .build p).finish = _
  rw [State.finish_command hsettleOuter hsettle hnamed, hcolor, hjson]

end

/-- What is said after the command of a line with options at both levels and between its paths. -/
def mixedItems : List Item :=
  [.yes, .input (Utf8.encode "a=b.csv"), .format .json, .output (Utf8.encode "build"), .json]

/-- A path can have an equals sign, or be the name of a command. -/
theorem parse_any_order_mixed :
    Arranges (optionItems (some .never) true (some .json) true)
      (pathItems (Utf8.encode "a=b.csv") (some (Utf8.encode "build"))) [.color .never] mixedItems ∧
    Spells mixedItems (["-y", "a=b.csv", "--in", "json", "build", "--json"].map Utf8.encode) ∧
    parse (["--color=never", "build", "-y", "a=b.csv", "--in", "json", "build", "--json"].map Utf8.encode) =
      .ok
        { color := .never
          json := true
          command := .build (Utf8.encode "a=b.csv") (some (Utf8.encode "build")) (some .json) true } := by
  have harranges : Arranges (optionItems (some .never) true (some .json) true)
      (pathItems (Utf8.encode "a=b.csv") (some (Utf8.encode "build"))) [.color .never] mixedItems :=
    { once := by decide
      inOrder := by decide
      outer := by decide }
  have houtput : IsPlain (Utf8.encode "build") := by decide
  have hbefore : Spells [.color .never] [Utf8.encode "--color=never"] :=
    ⟨[[Utf8.encode "--color=never"]], .cons (by decide) .nil, rfl⟩
  have hafter : Spells mixedItems (["-y", "a=b.csv", "--in", "json", "build", "--json"].map Utf8.encode) :=
    ⟨[["-y"], ["a=b.csv"], ["--in", "json"], ["build"], ["--json"]].map (List.map Utf8.encode),
      .cons (by decide) (.cons (by decide) (.cons (by decide) (.cons (by decide) (.cons (by decide) .nil)))), rfl⟩
  refine ⟨harranges, hafter, ?_⟩
  exact parse_any_order harranges (by decide) (fun _ h => Option.some.inj h ▸ houtput) hbefore hafter

end EventScript.CommandLine
