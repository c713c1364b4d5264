import EventScript.Fault.Report
import EventScript.Proofs.OneLine

/-!
# Reports of faults as JSON

A report has each member at most once, and no number in it but counts. So nothing of a fault that is reported
is lost in writing.

* `names_members`: the members of a report, in order.
* `read_json`: the text of a report is read back as the report.
* `lookup_kind`: a report names the kind of its fault.
* `mem_kindTexts_iff`: the texts that stand for each kind.
* `mem_members_iff`: the members of a report are those that tell a part of the fault.
* `report_tells_all`: what is read back from a report is all of the fault, and advice changes nothing but the hint.
-/

namespace EventScript.Fault

open Json (Value)

/-- The names of the members that can describe a fault, in order. -/
def memberNames : List String :=
  ["kind", "message", "hint", "path", "row", "field", "offset", "causes"]

/-- The member for a part of a fault, if the part is set. -/
def partMember (name : String) (value : Option Value) : List (String × Value) :=
  value.toList.map fun v => (name, v)

theorem members_eq (f : Fault) :
    f.members = ("kind", .string f.kind.label) :: ("message", .string f.statement) ::
      (partMember "hint" (f.hint.map .string) ++
        (partMember "path" (f.path.map fun p => .string (Utf8.lossy p)) ++
        (partMember "row" (f.row.map .count) ++
        (partMember "field" (f.field.map .string) ++
        (partMember "offset" (f.offset.map .count) ++
        partMember "causes" (if f.causes.isEmpty then none else some (.array (f.causes.map .string)))))))) := by
  simp only [members, partMember, List.append_assoc, List.cons_append, List.nil_append]

theorem lookup_kind (f : Fault) : f.members.lookup "kind" = some (.string f.kind.label) := by
  rw [members_eq]
  exact List.lookup_cons_self

theorem sublist_partMember (name : String) (value : Option Value) {ms : List (String × Value)}
    {names : List String} (h : (ms.map Prod.fst).Sublist names) :
    ((partMember name value ++ ms).map Prod.fst).Sublist (name :: names) := by
  cases value with
  | none => exact h.cons name
  | some v => exact h.cons_cons name

theorem names_members (f : Fault) : (f.members.map Prod.fst).Sublist memberNames := by
  rw [members_eq]
  refine .cons_cons _ (.cons_cons _ ?_)
  refine sublist_partMember _ _ (sublist_partMember _ _ (sublist_partMember _ _ (sublist_partMember _ _
    (sublist_partMember _ _ ?_))))
  rw [← List.append_nil (partMember "causes" _)]
  exact sublist_partMember _ _ (.refl _)

theorem kept_partMember {depth : Nat} {name : String} {value : Option Value}
    (h : ∀ v, value = some v → v.Kept depth) : ∀ m ∈ partMember name value, m.2.Kept depth := by
  intro m hm
  obtain ⟨v, hv, rfl⟩ := List.mem_map.mp hm
  exact h v (Option.mem_toList.mp hv)

/-- Parts are texts, counts and lists of texts, and all of these are kept. -/
theorem kept_members (f : Fault) {depth : Nat} : ∀ m ∈ f.members, m.2.Kept (depth + 1) := by
  simp only [members_eq, List.forall_mem_cons, List.forall_mem_append]
  refine ⟨trivial, trivial, kept_partMember ?_, kept_partMember ?_, kept_partMember ?_, kept_partMember ?_,
    kept_partMember ?_, kept_partMember ?_⟩
  all_goals
    simp [Value.Kept, Json.Number.Kept, Value.count]

theorem kept_json (f : Fault) {depth : Nat} : f.json.Kept (depth + 3) := by
  have hnames : memberNames.Nodup := by decide
  have hmembers : (Value.object f.members).Kept (depth + 2) :=
    ⟨hnames.sublist f.names_members, f.kept_members⟩
  exact ⟨List.nodup_singleton _, by simpa using hmembers⟩

/-- The text of a report is read back as the report. -/
theorem read_json (f : Fault) : Json.read (Utf8.encode f.json.text) = .ok f.json :=
  Json.read_text f.kept_json

/-- The text of a report is one line. -/
theorem newline_notMem_json (f : Fault) : '\n' ∉ f.json.text.toList := by
  rw [Value.text, String.toList_ofList]
  exact f.json.newline_notMem_chars

/-! ## What a report tells -/

/-- The kinds, each with its name and with what is said of a fault of that kind that has no message. -/
def kindTexts : List (Kind × String × String) :=
  [(.internal, "Internal", "internal error"),
    (.usage, "Usage", "usage error"),
    (.notFound, "NotFound", "not found"),
    (.alreadyExists, "AlreadyExists", "already exists"),
    (.format, "Format", "unsupported input format"),
    (.parse, "Parse", "malformed input"),
    (.rowArity, "RowArity", "incorrect row length"),
    (.fieldType, "FieldType", "invalid field type"),
    (.embeddedTerminator, "EmbeddedTerminator", "field contains a NUL byte"),
    (.noData, "NoData", "no data generated"),
    (.write, "Write", "write failed"),
    (.io, "Io", "i/o error"),
    (.corrupt, "Corrupt", "corrupt script data")]

theorem mem_kindTexts_iff {kind : Kind} {name said : String} :
    (kind, name, said) ∈ kindTexts ↔ name = kind.label ∧ said = kind.summary := by
  cases kind <;> simp [kindTexts, Kind.label, Kind.summary]

/-- A member of a report tells a part of the fault. -/
inductive Tells (f : Fault) : String → Value → Prop
  | kind {name said : String} (h : (f.kind, name, said) ∈ kindTexts) : Tells f "kind" (.string name)
  | message {text : String} (h : f.message = some text) : Tells f "message" (.string text)
  | summary {name said : String} (hmessage : f.message = none) (h : (f.kind, name, said) ∈ kindTexts) :
      Tells f "message" (.string said)
  | hint {text : String} (h : f.hint = some text) : Tells f "hint" (.string text)
  | path {octets : Bytes} (h : f.path = some octets) : Tells f "path" (.string (Utf8.lossy octets))
  | row {n : Nat} {w : Json.Whole} (h : f.row = some n) (hw : w.value = n) :
      Tells f "row" (.number (.whole w))
  | field {name : String} (h : f.field = some name) : Tells f "field" (.string name)
  | offset {n : Nat} {w : Json.Whole} (h : f.offset = some n) (hw : w.value = n) :
      Tells f "offset" (.number (.whole w))
  | causes (h : f.causes ≠ []) : Tells f "causes" (.array (f.causes.map .string))

theorem mem_partMember {name name' : String} {value : Option Value} {v : Value} :
    (name', v) ∈ partMember name value ↔ name' = name ∧ value = some v := by
  cases value with
  | none => simp [partMember]
  | some w => simp [partMember, eq_comm]

/-- A count of 64 bits is told exactly. -/
theorem count_eq_iff {n : Nat} (h : n < 2 ^ 64) {v : Value} :
    Value.count n = v ↔ ∃ w : Json.Whole, w.value = n ∧ v = .number (.whole w) := by
  have hvalue : (Json.Whole.ofUInt64 (UInt64.ofNat n)).value = n :=
    congrArg Int.ofNat (UInt64.toNat_ofNat_of_lt' h)
  constructor
  · rintro rfl
    exact ⟨_, hvalue, rfl⟩
  · rintro ⟨w, hw, rfl⟩
    have hsame : Json.Whole.ofUInt64 (UInt64.ofNat n) = w := by
      rw [Json.Whole.mk.injEq, hvalue, hw]
    rw [Value.count, hsame]

variable {f : Fault}

theorem tells_kind (f : Fault) : Tells f "kind" (.string f.kind.label) :=
  .kind (mem_kindTexts_iff.mpr ⟨rfl, rfl⟩)

theorem tells_statement (f : Fault) : Tells f "message" (.string f.statement) := by
  unfold statement
  cases hmessage : f.message with
  | some text => exact .message hmessage
  | none => exact .summary hmessage (mem_kindTexts_iff.mpr ⟨rfl, rfl⟩)

/-- The members of a report are those that tell a part of the fault. -/
theorem mem_members_iff (hrow : ∀ n ∈ f.row, n < 2 ^ 64) (hoffset : ∀ n ∈ f.offset, n < 2 ^ 64)
    {name : String} {v : Value} : (name, v) ∈ f.members ↔ Tells f name v := by
  simp only [members_eq, List.mem_cons, List.mem_append, Prod.mk.injEq, mem_partMember,
    Option.map_eq_some_iff]
  constructor
  · rintro (⟨rfl, rfl⟩ | ⟨rfl, rfl⟩ | ⟨rfl, _, h, rfl⟩ | ⟨rfl, _, h, rfl⟩ | ⟨rfl, _, h, hv⟩ | ⟨rfl, _, h, rfl⟩ |
      ⟨rfl, _, h, hv⟩ | ⟨rfl, h⟩)
    · exact f.tells_kind
    · exact f.tells_statement
    · exact .hint h
    · exact .path h
    · obtain ⟨w, hw, rfl⟩ := (count_eq_iff (hrow _ h)).mp hv
      exact .row h hw
    · exact .field h
    · obtain ⟨w, hw, rfl⟩ := (count_eq_iff (hoffset _ h)).mp hv
      exact .offset h hw
    · split at h
      next => cases h
      next hne =>
        cases h
        exact .causes (by simpa using hne)
  · intro h
    cases h with
    | kind h => simp [(mem_kindTexts_iff.mp h).1]
    | message h => simp [statement, h]
    | summary h hsaid => simp [statement, h, (mem_kindTexts_iff.mp hsaid).2]
    | hint h => simp [h]
    | path h => simp [h]
    | row h hw => simp [h, (count_eq_iff (hrow _ h)).mpr ⟨_, hw, rfl⟩]
    | field h => simp [h]
    | offset h hw => simp [h, (count_eq_iff (hoffset _ h)).mpr ⟨_, hw, rfl⟩]
    | causes h => simp [h]

theorem advise_of_hint (h : f.hint.isSome) : f.advise = f := by
  obtain ⟨kind, message, path, row, field, offset, hint, causes⟩ := f
  cases hint with
  | none => cases h
  | some text => rfl

/-- Advice that was given once is given. -/
theorem advise_advise (f : Fault) : f.advise.advise = f.advise := by
  cases hhint : f.hint with
  | some text =>
    have hsame := advise_of_hint (f := f) (by rw [hhint]; rfl)
    rw [hsame, hsame]
  | none => cases hadvice : f.kind.advice? <;> simp [advise, hhint, hadvice]

/-- **A report loses nothing.** The report of any fault is a single line. It is read back as an object whose
only member is an object too: the members of that tell the kind by its name, the message or what is said for
want of one, and each other part that is set, in this order, numbers exactly, all causes from the outermost
one on, and nothing else. General advice changes nothing but the hint, and that only where there is none, so
to advise twice is to advise once. -/
theorem report_tells_all (f : Fault) (hrow : ∀ n ∈ f.row, n < 2 ^ 64) (hoffset : ∀ n ∈ f.offset, n < 2 ^ 64) :
    '\n' ∉ f.json.text.toList ∧
    (∃ ms, Json.read (Utf8.encode f.json.text) = .ok (.object [("error", .object ms)]) ∧
      (ms.map Prod.fst).Sublist ["kind", "message", "hint", "path", "row", "field", "offset", "causes"] ∧
      ∀ name v, (name, v) ∈ ms ↔ Tells f name v) ∧
    f.advise = { f with hint := f.advise.hint } ∧ (f.hint.isSome → f.advise = f) ∧
    f.advise.advise = f.advise := by
  refine ⟨f.newline_notMem_json, ⟨f.members, f.read_json, f.names_members, ?_⟩, rfl, advise_of_hint,
    f.advise_advise⟩
  intro name v
  exact mem_members_iff hrow hoffset

/-- A fault with every part set: the greatest row that 64 bits count, a path that is no text, and two causes. -/
def everyPart : Fault where
  kind := .parse
  message := some "not \"a\\b\"\n"
  path := some [0x61, 0xFF]
  row := some 18446744073709551615
  field := some "timer"
  offset := some 7
  hint := some "\x00\x1f"
  causes := ["outer\n", "inner"]

/-- The report of a fault with every part set tells its kind, the row exactly, the path without its bad octet, and
both causes. That of a fault with no part set tells its kind and what is said of all of that kind. -/
theorem report_tells_all_everyPart :
    '\n' ∉ everyPart.json.text.toList ∧
    (∃ ms, Json.read (Utf8.encode everyPart.json.text) = .ok (.object [("error", .object ms)]) ∧
      ("kind", .string "Parse") ∈ ms ∧ ("path", .string "a\uFFFD") ∈ ms ∧
      ("row", .number (.whole ⟨18446744073709551615, by decide, by decide⟩)) ∈ ms ∧
      ("causes", .array [.string "outer\n", .string "inner"]) ∈ ms) ∧
    ∃ ms, Json.read (Utf8.encode (Fault.json { kind := .noData }).text) =
        .ok (.object [("error", .object ms)]) ∧
      ("kind", .string "NoData") ∈ ms ∧ ("message", .string "no data generated") ∈ ms := by
  obtain ⟨hline, ⟨ms, hread, -, hms⟩, -⟩ :=
    report_tells_all everyPart (by simp [everyPart]) (by simp [everyPart])
  obtain ⟨-, ⟨ms', hread', -, hms'⟩, -⟩ := report_tells_all { kind := .noData } (by simp) (by simp)
  have hpath : Utf8.lossy [0x61, 0xFF] = "a\uFFFD" := by cbv
  have hparse : (everyPart.kind, "Parse", "malformed input") ∈ kindTexts := by decide
  have hnoData : (Kind.noData, "NoData", "no data generated") ∈ kindTexts := by decide
  refine ⟨hline, ⟨ms, hread, (hms _ _).mpr (.kind hparse), (hms _ _).mpr (hpath ▸ .path rfl),
    (hms _ _).mpr (.row rfl rfl), (hms _ _).mpr (.causes (f := everyPart) (by simp [everyPart]))⟩,
    ms', hread', ?_, ?_⟩
  · exact (hms' _ _).mpr (.kind hnoData)
  · exact (hms' _ _).mpr (.summary rfl hnoData)

end EventScript.Fault
