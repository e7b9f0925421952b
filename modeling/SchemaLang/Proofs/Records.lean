import Mathlib.Data.List.Forall2
import Mathlib.Data.List.Sort
import SchemaLang.Diagnostic.Encoding

namespace SchemaLang

section Lists

variable {α β : Type} {f : α → Option β} {xs : List α}

theorem mapM_eq_some_iff {ys : List β} :
    xs.mapM f = some ys ↔ List.Forall₂ (fun x y => f x = some y) xs ys := by
  induction xs generalizing ys with
  | nil => simp [eq_comm]
  | cons x xs ih =>
    rw [List.mapM_cons, List.forall₂_cons_left_iff]
    cases hx : f x with
    | none => simp
    | some y =>
      cases hxs : xs.mapM f with
      | none => simp [← ih, hxs]
      | some ys => simp [← ih, hxs, eq_comm]

theorem mapM_eq_none_iff : xs.mapM f = none ↔ ∃ x ∈ xs, f x = none := by
  induction xs with
  | nil => simp
  | cons x xs ih =>
    rw [List.mapM_cons]
    cases hx : f x with
    | none => simp [hx]
    | some y => cases hxs : xs.mapM f <;> simp_all

end Lists

namespace Json

theorem lookup_of_mem {fields : List (String × Json)} {name : String} {value : Json}
    (hnames : (fields.map Prod.fst).Nodup) (h : (name, value) ∈ fields) :
    fields.lookup name = some value := by
  obtain ⟨before, after, rfl⟩ := List.append_of_mem h
  refine List.lookup_eq_some_iff.mpr ⟨before, after, rfl, fun p hp => ?_⟩
  rw [List.map_append, List.map_cons, List.nodup_middle, List.nodup_cons, List.mem_append] at hnames
  exact bne_iff_ne.mpr fun heq => hnames.1 (.inl (List.mem_map.mpr ⟨p, hp, heq.symm⟩))

/-- What a record holds under each of its names, wherever fields of different names stand. -/
theorem forall₂_lookup {names : List String} {values : List Json} {fields : List (String × Json)}
    (hnames : names.Nodup) (hlength : names.length = values.length)
    (h : fields.Perm (names.zip values)) :
    List.Forall₂ (fun name value => fields.lookup name = some value) names values := by
  have keys : (fields.map Prod.fst).Nodup := by
    rw [(h.map Prod.fst).nodup_iff, List.map_fst_zip hlength.le]
    exact hnames
  exact List.forall₂_iff_zip.mpr ⟨hlength, fun hmem => lookup_of_mem keys (h.mem_iff.mpr hmem)⟩

/-- A record with these values under these names. The fields of an object stand in the order of
their names. -/
def ofRecord (names : List String) (values : List Json) : Json :=
  .obj ((names.zip values).insertionSort (·.1 ≤ ·.1))

theorem record?_ofRecord {names : List String} {values : List Json} (hnames : names.Nodup)
    (hlength : names.length = values.length) :
    (ofRecord names values).record? names = some values :=
  mapM_eq_some_iff.mpr (forall₂_lookup hnames hlength (List.perm_insertionSort _ _))

/-- What a record of these names holds under one of them, also when it is written as a list. -/
def held? (names : List String) (json : Json) (name : String) : Option Json :=
  match json with
  | .obj fields => fields.lookup name
  | .arr items => if names.length = items.length then (names.zip items).lookup name else none
  | _ => none

theorem record?_eq_mapM {names : List String} (hnames : names.Nodup) (hne : names ≠ [])
    (json : Json) : json.record? names = names.mapM (json.held? names) := by
  have nothing : none = names.mapM fun _ => (none : Option Json) := by
    obtain ⟨name, hname⟩ := List.exists_mem_of_ne_nil names hne
    exact (mapM_eq_none_iff.mpr ⟨name, hname, rfl⟩).symm
  cases json with
  | obj fields => rfl
  | arr items =>
    by_cases hlength : names.length = items.length
    · have held : (arr items).held? names = fun name => (names.zip items).lookup name :=
        funext fun _ => if_pos hlength
      rw [record?, if_pos hlength.symm, held]
      exact (mapM_eq_some_iff.mpr (forall₂_lookup hnames hlength .rfl)).symm
    · have held : (arr items).held? names = fun _ => none := funext fun _ => if_neg hlength
      rw [record?, if_neg (Ne.symm hlength), held]
      exact nothing
  | _ => exact nothing

theorem record?_eq_some_iff {names : List String} {values : List Json} {json : Json}
    (hnames : names.Nodup) (hne : names ≠ []) : json.record? names = some values ↔
      List.Forall₂ (fun name value => json.held? names name = some value) names values := by
  rw [record?_eq_mapM hnames hne, mapM_eq_some_iff]

/-- Whether a value spells a name: as such, or as the only key of an object, over null. -/
def Spells (json : Json) (name : String) : Prop := json = .str name ∨ json = .obj [(name, .null)]

theorem tag?_eq_some_iff {json : Json} {name : String} :
    json.tag? = some name ↔ json.Spells name := by
  unfold Spells tag?
  split <;> simp_all

theorem str?_eq_some_iff {json : Json} {s : String} : json.str? = some s ↔ json = .str s := by
  unfold str?
  split <;> simp_all

theorem word32?_eq_some_iff {json : Json} {n : Nat} :
    json.word32? = some n ↔ json = .ofNat n ∧ n < UInt32.size := by
  unfold word32? ofNat
  split
  · next m =>
    split
    · simp
      omega
    · simp
      omega
  · simp_all

end Json

/-- What is found by a name has that name, when each is found by its own. -/
theorem find?_name_iff {α : Type} {all : List α} {nameOf : α → String} {name : String} {a : α}
    (found : ∀ a, all.find? (nameOf · = nameOf a) = some a) :
    all.find? (nameOf · = name) = some a ↔ nameOf a = name := by
  constructor
  · intro h
    simpa using List.find?_some h
  · rintro rfl
    exact found a

theorem Severity.ofName?_eq_some_iff {name : String} {s : Severity} :
    ofName? name = some s ↔ s.name = name :=
  find?_name_iff fun s => by cases s <;> decide

theorem Problem.ofName?_eq_some_iff {name : String} {p : Problem} :
    ofName? name = some p ↔ p.name = name :=
  find?_name_iff fun p => by cases p <;> decide

theorem Origin.ofName?_eq_some_iff {name : String} {o : Origin} :
    ofName? name = some o ↔ o.name = name :=
  find?_name_iff fun o => by cases o <;> decide

/-- Whether both numbers of a place fit in 32 bits. -/
def Location.Fits (here : Location) : Prop := here.line < UInt32.size ∧ here.column < UInt32.size

instance (here : Location) : Decidable here.Fits := inferInstanceAs (Decidable (_ ∧ _))

namespace Diagnostic

/-- The names of the fields of a record, in the order in which a list gives their values. -/
def fieldNames : List String := ["line", "column", "message", "severity", "type"]

def values (d : Diagnostic) : List Json :=
  [.ofNat d.location.line, .ofNat d.location.column, .str d.message, .str d.severity.name,
    .str d.problem.name]

/-- What the record of a diagnostic holds, whatever else it holds. -/
structure Recorded (d : Diagnostic) (json : Json) : Prop where
  line : json.held? fieldNames "line" = some (.ofNat d.location.line)
  column : json.held? fieldNames "column" = some (.ofNat d.location.column)
  fits : d.location.Fits
  message : json.held? fieldNames "message" = some (.str d.message)
  severity : ∃ value, json.held? fieldNames "severity" = some value ∧ value.Spells d.severity.name
  problem : ∃ value, json.held? fieldNames "type" = some value ∧ value.Spells d.problem.name

theorem toJson_eq_ofRecord (d : Diagnostic) : d.toJson = .ofRecord fieldNames d.values := by
  simp [toJson, Json.ofRecord, fieldNames, values]

theorem ofJson?_of_record {json severity problem : Json} {d : Diagnostic}
    (hrecord : json.record? fieldNames = some [.ofNat d.location.line, .ofNat d.location.column,
      .str d.message, severity, problem])
    (fits : d.location.Fits) (hseverity : severity.Spells d.severity.name)
    (hproblem : problem.Spells d.problem.name) : ofJson? json = some d := by
  have line := Json.word32?_eq_some_iff.mpr ⟨rfl, fits.1⟩
  have column := Json.word32?_eq_some_iff.mpr ⟨rfl, fits.2⟩
  have severity : severity.tag?.bind Severity.ofName? = some d.severity :=
    Option.bind_eq_some_iff.mpr
      ⟨_, Json.tag?_eq_some_iff.mpr hseverity, Severity.ofName?_eq_some_iff.mpr rfl⟩
  have problem : problem.tag?.bind Problem.ofName? = some d.problem :=
    Option.bind_eq_some_iff.mpr
      ⟨_, Json.tag?_eq_some_iff.mpr hproblem, Problem.ofName?_eq_some_iff.mpr rfl⟩
  refine Option.bind_eq_some_iff.mpr ⟨_, hrecord, ?_⟩
  refine Option.bind_eq_some_iff.mpr ⟨_, line, ?_⟩
  refine Option.bind_eq_some_iff.mpr ⟨_, column, ?_⟩
  refine Option.bind_eq_some_iff.mpr ⟨d.message, rfl, ?_⟩
  refine Option.bind_eq_some_iff.mpr ⟨_, severity, ?_⟩
  exact Option.bind_eq_some_iff.mpr ⟨_, problem, rfl⟩

theorem record?_eq_some_iff {json : Json} {values : List Json} :
    json.record? fieldNames = some values ↔
      List.Forall₂ (fun name value => json.held? fieldNames name = some value) fieldNames values :=
  Json.record?_eq_some_iff (by decide) (by decide)

/-- A diagnostic is read just from what is its record. -/
theorem ofJson?_eq_some_iff {json : Json} {d : Diagnostic} :
    ofJson? json = some d ↔ d.Recorded json := by
  constructor
  · intro h
    obtain ⟨values, hrecord, hread⟩ := Option.bind_eq_some_iff.mp h
    have held := record?_eq_some_iff.mp hrecord
    simp only [fieldNames, List.forall₂_cons_left_iff, List.forall₂_nil_left_iff] at held
    obtain ⟨line, _, hline, ⟨column, _, hcolumn, ⟨message, _, hmessage, ⟨severity, _, hseverity,
      ⟨problem, _, hproblem, rfl, rfl⟩, rfl⟩, rfl⟩, rfl⟩, rfl⟩ := held
    simp only [Option.bind_eq_bind, Option.pure_def, Option.bind_eq_some_iff,
      Json.word32?_eq_some_iff, Json.str?_eq_some_iff, Json.tag?_eq_some_iff,
      Severity.ofName?_eq_some_iff, Problem.ofName?_eq_some_iff] at hread
    obtain ⟨_, ⟨rfl, fitsLine⟩, _, ⟨rfl, fitsColumn⟩, _, rfl, _, ⟨_, vspells, rfl⟩, _,
      ⟨_, wspells, rfl⟩, hd⟩ := hread
    obtain rfl := Option.some.inj hd
    exact ⟨hline, hcolumn, ⟨fitsLine, fitsColumn⟩, hmessage, ⟨_, hseverity, vspells⟩,
      ⟨_, hproblem, wspells⟩⟩
  · rintro ⟨hline, hcolumn, fits, hmessage, ⟨v, hseverity, vspells⟩, ⟨w, hproblem, wspells⟩⟩
    refine ofJson?_of_record (record?_eq_some_iff.mpr ?_) fits vspells wspells
    exact .cons hline (.cons hcolumn (.cons hmessage (.cons hseverity (.cons hproblem .nil))))

theorem ofJson?_toJson {d : Diagnostic} (h : d.location.Fits) : ofJson? d.toJson = some d := by
  rw [toJson_eq_ofRecord]
  exact ofJson?_of_record (Json.record?_ofRecord (by decide) rfl) h (.inl rfl) (.inl rfl)

/-- Why a value is no record of a diagnostic. -/
inductive Damaged (json : Json) : Prop
  | lacks {name : String} : name ∈ fieldNames → json.held? fieldNames name = none → Damaged json
  /-- A number of the place does not fit, or is no whole number. -/
  | misplaced {name : String} {value : Json} : name ∈ ["line", "column"] →
    json.held? fieldNames name = some value → (∀ n < UInt32.size, value ≠ .ofNat n) → Damaged json
  | unworded {value : Json} : json.held? fieldNames "message" = some value →
    (∀ s, value ≠ .str s) → Damaged json
  | unknownSeverity {value : Json} : json.held? fieldNames "severity" = some value →
    (∀ s : Severity, ¬value.Spells s.name) → Damaged json
  | unknownProblem {value : Json} : json.held? fieldNames "type" = some value →
    (∀ p : Problem, ¬value.Spells p.name) → Damaged json

theorem Recorded.not_damaged {d : Diagnostic} {json : Json} (h : d.Recorded json) :
    ¬Damaged json := by
  obtain ⟨hline, hcolumn, fits, hmessage, ⟨v, hseverity, vspells⟩, ⟨w, hproblem, wspells⟩⟩ := h
  intro damaged
  cases damaged with
  | lacks hname hnone =>
    simp only [fieldNames, List.mem_cons, List.not_mem_nil, or_false] at hname
    rcases hname with rfl | rfl | rfl | rfl | rfl
    · cases hline.symm.trans hnone
    · cases hcolumn.symm.trans hnone
    · cases hmessage.symm.trans hnone
    · cases hseverity.symm.trans hnone
    · cases hproblem.symm.trans hnone
  | misplaced hname hvalue hother =>
    simp only [List.mem_cons, List.not_mem_nil, or_false] at hname
    rcases hname with rfl | rfl
    · exact hother _ fits.1 (Option.some.inj (hvalue.symm.trans hline))
    · exact hother _ fits.2 (Option.some.inj (hvalue.symm.trans hcolumn))
  | unworded hvalue hother => exact hother _ (Option.some.inj (hvalue.symm.trans hmessage))
  | unknownSeverity hvalue hother =>
    obtain rfl := Option.some.inj (hvalue.symm.trans hseverity)
    exact hother _ vspells
  | unknownProblem hvalue hother =>
    obtain rfl := Option.some.inj (hvalue.symm.trans hproblem)
    exact hother _ wspells

theorem exists_recorded {json : Json} (h : ¬Damaged json) : ∃ d : Diagnostic, d.Recorded json := by
  have present (name : String) (hname : name ∈ fieldNames) :
      ∃ value, json.held? fieldNames name = some value :=
    Option.ne_none_iff_exists'.mp fun hnone => h (.lacks hname hnone)
  have placed (name : String) (hname : name ∈ ["line", "column"])
      (hfield : name ∈ fieldNames) :
      ∃ n < UInt32.size, json.held? fieldNames name = some (.ofNat n) := by
    obtain ⟨value, hvalue⟩ := present name hfield
    by_contra hnone
    push Not at hnone
    exact h (.misplaced hname hvalue fun n hn heq => hnone n hn (heq ▸ hvalue))
  obtain ⟨line, fitsLine, hline⟩ := placed "line" (by decide) (by decide)
  obtain ⟨column, fitsColumn, hcolumn⟩ := placed "column" (by decide) (by decide)
  obtain ⟨message, hmessage⟩ := present "message" (by decide)
  obtain ⟨v, hseverity⟩ := present "severity" (by decide)
  obtain ⟨w, hproblem⟩ := present "type" (by decide)
  obtain ⟨s, rfl⟩ : ∃ s, message = .str s := by
    by_contra hnone
    exact h (.unworded hmessage fun s heq => hnone ⟨s, heq⟩)
  obtain ⟨severity, vspells⟩ : ∃ severity : Severity, v.Spells severity.name := by
    by_contra hnone
    exact h (.unknownSeverity hseverity fun severity heq => hnone ⟨severity, heq⟩)
  obtain ⟨problem, wspells⟩ : ∃ problem : Problem, w.Spells problem.name := by
    by_contra hnone
    exact h (.unknownProblem hproblem fun problem heq => hnone ⟨problem, heq⟩)
  exact ⟨⟨⟨line, column⟩, s, severity, problem⟩, hline, hcolumn, ⟨fitsLine, fitsColumn⟩, hmessage,
    ⟨v, hseverity, vspells⟩, ⟨w, hproblem, wspells⟩⟩

theorem ofJson?_eq_none_iff {json : Json} : ofJson? json = none ↔ Damaged json := by
  rw [Option.eq_none_iff_forall_ne_some]
  simp only [ne_eq, ofJson?_eq_some_iff]
  constructor
  · intro hnone
    by_contra hwhole
    obtain ⟨d, hd⟩ := exists_recorded hwhole
    exact hnone d hd
  · intro damaged d hd
    exact hd.not_damaged damaged

end Diagnostic

namespace Report

/-- The names of the fields of a record, in the order in which a list gives their values. -/
def fieldNames : List String := ["message", "file", "line", "column", "origin"]

def values (report : Report) : List Json :=
  [.str report.message, .str report.file, .ofNat report.location.line,
    .ofNat report.location.column, .str report.origin.name]

theorem toJson_eq_ofRecord (report : Report) :
    report.toJson = .ofRecord fieldNames report.values := by
  simp [toJson, Json.ofRecord, fieldNames, values]

theorem ofJson?_of_record {json : Json} {report : Report}
    (hrecord : json.record? fieldNames = some report.values) (fits : report.location.Fits) :
    ofJson? json = some report := by
  have line := Json.word32?_eq_some_iff.mpr ⟨rfl, fits.1⟩
  have column := Json.word32?_eq_some_iff.mpr ⟨rfl, fits.2⟩
  have origin : (Json.str report.origin.name).tag?.bind Origin.ofName? = some report.origin :=
    Origin.ofName?_eq_some_iff.mpr rfl
  refine Option.bind_eq_some_iff.mpr ⟨_, hrecord, ?_⟩
  refine Option.bind_eq_some_iff.mpr ⟨report.message, rfl, ?_⟩
  refine Option.bind_eq_some_iff.mpr ⟨report.file, rfl, ?_⟩
  refine Option.bind_eq_some_iff.mpr ⟨_, line, ?_⟩
  refine Option.bind_eq_some_iff.mpr ⟨_, column, ?_⟩
  exact Option.bind_eq_some_iff.mpr ⟨_, origin, rfl⟩

theorem ofJson?_toJson {report : Report} (h : report.location.Fits) :
    ofJson? report.toJson = some report := by
  rw [toJson_eq_ofRecord]
  exact ofJson?_of_record (Json.record?_ofRecord (by decide) rfl) h

end Report

namespace Diagnostic

/-- A list is read from the records of its items, in their order. -/
theorem listOfJson?_eq_some_iff {json : Json} {ds : List Diagnostic} :
    listOfJson? json = some ds ↔
      ∃ items, json = .arr items ∧ List.Forall₂ (fun item d => Recorded d item) items ds := by
  constructor
  · intro h
    cases json with
    | arr items =>
      have read := mapM_eq_some_iff.mp h
      simp only [ofJson?_eq_some_iff] at read
      exact ⟨items, rfl, read⟩
    | _ => cases h
  · rintro ⟨items, rfl, recorded⟩
    refine mapM_eq_some_iff.mpr (recorded.imp fun item d hd => ?_)
    exact ofJson?_eq_some_iff.mpr hd

/-- Diagnostics and reports survive as records. They are written as their fields say and read back,
diagnostics in their order. A list is read just when each of its items is the record of a
diagnostic, and refused just when some item is damaged. -/
theorem records_lossless :
    (∀ ds : List Diagnostic,
      Json.arr (ds.map toJson) = .arr (ds.map fun d => .ofRecord fieldNames d.values)) ∧
    (∀ ds : List Diagnostic, (∀ d ∈ ds, d.location.Fits) →
      listOfJson? (.arr (ds.map toJson)) = some ds) ∧
    (∀ report : Report, report.toJson = .ofRecord Report.fieldNames report.values ∧
      (report.location.Fits → Report.ofJson? report.toJson = some report)) ∧
    (∀ json ds, listOfJson? json = some ds ↔
      ∃ items, json = .arr items ∧ List.Forall₂ (fun item d => Recorded d item) items ds) ∧
    ∀ items, listOfJson? (.arr items) = none ↔ ∃ item ∈ items, Damaged item := by
  refine ⟨fun ds => ?_, fun ds h => ?_, fun report => ?_, fun json ds => listOfJson?_eq_some_iff,
    fun items => ?_⟩
  · rw [List.map_congr_left fun d _ => toJson_eq_ofRecord d]
  · refine mapM_eq_some_iff.mpr (List.forall₂_map_left_iff.mpr (List.forall₂_same.mpr ?_))
    exact fun d hd => ofJson?_toJson (h d hd)
  · exact ⟨report.toJson_eq_ofRecord, Report.ofJson?_toJson⟩
  · rw [listOfJson?, mapM_eq_none_iff]
    simp only [ofJson?_eq_none_iff]

/-- Two problems at the far ends of the places that fit. -/
def farthest : List Diagnostic :=
  [⟨⟨4294967295, 0⟩, "a \"b\"\nc", .hint, .execution⟩, ⟨⟨0, 4294967295⟩, "", .warning, .meaning⟩]

/-- Places that fit come back as they were, and a line one further on refuses the list. -/
theorem records_lossless_farthest :
    (∀ d ∈ farthest, d.location.Fits) ∧
    listOfJson? (.arr (farthest.map toJson)) = some farthest ∧
    Report.ofJson? (Report.toJson ⟨"m", "f", ⟨4294967295, 0⟩, .legacy⟩) =
      some ⟨"m", "f", ⟨4294967295, 0⟩, .legacy⟩ ∧
    listOfJson? (.arr ((farthest ++ [formError ⟨4294967296, 1⟩ "late"]).map toJson)) = none := by
  have fits : ∀ d ∈ farthest, d.location.Fits := by decide
  obtain ⟨-, back, reports, -, refused⟩ := records_lossless
  refine ⟨fits, back farthest fits, (reports _).2 (by decide), (refused _).mpr ?_⟩
  have late (n : Nat) (hn : n < UInt32.size) : Json.ofNat 4294967296 ≠ .ofNat n := by
    intro heq
    have same : (4294967296 : Int) = n := Json.int.inj heq
    simp only [UInt32.size] at hn
    omega
  exact ⟨(formError ⟨4294967296, 1⟩ "late").toJson, by simp,
    @Damaged.misplaced _ "line" _ (by decide) rfl late⟩

end Diagnostic

end SchemaLang
