import GuardedData.Cli.Report
import GuardedData.Proofs.Json.Lines
import GuardedData.Schema.Encoding

/-!
# What a check of a document reports

A check takes its inputs in order: configuration, log filter, schema, document.
`Fault` gives the first one that fails, with the code of the error and the error;
`Loads` says that none does. A check with a fault prints nothing. Otherwise it
prints one line with the `answer` to the document, which the configuration does
not change: that decides only whether a mismatch makes the command fail. All of
this holds whatever texts are log filters.
-/

namespace GuardedData

namespace Inputs

/-- The text of the document that is checked. -/
def content (i : Inputs) : Option String → Except InputError String
  | some path => i.text path
  | none => decode i.stdin

/-- The configuration: that of the file, or the usual one. -/
inductive Configured (i : Inputs) : Option String → Config → Prop where
  | usual : Configured i none {}
  | file {path text : String} {c : Config} : i.text path = .ok text →
      Config.ofText? text = some c → Configured i (some path) c

/-- There is a log filter that is one, given or configured. -/
def Logs (isFilter : String → Bool) (i : Inputs) (c : Config) : Prop :=
  (∃ filter, i.logFilter = some filter ∧ isFilter filter = true) ∨ isFilter c.logLevel = true

def Blank (text : String) : Prop := ∀ ch ∈ text.toList, Text.isBlank ch = true

section
variable (isFilter : String → Bool) (i : Inputs) (schemaPath : String)
  (valuePath configPath : Option String)

/-- The inputs that a check takes are in order. -/
structure Loads (c : Config) (s : Schema) (j : Json) : Prop where
  configured : i.Configured configPath c
  logs : i.Logs isFilter c
  schema : ∃ text, i.text schemaPath = .ok text ∧ Schema.ofText text = .ok s
  document : ∃ text, i.content valuePath = .ok text ∧ ¬ Blank text ∧ Json.read text = some j

/-- The first input that fails, with the code of the error and the error. -/
inductive Fault : String → CliError → Prop where
  | configUnreadable {path : String} {cause : InputError} : configPath = some path →
      i.text path = .error cause →
      Fault "SHAPEGUARD_CLI_CONFIG_ERROR" (.configUnreadable path cause)
  | configMalformed {path text : String} : configPath = some path → i.text path = .ok text →
      Config.ofText? text = none → Fault "SHAPEGUARD_CLI_CONFIG_ERROR" (.configInvalid path)
  | filter {c : Config} : i.Configured configPath c → ¬ i.Logs isFilter c →
      Fault "SHAPEGUARD_CLI_CONFIG_ERROR" (.filterInvalid c.logLevel)
  | schemaUnreadable {c : Config} {cause : InputError} : i.Configured configPath c →
      i.Logs isFilter c → i.text schemaPath = .error cause →
      Fault "SHAPEGUARD_CLI_IO_ERROR" (.input cause)
  | schemaMalformed {c : Config} {text : String} {e : ReadError} : i.Configured configPath c →
      i.Logs isFilter c → i.text schemaPath = .ok text → Schema.ofText text = .error e →
      Fault "SHAPEGUARD_CLI_SCHEMA_ERROR" (.schemaInvalid schemaPath)
  | documentUnreadable {c : Config} {s : Schema} {text : String} {cause : InputError} :
      i.Configured configPath c → i.Logs isFilter c → i.text schemaPath = .ok text →
      Schema.ofText text = .ok s → i.content valuePath = .error cause →
      Fault "SHAPEGUARD_CLI_IO_ERROR" (.input cause)
  | documentBlank {c : Config} {s : Schema} {text content : String} :
      i.Configured configPath c → i.Logs isFilter c → i.text schemaPath = .ok text →
      Schema.ofText text = .ok s → i.content valuePath = .ok content → Blank content →
      Fault "SHAPEGUARD_CLI_IO_ERROR" (.input .blank)
  | documentMalformed {c : Config} {s : Schema} {text content : String} :
      i.Configured configPath c → i.Logs isFilter c → i.text schemaPath = .ok text →
      Schema.ofText text = .ok s → i.content valuePath = .ok content → ¬ Blank content →
      Json.read content = none → Fault "SHAPEGUARD_CLI_JSON_ERROR" .notJson

end

end Inputs

def Schema.verdict (s : Schema) (j : Json) : Except Mismatch Unit :=
  check .builtin (Heap.ofJson .empty j).2 s (Heap.ofJson .empty j).1

def answer : Except Mismatch Unit → Keyed String
  | .ok () => [("status", "ok")]
  | .error m =>
    [("status", "error"), ("code", m.code), ("message", m.message), ("path", m.location)]

theorem distinct_answer (verdict : Except Mismatch Unit) : Keyed.Distinct (answer verdict) := by
  cases verdict with
  | ok _ =>
    show ["status"].Nodup
    decide
  | error m =>
    show ["status", "code", "message", "path"].Nodup
    decide

def reply (s : Schema) (j : Json) : String := (Json.ofTexts (answer (s.verdict j))).render

namespace Inputs

section
variable {isFilter : String → Bool} {i : Inputs} {schemaPath : String}
  {valuePath configPath : Option String} {c : Config} {s : Schema} {j : Json}
  {code text : String} {e : CliError}

/-! ## Input by input -/

theorem decode_toUTF8 (text : String) : decode text.toUTF8 = .ok text := by
  rw [decode, String.fromUTF8?, String.toUTF8, dif_pos text.isValidUTF8]
  rfl

theorem Configured.config_eq (h : i.Configured configPath c) : i.config configPath = .ok c := by
  cases h with
  | usual => rfl
  | file ht hc => simp only [config, ht, hc]

theorem logs_iff :
    i.Logs isFilter c ↔ (i.logFilter.any isFilter || isFilter c.logLevel) = true := by
  rw [Logs, Bool.or_eq_true]
  cases i.logFilter with
  | none => simp only [Option.any_none, reduceCtorEq, false_and, exists_false, Bool.false_eq_true]
  | some filter => simp only [Option.any_some, Option.some.injEq, exists_eq_left']

theorem Logs.installLogger_eq (h : i.Logs isFilter c) :
    i.installLogger isFilter false c = .ok [] :=
  if_pos (logs_iff.mp h)

theorem installLogger_of_not_logs (h : ¬ i.Logs isFilter c) :
    i.installLogger isFilter false c = .error (.filterInvalid c.logLevel) :=
  if_neg fun hl => h (logs_iff.mpr hl)

theorem schema_of_text {read : Except ReadError Schema} (ht : i.text schemaPath = .ok text)
    (hr : Schema.ofText text = read) :
    i.schema schemaPath = read.mapError fun _ => .schemaInvalid schemaPath := by
  simp only [schema, ht, hr]
  cases read <;> rfl

theorem document_eq : i.document valuePath =
    match i.content valuePath with
    | .error cause => .error (.input cause)
    | .ok text =>
      if text.toList.all Text.isBlank then .error (.input .blank)
      else
        match Json.read text with
        | none => .error .notJson
        | some j => .ok j := rfl

theorem document_of_blank (ht : i.content valuePath = .ok text) (hb : Blank text) :
    i.document valuePath = .error (.input .blank) := by
  rw [document_eq, ht]
  exact if_pos (List.all_eq_true.mpr hb)

theorem document_of_text (ht : i.content valuePath = .ok text) (hb : ¬ Blank text) :
    i.document valuePath =
      match Json.read text with
      | none => .error .notJson
      | some j => .ok j := by
  rw [document_eq, ht]
  exact if_neg fun h => hb (List.all_eq_true.mp h)

/-! ## Command -/

theorem report_of_config (h : i.config configPath = .error e) :
    Command.report isFilter i (.check schemaPath valuePath configPath) = .failed e := by
  simp only [Command.report, h]

theorem report_of_not_logs (hc : i.Configured configPath c) (hl : ¬ i.Logs isFilter c) :
    Command.report isFilter i (.check schemaPath valuePath configPath) =
      .failed (.filterInvalid c.logLevel) := by
  simp only [Command.report, hc.config_eq, installLogger_of_not_logs hl]

theorem report_eq_checkCommand (hc : i.Configured configPath c) (hl : i.Logs isFilter c) :
    Command.report isFilter i (.check schemaPath valuePath configPath) =
      checkCommand i schemaPath valuePath c.quiet := by
  simp only [Command.report, hc.config_eq, hl.installLogger_eq]

theorem report_of_schema (hc : i.Configured configPath c) (hl : i.Logs isFilter c)
    (h : i.schema schemaPath = .error e) :
    Command.report isFilter i (.check schemaPath valuePath configPath) = .failed e := by
  rw [report_eq_checkCommand hc hl, checkCommand, h]

theorem report_of_document (hc : i.Configured configPath c) (hl : i.Logs isFilter c)
    (hs : i.schema schemaPath = .ok s) (h : i.document valuePath = .error e) :
    Command.report isFilter i (.check schemaPath valuePath configPath) = .failed e := by
  rw [report_eq_checkCommand hc hl, checkCommand, hs]
  simp only [h]

/-- An input that fails decides the error, and nothing is printed. -/
theorem Fault.report_eq (h : i.Fault isFilter schemaPath valuePath configPath code e) :
    Command.report isFilter i (.check schemaPath valuePath configPath) = .failed e ∧
      e.code = code := by
  cases h with
  | configUnreadable hp ht =>
    subst hp
    exact ⟨report_of_config (by simp only [config, ht]), rfl⟩
  | configMalformed hp ht hc =>
    subst hp
    exact ⟨report_of_config (by simp only [config, ht, hc]), rfl⟩
  | filter hc hl => exact ⟨report_of_not_logs hc hl, rfl⟩
  | schemaUnreadable hc hl ht => exact ⟨report_of_schema hc hl (by simp only [schema, ht]), rfl⟩
  | schemaMalformed hc hl ht hs => exact ⟨report_of_schema hc hl (schema_of_text ht hs), rfl⟩
  | documentUnreadable hc hl ht hs hd =>
    exact ⟨report_of_document hc hl (schema_of_text ht hs) (by rw [document_eq, hd]), rfl⟩
  | documentBlank hc hl ht hs hd hb =>
    exact ⟨report_of_document hc hl (schema_of_text ht hs) (document_of_blank hd hb), rfl⟩
  | documentMalformed hc hl ht hs hd hb hr =>
    refine ⟨report_of_document hc hl (schema_of_text ht hs) ?_, rfl⟩
    rw [document_of_text hd hb, hr]

/-- The answer is printed, and only a quiet configuration makes good of a mismatch. -/
theorem checkCommand_of_document {quiet : Bool} (hs : i.schema schemaPath = .ok s)
    (hj : i.document valuePath = .ok j) :
    (checkCommand i schemaPath valuePath quiet).lines = [reply s j] ∧
      (checkCommand i schemaPath valuePath quiet).result =
        if quiet then .ok () else (s.verdict j).mapError .invalidDocument := by
  simp only [checkCommand, hs, hj]
  rw [reply]
  unfold Schema.verdict
  cases check .builtin (Heap.ofJson .empty j).2 s (Heap.ofJson .empty j).1 with
  | ok _ => exact ⟨rfl, (ite_self _).symm⟩
  | error m => exact ⟨rfl, rfl⟩

theorem Loads.report_eq (h : i.Loads isFilter schemaPath valuePath configPath c s j) :
    (Command.report isFilter i (.check schemaPath valuePath configPath)).lines = [reply s j] ∧
      (Command.report isFilter i (.check schemaPath valuePath configPath)).result =
        if c.quiet then .ok () else (s.verdict j).mapError .invalidDocument := by
  obtain ⟨schemaText, hst, hs⟩ := h.schema
  obtain ⟨text, ht, hb, hj⟩ := h.document
  rw [report_eq_checkCommand h.configured h.logs]
  exact checkCommand_of_document (schema_of_text hst hs) (by rw [document_of_text ht hb, hj])

theorem fault_or_configured (isFilter : String → Bool) (i : Inputs) (schemaPath : String)
    (valuePath configPath : Option String) :
    (∃ code e, i.Fault isFilter schemaPath valuePath configPath code e) ∨
      ∃ c, i.Configured configPath c := by
  cases configPath with
  | none => exact .inr ⟨_, .usual⟩
  | some path =>
    cases ht : i.text path with
    | error cause => exact .inl ⟨_, _, .configUnreadable rfl ht⟩
    | ok text =>
      cases hc : Config.ofText? text with
      | none => exact .inl ⟨_, _, .configMalformed rfl ht hc⟩
      | some c => exact .inr ⟨c, .file ht hc⟩

theorem fault_or_loads (isFilter : String → Bool) (i : Inputs) (schemaPath : String)
    (valuePath configPath : Option String) :
    (∃ code e, i.Fault isFilter schemaPath valuePath configPath code e) ∨
      ∃ c s j, i.Loads isFilter schemaPath valuePath configPath c s j := by
  obtain hfault | ⟨c, hc⟩ := fault_or_configured isFilter i schemaPath valuePath configPath
  · exact .inl hfault
  by_cases hl : i.Logs isFilter c
  case neg => exact .inl ⟨_, _, .filter hc hl⟩
  cases hst : i.text schemaPath with
  | error cause => exact .inl ⟨_, _, .schemaUnreadable hc hl hst⟩
  | ok schemaText =>
    cases hs : Schema.ofText schemaText with
    | error error => exact .inl ⟨_, _, .schemaMalformed hc hl hst hs⟩
    | ok s =>
      cases ht : i.content valuePath with
      | error cause => exact .inl ⟨_, _, .documentUnreadable hc hl hst hs ht⟩
      | ok text =>
        by_cases hb : Blank text
        case pos => exact .inl ⟨_, _, .documentBlank hc hl hst hs ht hb⟩
        cases hj : Json.read text with
        | none => exact .inl ⟨_, _, .documentMalformed hc hl hst hs ht hb hj⟩
        | some j => exact .inr ⟨c, s, j, hc, hl, ⟨_, hst, hs⟩, ⟨_, ht, hb, hj⟩⟩

end

end Inputs

/-! ## Exit code -/

theorem Report.exitCode_eq_zero_iff {r : Report} : r.exitCode = 0 ↔ r.result = .ok () := by
  obtain ⟨lines, events, result⟩ := r
  cases result <;> simp [Report.exitCode, Except.isOk, Except.toBool]

theorem Report.exitCode_eq_zero_or_one (r : Report) : r.exitCode = 0 ∨ r.exitCode = 1 := by
  unfold Report.exitCode
  split
  · exact .inl rfl
  · exact .inr rfl

section
variable {isFilter : String → Bool} {i : Inputs} {schemaPath : String}
  {valuePath configPath : Option String} {c : Config} {s : Schema} {j : Json}

theorem Inputs.Loads.exitCode_eq_zero_iff
    (h : i.Loads isFilter schemaPath valuePath configPath c s j) :
    (Command.report isFilter i (.check schemaPath valuePath configPath)).exitCode = 0 ↔
      s.verdict j = .ok () ∨ c.quiet = true := by
  rw [Report.exitCode_eq_zero_iff, h.report_eq.2]
  cases c.quiet with
  | true => exact iff_of_true rfl (.inr rfl)
  | false =>
    cases s.verdict j with
    | ok _ => exact iff_of_true rfl (.inl rfl)
    | error m => exact iff_of_false nofun fun h => h.elim nofun nofun

end

/-- A check that has a fault gives its error and prints nothing. Any other prints one line,
the same for the same schema and document, that reads as the answer. -/
theorem check_reports (isFilter : String → Bool) (i : Inputs) (schemaPath : String)
    (valuePath configPath : Option String) :
    (∀ code e, i.Fault isFilter schemaPath valuePath configPath code e →
      (Command.report isFilter i (.check schemaPath valuePath configPath)).lines = [] ∧
        (Command.report isFilter i (.check schemaPath valuePath configPath)).result = .error e ∧
        e.code = code) ∧
    (∀ c s j, i.Loads isFilter schemaPath valuePath configPath c s j →
      (Command.report isFilter i (.check schemaPath valuePath configPath)).lines = [reply s j] ∧
        Json.Printable (reply s j).toList ∧
        Json.read (reply s j) = some (.ofTexts (answer (s.verdict j)))) ∧
    ((∃ code e, i.Fault isFilter schemaPath valuePath configPath code e) ∨
      ∃ c s j, i.Loads isFilter schemaPath valuePath configPath c s j) ∧
    ((Command.report isFilter i (.check schemaPath valuePath configPath)).exitCode = 0 ↔
      ∃ c s j, i.Loads isFilter schemaPath valuePath configPath c s j ∧
        (s.verdict j = .ok () ∨ c.quiet = true)) ∧
    ((Command.report isFilter i (.check schemaPath valuePath configPath)).exitCode = 0 ∨
      (Command.report isFilter i (.check schemaPath valuePath configPath)).exitCode = 1) := by
  refine ⟨fun code e h => ?_, fun c s j h => ?_,
    Inputs.fault_or_loads isFilter i schemaPath valuePath configPath,
    ⟨fun hexit => ?_, fun ⟨c, s, j, h, hgood⟩ => h.exitCode_eq_zero_iff.mpr hgood⟩,
    Report.exitCode_eq_zero_or_one _⟩
  · rw [h.report_eq.1]
    exact ⟨rfl, rfl, h.report_eq.2⟩
  · exact ⟨h.report_eq.1, Json.printable_ofTexts _, Json.read_ofTexts (distinct_answer _)⟩
  · obtain ⟨code, e, h⟩ | ⟨c, s, j, h⟩ :=
      Inputs.fault_or_loads isFilter i schemaPath valuePath configPath
    · rw [Report.exitCode_eq_zero_iff, h.report_eq.1] at hexit
      cases hexit
    · exact ⟨c, s, j, h, h.exitCode_eq_zero_iff.mp hexit⟩

/-- The names of levels are log filters. -/
def isLevelName (text : String) : Bool := ["trace", "debug", "info", "warn", "error"].contains text

/-- The schema has a line break in the name of a tag, the configuration is quiet. -/
def quietInputs : Inputs where
  file
    | "schema.json" => .ok (Schema.tag "line\nbreak").toText.toUTF8
    | "config.json" => .ok (Config.toJson { quiet := true }).render.toUTF8
    | _ => .error .notFound
  stdin := (Json.object []).render.toUTF8
  logFilter := none

theorem loads_quietInputs : quietInputs.Loads isLevelName "schema.json" none (some "config.json")
    { quiet := true } (.tag "line\nbreak") (.object []) := by
  have hconfig : Config.ofText? (Config.toJson { quiet := true }).render =
      some { quiet := true } := by decide +kernel
  have hlevel : isLevelName "warn" = true := by decide
  have hblank : ¬ Inputs.Blank (Json.object []).render := fun h =>
    absurd (List.all_eq_true.mpr h) (by decide +kernel)
  exact ⟨.file (Inputs.decode_toUTF8 (Config.toJson { quiet := true }).render) hconfig,
    .inr hlevel, ⟨_, Inputs.decode_toUTF8 (Schema.tag "line\nbreak").toText, rfl⟩,
    ⟨_, Inputs.decode_toUTF8 (Json.object []).render, hblank, rfl⟩⟩

theorem fault_quietInputs :
    quietInputs.Fault isLevelName "schema.json" none (some "other.json")
      "SHAPEGUARD_CLI_CONFIG_ERROR" (.configUnreadable "other.json" .notFound) :=
  .configUnreadable rfl rfl

/-- The break is escaped, and a configuration that is not there fails. -/
theorem check_reports_quietInputs :
    (Command.report isLevelName quietInputs
        (.check "schema.json" none (some "config.json"))).lines =
        ["\x7b\"status\":\"error\",\"code\":\"SHAPE_KIND_MISMATCH\",\"message\":" ++
          "\"Validation error: Expected line\\nbreak but got object\",\"path\":\"\"\x7d"] ∧
      (Command.report isLevelName quietInputs
        (.check "schema.json" none (some "config.json"))).exitCode = 0 ∧
      (Command.report isLevelName quietInputs
        (.check "schema.json" none (some "other.json"))).result =
          .error (.configUnreadable "other.json" .notFound) := by
  obtain ⟨-, hlines, -, hexit, -⟩ :=
    check_reports isLevelName quietInputs "schema.json" none (some "config.json")
  obtain ⟨hfault, -⟩ := check_reports isLevelName quietInputs "schema.json" none (some "other.json")
  rw [(hlines _ _ _ loads_quietInputs).1]
  exact ⟨by decide +kernel, hexit.mpr ⟨_, _, _, loads_quietInputs, .inr rfl⟩,
    (hfault _ _ fault_quietInputs).2.1⟩

end GuardedData
