import SchemaForge.Proofs.AcceptableSchemas
import SchemaForge.Proofs.FormatterCalls
import SchemaForge.Proofs.LineForms
import SchemaForge.Proofs.ReferenceCycles

/-! # Verdicts

Which errors may stop a generation from text. Those of resolution, inference and expansion are
verdicts for every document, and source text is always written with settings of the right kinds. So
what is no verdict comes from reading the text, from a table of named schemas that is no object, or
from a process of the formatter that fails otherwise than by being missing, by taking too long or by
its exit code.
-/

namespace SchemaForge

/-- Whatever error an outcome is, the error is a verdict. -/
def Judged {α : Type} (outcome : Except Error α) : Prop :=
  ∀ error, outcome = .error error → error.isVerdict = true

namespace Judged

variable {α β : Type}

theorem ok (value : α) : Judged (.ok value) := nofun

theorem error {error : Error} (h : error.isVerdict = true) :
    Judged (.error error : Except Error α) := by
  rintro _ ⟨⟩
  exact h

theorem bind {first : Except Error α} {next : α → Except Error β} (h : Judged first)
    (hnext : ∀ value, Judged (next value)) : Judged (first >>= next) := by
  intro error herror
  cases hfirst : first with
  | error early =>
    rw [hfirst] at herror
    cases herror
    exact h error hfirst
  | ok value =>
    rw [hfirst] at herror
    exact hnext value error herror

/-- A sequence is judged when both of its parts are, whatever is reported on the way. -/
theorem andThen {first : Traced α} {next : α → Traced β} (h : Judged first.outcome)
    (hnext : ∀ value, Judged (next value).outcome) : Judged (first >>= next).outcome := by
  rw [Traced.outcome_bind]
  exact h.bind hnext

theorem pure (value : α) : Judged (Pure.pure value : Traced α).outcome := ok value

end Judged

namespace Schema

theorem judged_resolve (root schema : Schema) : Judged (resolve root schema) := by
  intro error herror
  obtain ⟨passed, last, -, -, ⟨-, rfl⟩ | ⟨-, -, segment, rfl⟩⟩ :=
    exists_trail_of_resolve_eq_error herror
  · rfl
  · rfl

end Schema

namespace Reference

theorem judged_typeName (rootName : Option String) (reference : String) :
    Judged (typeName rootName reference) := by
  unfold typeName
  repeat' split
  · exact .error rfl
  · exact .error rfl
  · exact .ok _
  · exact .ok _

end Reference

namespace Document

open Rust

theorem judged_isOneOrMany (root single several : Schema) :
    Judged (isOneOrMany root single several) := by
  refine (Schema.judged_resolve root single).bind fun single =>
    (Schema.judged_resolve root several).bind fun several => ?_
  split
  · exact (Schema.judged_resolve root _).bind fun item => .ok _
  · exact .ok _

variable (document : Document)

theorem judged_inferByType {schema : Schema}
    (ih : ∀ held, schema.Holds held → Judged (infer document held).outcome) :
    Judged (inferByType document schema).outcome := by
  unfold inferByType
  split
  case h_5 =>
    cases hvalue : schema.additional with
    | unspecified => exact .pure _
    | permitted allowed => cases allowed <;> exact .pure _
    | constrained value => exact .andThen (ih value (.additional hvalue)) fun inferred => .pure _
  case h_6 =>
    cases hitems : schema.items with
    | nil => exact .pure _
    | cons item rest =>
      exact .andThen (ih item (.item (by simp [hitems]))) fun inferred => .pure _
  all_goals exact .pure _

theorem judged_infer (schema : Schema) : Judged (infer document schema).outcome := by
  induction schema using Schema.wellFounded_holds.induction with
  | _ schema ih =>
    cases href : schema.reference with
    | some reference =>
      rw [infer_of_reference href]
      exact .andThen (Reference.judged_typeName _ _) fun name => .pure _
    | none =>
      by_cases hpair : ∃ single several, schema.anyOf = [single, several]
      · obtain ⟨single, several, hpair⟩ := hpair
        rw [infer_of_pair href hpair]
        refine .andThen (judged_isOneOrMany _ _ _) fun same => ?_
        split
        · exact .andThen (ih single (.alternative (by simp [hpair]))) fun item =>
            .andThen (.ok _) fun _ => .pure _
        · exact .pure _
      · have hno : schema.NoPair := fun single several h => hpair ⟨single, several, h⟩
        rw [infer_of_noPair href hno]
        exact judged_inferByType document ih

theorem judged_expandFields (holder : String) (required used : List String)
    (properties : Entries Schema) :
    Judged (expandFields document holder required used properties).outcome := by
  induction properties generalizing used with
  | nil => exact .pure _
  | cons property rest ih =>
    obtain ⟨key, schema⟩ := property
    rw [expandFields]
    refine .andThen (.ok _) fun _ => .andThen (judged_infer document schema) fun inferred => ?_
    exact .andThen (ih _) fun more => .pure _

theorem judged_expandVariants (enum : String) (used : List String) (values : List Json) :
    Judged (expandVariants enum used values).outcome := by
  induction values generalizing used with
  | nil => exact .pure _
  | cons value rest ih =>
    cases value with
    | str text =>
      rw [expandVariants]
      exact .andThen (.ok _) fun _ => .andThen (ih _) fun more => .pure _
    | _ => exact .error rfl

theorem judged_expandSchema (sourceName : String) (schema : Schema) :
    Judged (expandSchema document sourceName schema).outcome := by
  refine .andThen (Schema.judged_resolve _ _) fun resolved =>
    .andThen (judged_expandFields document _ _ _ _) fun fields =>
      .andThen ?_ fun declaration => .andThen (.ok _) fun _ => .pure _
  split
  · exact .pure _
  · exact .andThen (judged_expandVariants _ _ _) fun variants => .pure _
  · exact .andThen (judged_infer document schema) fun inferred => .pure _

theorem judged_expandDefinitions (definitions : Entries Schema) :
    Judged (expandDefinitions document definitions).outcome := by
  induction definitions with
  | nil => exact .pure _
  | cons definition rest ih =>
    obtain ⟨name, schema⟩ := definition
    rw [expandDefinitions]
    exact .andThen (judged_expandSchema document name schema) fun declaration =>
      .andThen ih fun more => .pure _

theorem judged_expandAll : Judged (expandAll document).outcome := by
  refine .andThen (judged_expandDefinitions document _) fun declarations => ?_
  split
  · exact .pure _
  · exact .andThen (judged_expandSchema document _ _) fun declaration => .pure _

theorem judged_checkAliases (declarations : List Declaration) :
    Judged (checkAliases declarations) := by
  unfold checkAliases
  split
  · exact .ok _
  · exact .error rfl

/-- Whatever the document, its expansion fails with verdicts only. -/
theorem judged_expand (breaking : Bool) : Judged (expand document breaking).outcome := by
  refine .andThen (judged_expandAll document) fun declarations =>
    .andThen (judged_checkAliases declarations) fun _ => ?_
  split
  · exact .andThen (.ok _) fun boxed => .pure _
  · exact .andThen (.pure _) fun same => .pure _

end Document

/-! ## Settings of the right kinds -/

/-- The options of a formatter have values of the kinds that they are for. -/
structure FormatterSettings.WellTyped (settings : FormatterSettings) : Prop where
  enabled : ∃ value, settings.enabled = .bool value
  command : ∃ command, settings.command = .str command
  edition : ∃ edition, settings.edition = .str edition
  timeout : ∃ seconds, settings.timeout = .int seconds

/-- The options of an output have values of the kinds that they are for. -/
structure OutputSettings.WellTyped (settings : OutputSettings) : Prop where
  mode : ∃ mode, settings.mode = .mode mode
  validateBeforeWrite : ∃ value, settings.validateBeforeWrite = .bool value
  atomicWrite : ∃ value, settings.atomicWrite = .bool value

/-- All options have values of the kinds that they are for. -/
structure Settings.WellTyped (settings : Settings) : Prop where
  addGenerationComment : ∃ value, settings.addGenerationComment = .bool value
  addSerdeImports : ∃ value, settings.addSerdeImports = .bool value
  derives : ∃ names : List String, settings.derives = some (.arr (names.map Json.str))
  mapType : ∃ name, settings.mapType = .str name
  lineLength : ∃ columns, settings.lineLength = .int columns
  breakReferenceCycles : ∃ value, settings.breakReferenceCycles = .bool value
  formatter : ∃ formatter, settings.formatter = .options formatter ∧ formatter.WellTyped
  output : ∃ output, settings.output = .options output ∧ output.WellTyped

theorem Settings.WellTyped.complete_style {settings : Settings} (h : settings.WellTyped) :
    settings.style.Complete where
  lineLength := by
    obtain ⟨columns, hcolumns⟩ := h.lineLength
    exact ⟨columns, by rw [Settings.style, hcolumns]; rfl⟩
  derives := by
    obtain ⟨names, hnames⟩ := h.derives
    have htraits : settings.traits = .ok (names.map Json.str) := by
      rw [Settings.traits, hnames]
      rfl
    have hplain : (names.map Json.str).any Json.isContainer = false := by
      simp [Json.isContainer]
    refine ⟨names.map Json.str, ?_⟩
    show settings.derivable = _
    rw [Settings.derivable, htraits]
    simp only [bind, Except.bind, hplain]
    rfl

namespace Request

/-! ## Writing -/

theorem outcome_write_of_read_eq_error {request : Request} {error : Error}
    (h : Schema.read request.document = .error error) : request.write.outcome = .error error := by
  have hanalyze : request.analyze.outcome = .error error := by
    rw [analyze, Traced.outcome_bind, Traced.outcome_quietly, h]
    rfl
  rw [write, Traced.outcome_bind, hanalyze]
  rfl

/-- Once its document is read, a request fails with verdicts only, short of the formatter. -/
theorem judged_write {request : Request} (hstyle : request.settings.style.Complete) {root : Schema}
    (h : Schema.read request.document = .ok root) : Judged request.write.outcome := by
  have hread : Judged (Schema.read request.document) := by
    rw [h]
    exact .ok root
  have hrender : ∀ program, Judged (render request.settings program).outcome := by
    intro program
    obtain ⟨blocks, -, hwrite⟩ := Rust.exists_blocks hstyle program.declarations
    rw [render, hwrite]
    exact .andThen (.ok _) fun code => .andThen (.ok _) fun _ => .pure _
  exact .andThen (.andThen hread fun root => Document.judged_expand _ _) fun program =>
    .andThen (hrender program) fun code => .andThen (.ok _) fun _ => .pure _

end Request

namespace Formatter

/-! ## Replies of the formatter -/

/-- A process of the formatter fails: the first one, which is asked whether it answers, or the
second one after an answer. -/
inductive Fails : List Reply → ProcessFault → Prop
  | asked (fault : ProcessFault) (rest : List Reply) : Fails (.failed fault :: rest) fault
  | run (output : String) (echo : Bool) (report : String) (fault : ProcessFault)
      (rest : List Reply) : Fails (.ended 0 output echo report :: .failed fault :: rest) fault

/-- The formatter answers, and then ends with a text for the code. -/
inductive Formats (code : String) : List Reply → String → Prop
  | run (version : String) (echoed : Bool) (warnings output : String) (echo : Bool)
      (report : String) (rest : List Reply) :
      Formats code (.ended 0 version echoed warnings :: .ended 0 output echo report :: rest)
        (if echo then output ++ code else output)

/-- What formatting may come to: the text of a formatter that answers and then succeeds, a
fault of the formatter, or a process that fails. -/
structure Piped (script : List Reply) (code : String) (outcome : Except Error String) : Prop where
  ok_iff : ∀ text, outcome = .ok text ↔ Formats code script text
  failed_iff : ∀ fault, outcome = .error (.processFailed fault) ↔ Fails script fault
  fault : ∀ error, outcome = .error error →
    (∃ fault, error = .processFailed fault) ∨ ∃ fault, error = .formatter fault

namespace Piped

variable {script : List Reply} {code : String}

theorem ok {text : String} (h : ∀ other, other = text ↔ Formats code script other)
    (hfails : ∀ fault, ¬ Fails script fault) : Piped script code (.ok text) where
  ok_iff other := by rw [Except.ok.injEq, eq_comm, h]
  failed_iff fault := ⟨nofun, fun h => absurd h (hfails fault)⟩
  fault := nofun

theorem formatter {fault : FormatterFault} (h : ∀ text, ¬ Formats code script text)
    (hfails : ∀ fault, ¬ Fails script fault) : Piped script code (.error (.formatter fault)) where
  ok_iff text := ⟨nofun, fun hformats => absurd hformats (h text)⟩
  failed_iff fault := ⟨nofun, fun h => absurd h (hfails fault)⟩
  fault := by
    rintro _ ⟨⟩
    exact .inr ⟨fault, rfl⟩

theorem failed {fault : ProcessFault} (h : ∀ text, ¬ Formats code script text)
    (hfails : ∀ other, Fails script other ↔ fault = other) :
    Piped script code (.error (.processFailed fault)) where
  ok_iff text := ⟨nofun, fun hformats => absurd hformats (h text)⟩
  failed_iff other := by rw [Except.error.injEq, Error.processFailed.injEq, hfails]
  fault := by
    rintro _ ⟨⟩
    exact .inl ⟨fault, rfl⟩

end Piped

/-- A run of the formatter after it answered. -/
theorem piped_formatted {session : Session} {rest : List Reply} (hscript : session.script = rest)
    (version : String) (echoed : Bool) (warnings command : String) (words : List Json)
    (timeout : Json) (code : String) :
    Piped (.ended 0 version echoed warnings :: rest) code
      (formatted command timeout (session.start ⟨words, some code, timeout⟩).1) := by
  rw [Session.start, hscript]
  rcases rest with _ | ⟨reply, rest⟩
  · exact .formatter (by rintro _ ⟨⟩) (by rintro _ ⟨⟩)
  cases reply with
  | missing | timeout => exact .formatter (by rintro _ ⟨⟩) (by rintro _ ⟨⟩)
  | failed fault =>
    refine .failed (by rintro _ ⟨⟩) fun other => ⟨?_, ?_⟩
    · rintro ⟨⟩
      rfl
    · rintro rfl
      exact .run _ _ _ _ _
  | ended exitCode output echo report =>
    simp only [List.head?_cons, formatted, Option.getD_some]
    by_cases hcode : exitCode = 0
    · subst hcode
      refine .ok (fun other => ⟨?_, ?_⟩) (by rintro _ ⟨⟩)
      · rintro rfl
        exact .run _ _ _ _ _ _ _
      · rintro ⟨⟩
        rfl
    · rw [if_neg hcode]
      refine .formatter ?_ (by rintro _ ⟨⟩)
      rintro text ⟨⟩
      exact hcode rfl

end Formatter

namespace Request

open Formatter

variable {settings : Settings} {formatter : FormatterSettings}

/-- A formatter that is enabled comes to nothing but a text, a fault or a process that fails. -/
theorem piped_formatCode (hget : settings.formatter.get "enabled" = .ok formatter)
    (hon : formatter.enabled.isOn = true) (htyped : formatter.WellTyped) (script : List Reply)
    (code : String) : Piped script code (formatCode settings { script } code).1.outcome := by
  obtain ⟨command, hcommand⟩ := htyped.command
  obtain ⟨edition, hedition⟩ := htyped.edition
  have hask : Session.isAvailable { script } formatter = Session.ask { script } (.str command) := by
    rw [Session.isAvailable, hcommand]
    rfl
  have hwords := runWords_of_texts hcommand hedition
  rw [formatCode, hget]
  simp only [hon, if_true, hask, Session.ask, Session.start]
  rcases script with _ | ⟨reply, rest⟩
  · exact .formatter (by rintro _ ⟨⟩) (by rintro _ ⟨⟩)
  cases reply with
  | missing | timeout => exact .formatter (by rintro _ ⟨⟩) (by rintro _ ⟨⟩)
  | failed fault =>
    refine .failed (by rintro _ ⟨⟩) fun other => ⟨?_, ?_⟩
    · rintro ⟨⟩
      rfl
    · rintro rfl
      exact .asked _ rest
  | ended exitCode output echo report =>
    by_cases hcode : exitCode = 0
    · subst hcode
      simp only [List.head?_cons, beq_self_eq_true, Session.format, hwords]
      refine piped_formatted ?_ output echo report command _ _ code
      rfl
    · simp only [List.head?_cons, beq_eq_false_iff_ne.mpr hcode]
      refine .formatter ?_ ?_
      · rintro text ⟨⟩
        exact hcode rfl
      · rintro fault ⟨⟩
        exact hcode rfl

/-- Formatting fails with a verdict, or because a process fails. -/
theorem fails_of_formatCode (hget : settings.formatter.get "enabled" = .ok formatter)
    (htyped : formatter.WellTyped) {script : List Reply} {code : String} {error : Error}
    (h : (formatCode settings { script } code).1.outcome = .error error)
    (herror : error.isVerdict = false) :
    formatter.enabled.isOn = true ∧
      ∃ fault, error = .processFailed fault ∧ Fails script fault := by
  cases hon : formatter.enabled.isOn with
  | false =>
    have hsame : (formatCode settings { script } code).1.outcome = .ok code := by
      simp [formatCode, hget, hon]
    rw [hsame] at h
    cases h
  | true =>
    have hpiped := piped_formatCode hget hon htyped script code
    rcases hpiped.fault error h with ⟨fault, rfl⟩ | ⟨fault, rfl⟩
    · exact ⟨rfl, fault, rfl, (hpiped.failed_iff fault).mp h⟩
    · cases herror

end Request

/-! ## Generation from text -/

open Formatter

/-- The source text that is written for a document that is given as text. -/
def Written (text : String) (rootName : Option String) (settings : Settings) (code : String) :
    Prop :=
  ∃ document, Json.read text = .ok document ∧
    (Request.write ⟨document, rootName, settings⟩).outcome = .ok code

/-- The errors that are no verdicts and yet stop a generation from text, each with its cause. -/
inductive Escapes (text : String) (rootName : Option String) (settings : Settings)
    (script : List Reply) : Error → Prop
  | integer {digits : Nat} (h : Json.read text = .error (.integerTooLong digits)) :
      Escapes text rootName settings script (.integerTooLong digits)
  | table {document table : Json} (h : Json.read text = .ok document)
      (hread : Schema.read document = .error (.notAnObject table "items")) :
      Escapes text rootName settings script (.notAnObject table "items")
  | process {formatter : FormatterSettings} {code : String} {fault : ProcessFault}
      (hget : settings.formatter = .options formatter) (hon : formatter.enabled.isOn = true)
      (hcode : Written text rootName settings code) (hfails : Fails script fault) :
      Escapes text rootName settings script (.processFailed fault)

/-- All that can stop a generation from text is accounted for. What is no verdict has its one cause.
A document is read just where every schema is acceptable, and generation stops with the error of
reading, which tells the place of a fault unless a table is no object. Text that is written goes
through the formatter if that is enabled. -/
structure Accounted (text : String) (rootName : Option String) (settings : Settings)
    (script : List Reply) : Prop where
  escapes_iff : ∀ error,
    (generateFromText text rootName settings { script }).1.outcome = .error error ∧
      error.isVerdict = false ↔ Escapes text rootName settings script error
  read_iff : ∀ document, (∃ root, Schema.read document = .ok root) ↔ Schema.Readable document
  rejected : ∀ document error, Schema.read document = .error error →
    ((∃ fault location, error = .schema fault location) ∨
      ∃ table, error = .notAnObject table "items" ∧ Schema.HasLooseTable document table) ∧
    (Json.read text = .ok document →
      (generateFromText text rootName settings { script }).1.outcome = .error error)
  piped : ∀ formatter code, settings.formatter = .options formatter →
    formatter.enabled.isOn = true → Written text rootName settings code →
      Piped script code (generateFromText text rootName settings { script }).1.outcome

section

variable {text : String} {rootName : Option String} {settings : Settings} {document : Json}

theorem outcome_generateFromText (h : Json.read text = .ok document) (session : Session) :
    (generateFromText text rootName settings session).1.outcome
      = (Request.write ⟨document, rootName, settings⟩).outcome.bind fun code =>
        (Request.formatCode settings session code).1.outcome := by
  rw [generateFromText, h]
  exact Request.outcome_generate_eq_bind _ _

theorem outcome_generateFromText_of_read_eq_error (h : Json.read text = .ok document)
    {error : Error} (hread : Schema.read document = .error error) (session : Session) :
    (generateFromText text rootName settings session).1.outcome = .error error := by
  rw [outcome_generateFromText h, Request.outcome_write_of_read_eq_error hread]
  rfl

theorem piped_generateFromText (htyped : settings.WellTyped) {formatter : FormatterSettings}
    (hget : settings.formatter = .options formatter) (hon : formatter.enabled.isOn = true)
    {code : String} (hcode : Written text rootName settings code) (script : List Reply) :
    Piped script code (generateFromText text rootName settings { script }).1.outcome := by
  obtain ⟨document, h, hwrite⟩ := hcode
  obtain ⟨own, hown, hformatter⟩ := htyped.formatter
  obtain rfl : formatter = own := by simpa [hget] using hown
  rw [outcome_generateFromText h, hwrite]
  exact Request.piped_formatCode (by rw [hget]; rfl) hon hformatter script code

theorem escapes_of_generateFromText (htyped : settings.WellTyped)
    (hpaired : Json.read text ≠ .error .loneSurrogate) {script : List Reply} {error : Error}
    (h : (generateFromText text rootName settings { script }).1.outcome = .error error)
    (herror : error.isVerdict = false) : Escapes text rootName settings script error := by
  cases hdocument : Json.read text with
  | error fault =>
    rw [generateFromText, hdocument] at h
    cases h
    cases fault with
    | malformed fault offset line column => cases herror
    | integerTooLong digits => exact .integer hdocument
    | loneSurrogate => exact absurd hdocument hpaired
  | ok document =>
    cases hread : Schema.read document with
    | error early =>
      rw [outcome_generateFromText_of_read_eq_error hdocument hread] at h
      cases h
      rcases Schema.schema_of_read_eq_error hread with ⟨fault, location, rfl⟩ | ⟨table, rfl, -⟩
      · cases herror
      · exact .table hdocument hread
    | ok root =>
      have hwritten : Judged (Request.write ⟨document, rootName, settings⟩).outcome :=
        Request.judged_write htyped.complete_style hread
      cases hwrite : (Request.write ⟨document, rootName, settings⟩).outcome with
      | error early =>
        rw [outcome_generateFromText hdocument, hwrite] at h
        cases h
        rw [hwritten error hwrite] at herror
        cases herror
      | ok code =>
        obtain ⟨formatter, hoptions, hformatter⟩ := htyped.formatter
        have hget : settings.formatter.get "enabled" = .ok formatter := by
          rw [hoptions]
          rfl
        rw [outcome_generateFromText hdocument, hwrite] at h
        obtain ⟨hon, fault, rfl, hfails⟩ :=
          Request.fails_of_formatCode hget hformatter h herror
        exact .process hoptions hon ⟨document, hdocument, hwrite⟩ hfails

theorem generateFromText_of_escapes (htyped : settings.WellTyped) {script : List Reply}
    {error : Error} (h : Escapes text rootName settings script error) :
    (generateFromText text rootName settings { script }).1.outcome = .error error ∧
      error.isVerdict = false := by
  cases h with
  | integer hlong =>
    rw [generateFromText, hlong]
    exact ⟨rfl, rfl⟩
  | table hdocument hread =>
    exact ⟨outcome_generateFromText_of_read_eq_error hdocument hread _, rfl⟩
  | process hget hon hcode hfails =>
    exact ⟨((piped_generateFromText htyped hget hon hcode script).failed_iff _).mpr hfails, rfl⟩

end

/-- Generation from whatever text without half of a surrogate pair, with settings of the right kinds
and whatever the formatter replies, yields code or fails with a verdict, but for three causes: an
integer of too many digits, a table of named schemas that is no object, and a process of the
formatter that fails. -/
theorem accounted_of_wellTyped {text : String} (hpaired : Json.read text ≠ .error .loneSurrogate)
    (rootName : Option String) {settings : Settings} (htyped : settings.WellTyped)
    (script : List Reply) : Accounted text rootName settings script where
  escapes_iff _ := ⟨fun h => escapes_of_generateFromText htyped hpaired h.1 h.2,
    generateFromText_of_escapes htyped⟩
  read_iff := Schema.exists_read_iff
  rejected _ _ hread := ⟨Schema.schema_of_read_eq_error hread,
    fun h => outcome_generateFromText_of_read_eq_error h hread _⟩
  piped _ _ hget hon hcode := piped_generateFromText htyped hget hon hcode script

theorem wellTyped_default : ({} : Settings).WellTyped where
  addGenerationComment := ⟨true, rfl⟩
  addSerdeImports := ⟨true, rfl⟩
  derives := ⟨["Clone", "PartialEq", "Debug"], rfl⟩
  mapType := ⟨"::std::collections::BTreeMap", rfl⟩
  lineLength := ⟨100, rfl⟩
  breakReferenceCycles := ⟨true, rfl⟩
  formatter := ⟨{}, rfl, ⟨false, rfl⟩, ⟨"rustfmt", rfl⟩, ⟨"2021", rfl⟩, ⟨30, rfl⟩⟩
  output := ⟨{}, rfl, ⟨.errorIfExists, rfl⟩, ⟨true, rfl⟩, ⟨true, rfl⟩⟩

/-- The default settings with the formatter enabled. -/
def formatting : Settings where
  formatter := .options { enabled := .bool true }

/-- A document with one named schema. -/
def oneName : String := "\x7b\"definitions\": \x7b\"a\": \x7b\"type\": \"string\"\x7d\x7d\x7d"

theorem accounted_formatting :
    formatting.WellTyped ∧ Json.read oneName ≠ .error .loneSurrogate ∧
      Accounted oneName (some "Root") formatting
        [.ended 0 "rustfmt" false "", .failed .notDecodable] := by
  have htyped : formatting.WellTyped :=
    { wellTyped_default with
      formatter := ⟨_, rfl, ⟨true, rfl⟩, ⟨"rustfmt", rfl⟩, ⟨"2021", rfl⟩, ⟨30, rfl⟩⟩ }
  have hdocument : Json.read oneName
      = .ok (.obj [("definitions", .obj [("a", .obj [("type", .str "string")])])]) := by cbv
  have hpaired : Json.read oneName ≠ .error .loneSurrogate := by
    rw [hdocument]
    rintro ⟨⟩
  exact ⟨htyped, hpaired, accounted_of_wellTyped hpaired _ htyped _⟩

/-- Properties that are a list stop generation with an error that is no verdict. -/
theorem not_isVerdict_listedProperties :
    ({} : Settings).WellTyped ∧
      (generateFromText "\x7b\"properties\": [\"x\"]\x7d" none {} {}).1.outcome
        = .error (.notAnObject (.arr [.str "x"]) "items") ∧
      (Error.notAnObject (.arr [.str "x"]) "items").message
        = "'list' object has no attribute 'items'" ∧
      (Error.notAnObject (.arr [.str "x"]) "items").isVerdict = false := by
  have hdocument : Json.read "\x7b\"properties\": [\"x\"]\x7d"
      = .ok (.obj [("properties", .arr [.str "x"])]) := by cbv
  have hread : Schema.read (.obj [("properties", .arr [.str "x"])])
      = .error (.notAnObject (.arr [.str "x"]) "items") := by
    cbv
  exact ⟨wellTyped_default, outcome_generateFromText_of_read_eq_error hdocument hread _,
    by decide +kernel, rfl⟩

end SchemaForge
