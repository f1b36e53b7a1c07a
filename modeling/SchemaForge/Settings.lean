import SchemaForge.Error
import SchemaForge.Rust.Source

/-! # Settings

The options of a generation. Option values are kept as they are written, whatever their kind, and
are given back as they are; what a use needs of a value is decided where it is used. Only the output
mode is told apart while reading, when it is a text. Some keys name no option but the settings' own
parts: one of them sets all options at once, and may leave out those that have no default.
-/

namespace SchemaForge

/-- What to do when the output exists already. -/
inductive OutputMode where
  | errorIfExists
  | force
deriving DecidableEq

namespace OutputMode

/-- The name of a mode in settings. -/
def name : OutputMode → String
  | errorIfExists => "error"
  | force => "force"

/-- The mode of a name. -/
def ofName? (name : String) : Option OutputMode :=
  [errorIfExists, force].find? fun mode => mode.name = name

/-- A name is read back as the mode it names. -/
theorem ofName?_name (mode : OutputMode) : ofName? mode.name = some mode := by
  cases mode <;> decide

end OutputMode

/-- The value of the output mode: a mode, or a value that is no text and names none. -/
inductive ModeSetting where
  | mode (mode : OutputMode)
  | other (value : Json)

/-- A group of options: options, a value that has none, or nothing where all options were set at
once without it. -/
inductive OptionGroup (α : Type) where
  | options (group : α)
  | unusable (value : Json)
  | missing

namespace OptionGroup

variable {α : Type}

/-- The options of the group, needed where an attribute of them is looked up. -/
def get (group : OptionGroup α) (wanted : String) : Except Error α :=
  match group with
  | options group => .ok group
  | unusable value => .error (.notAnObject value wanted)
  | missing => .error .optionMissing

/-- Tells whether the group is missing. -/
def isMissing : OptionGroup α → Bool
  | missing => true
  | options _ | unusable _ => false

end OptionGroup

/-- How to run the formatter. -/
structure FormatterSettings where
  enabled : Json := .bool false
  command : Json := .str "rustfmt"
  edition : Json := .str "2021"
  timeout : Json := .int 30

/-- How to write the output. -/
structure OutputSettings where
  mode : ModeSetting := .mode .errorIfExists
  validateBeforeWrite : Json := .bool true
  atomicWrite : Json := .bool true

/-- All options of a generation. The traits to derive are missing where all options were set at
once without them. -/
structure Settings where
  addGenerationComment : Json := .bool true
  addSerdeImports : Json := .bool true
  derives : Option Json := some (.arr [.str "Clone", .str "PartialEq", .str "Debug"])
  mapType : Json := .str "::std::collections::BTreeMap"
  lineLength : Json := .int 100
  breakReferenceCycles : Json := .bool true
  formatter : OptionGroup FormatterSettings := .options {}
  output : OptionGroup OutputSettings := .options {}
  /-- Whether the settings can be given back as a value. -/
  writable : Bool := true

namespace FormatterSettings

/-- Sets one option; there are no others. -/
def set (settings : FormatterSettings) (key : String) (value : Json) :
    Except Error FormatterSettings :=
  if key = "enabled" then .ok { settings with enabled := value }
  else if key = "command" then .ok { settings with command := value }
  else if key = "edition" then .ok { settings with edition := value }
  else if key = "timeout" then .ok { settings with timeout := value }
  else .error .unsuitableValue

/-- The options of a group as it is written. -/
def read (members : Entries Json) : Except Error FormatterSettings :=
  members.foldlM (fun settings member => settings.set member.1 member.2) {}

/-- The options as a value. -/
def toJson (settings : FormatterSettings) : Json :=
  .obj [("enabled", settings.enabled), ("command", settings.command),
    ("edition", settings.edition), ("timeout", settings.timeout)]

end FormatterSettings

namespace OutputSettings

/-- The mode that a value sets. A text must name one. -/
def readMode (value : Json) : Except Error ModeSetting :=
  match value with
  | .str name =>
    match OutputMode.ofName? name with
    | some mode => .ok (.mode mode)
    | none => .error (.unknownOutputMode name)
  | value => .ok (.other value)

/-- The options of a group as it is written; what is not an option is passed over. -/
def read (members : Entries Json) : Except Error OutputSettings := do
  let mode ← match members.get? "mode" with
    | some value => readMode value
    | none => .ok (.mode .errorIfExists)
  return {
    mode
    validateBeforeWrite := (members.get? "validate_before_write").getD (.bool true)
    atomicWrite := (members.get? "atomic_write").getD (.bool true) }

/-- The options as a value, where the mode is one. -/
def toJson (settings : OutputSettings) : Except Error Json :=
  match settings.mode with
  | .mode mode => .ok (.obj [("mode", .str mode.name),
      ("validate_before_write", settings.validateBeforeWrite),
      ("atomic_write", settings.atomicWrite)])
  | .other value => .error (.notAnObject value "value")

end OutputSettings

namespace Settings

/-- Sets one option to a value as it is; what is not an option is passed over. A value in the place
of the writer makes settings that cannot be given back. -/
def assign (settings : Settings) (key : String) (value : Json) : Settings :=
  if key = "add_generation_comment" then { settings with addGenerationComment := value }
  else if key = "add_serde_imports" then { settings with addSerdeImports := value }
  else if key = "derives" then { settings with derives := some value }
  else if key = "map_type" then { settings with mapType := value }
  else if key = "line_length" then { settings with lineLength := value }
  else if key = "break_reference_cycles" then { settings with breakReferenceCycles := value }
  else if key = "formatter" then { settings with formatter := .unusable value }
  else if key = "output" then { settings with output := .unusable value }
  else if key = "to_dict" then { settings with writable := false }
  else settings

/-- Tells whether an option is missing. -/
def lacks (settings : Settings) (key : String) : Bool :=
  (key = "derives" && settings.derives.isNone)
    || (key = "formatter" && settings.formatter.isMissing)
    || (key = "output" && settings.output.isMissing)

/-- Settings whose options are those of a table. What the table leaves out has its default, if it
has one on its own. -/
def ofTable (table : Entries Json) : Settings :=
  table.foldl (fun settings member => settings.assign member.1 member.2)
    { derives := none, formatter := .missing, output := .missing }

/-- Sets one option. An object for a group is read, and a missing option that is no group stays
missing. The table of all options is replaced as a whole, and neither the kind of the settings nor
their place among weak references can be set. -/
def set (settings : Settings) (key : String) (value : Json) : Except Error Settings :=
  match key, value with
  | "formatter", .obj members => do
    return { settings with formatter := .options (← FormatterSettings.read members) }
  | "output", .obj members => do
    return { settings with output := .options (← OutputSettings.read members) }
  | "__dict__", .obj table => .ok (ofTable table)
  | "__dict__", _ | "__class__", _ => .error .unsuitableValue
  | "__weakref__", _ => .error .optionFixed
  | key, value => .ok (if settings.lacks key then settings else settings.assign key value)

/-- Settings as they are written, in the order in which they are written. -/
def read (value : Json) : Except Error Settings :=
  match value with
  | .obj members => members.foldlM (fun settings member => settings.set member.1 member.2) {}
  | value => .error (.notAnObject value "items")

/-- What the option of traits to derive lists. -/
def traits (settings : Settings) : Except Error (List Json) :=
  match settings.derives with
  | none => .error .optionMissing
  | some value =>
    match value.listed? with
    | some traits => .ok traits
    | none => .error .unsuitableValue

/-- Settings as a value. The traits to derive are written as a list of what their value lists. -/
def toJson (settings : Settings) : Except Error Json := do
  if !settings.writable then throw .unsuitableValue
  let derives ← settings.traits
  let formatter ← settings.formatter.get "enabled"
  let output ← settings.output.get "mode"
  return .obj [
    ("add_generation_comment", settings.addGenerationComment),
    ("add_serde_imports", settings.addSerdeImports),
    ("derives", .arr derives),
    ("map_type", settings.mapType),
    ("line_length", settings.lineLength),
    ("break_reference_cycles", settings.breakReferenceCycles),
    ("formatter", formatter.toJson),
    ("output", ← output.toJson)]

/-- The traits to derive, none of which may be a container. -/
def derivable (settings : Settings) : Except Error (List Json) := do
  let traits ← settings.traits
  if traits.any Json.isContainer then throw .unsuitableValue
  return traits

/-- The width that a value sets. Part of a column is none, and what is a number in name only sets a
width that nothing is compared with. -/
def width : Json → Rust.Width
  | .bool value => .columns (if value then 1 else 0)
  | .int value => .columns value
  | .float value =>
    match value.floor? with
    | some columns => .columns columns
    | none => .unordered
  | .null | .str _ | .arr _ | .obj _ => .unsuitable

/-- The style that settings ask for. -/
def style (settings : Settings) : Rust.Style where
  announced := settings.addGenerationComment.isOn
  imports := settings.addSerdeImports.isOn
  derives := settings.derivable
  mapType := settings.mapType.spelled
  lineLength := width settings.lineLength

end Settings

end SchemaForge
