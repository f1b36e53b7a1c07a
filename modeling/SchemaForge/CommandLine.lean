import SchemaForge.FileGeneration

/-! # Command line

One run of the program: takes its task from the command line, generates code from the schema file,
and prints it or delivers it to the output file. A run turns a file tree into another one and ends
with an exit code. How words make a task, and how a text is printed, is left to the console.
-/

namespace SchemaForge

open Output

namespace CommandLine

/-- What a run is asked to do. -/
structure Task where
  schema : Path
  config : Option Path := none
  output : Option Path := none
  name : Option String := none
  rustfmt : Bool := false
  force : Bool := false
  verbose : Bool := false

/-- What the words of a command line amount to: a task, or the end of the run, as where they are no
usage of the program or only ask for help. -/
inductive Reading where
  | task (task : Task)
  | ended (exitCode : Nat) (stdout stderr : String) (escaped : Option Error)

/-- What stands between the program and its user. -/
structure Console where
  /-- What words amount to, given the files that their paths are looked up in. -/
  read : FileTree → List String → Reading
  /-- Code as it is printed. -/
  echo : String → String
  /-- The message of a run that fails as it is printed. -/
  report : String → String

/-- Why a run fails: an error that the program reports, or one that escapes it. -/
inductive Failure where
  | reported (message : String)
  | escaped (error : Error)

/-- The value in a file. -/
def readJson (tree : FileTree) (path : Path) : Except Error (Except Json.ReadError Json) := do
  let text ← tree.fileText path
  return Json.read (String.ofList (Text.unifyLineEnds text.toList))

/-- The document in the schema file. Text that is no document is reported. -/
def readDocument (tree : FileTree) (path : Path) : Except Failure Json := do
  match ← (readJson tree path).mapError .escaped with
  | .ok document => .ok document
  | .error (.integerTooLong digits) => .error (.escaped (.integerTooLong digits))
  | .error .loneSurrogate => .error (.escaped .loneSurrogate)
  | .error (.malformed fault offset line column) =>
    let report := malformedJsonMessage fault offset line column
    .error (.reported s!"{path.text} is not valid JSON: {report}")

/-- The settings in a settings file. -/
def readSettings (tree : FileTree) (path : Path) : Except Error Settings := do
  match ← readJson tree path with
  | .ok value => Settings.read value
  | .error (.integerTooLong digits) => .error (.integerTooLong digits)
  | .error .loneSurrogate => .error .loneSurrogate
  | .error (.malformed fault offset line column) =>
    .error (.malformedJson fault offset line column)

/-- Settings with the formatter enabled. -/
def enableFormatter (settings : Settings) : Except Error Settings := do
  let formatter ← settings.formatter.get "enabled"
  return { settings with formatter := .options { formatter with enabled := .bool true } }

/-- Settings with the output mode that overwrites. -/
def forceOutput (settings : Settings) : Except Error Settings := do
  let output ← settings.output.get "mode"
  return { settings with output := .options { output with mode := .mode .force } }

/-- The settings for a task. -/
def taskSettings (tree : FileTree) (task : Task) : Except Error Settings := do
  let settings ← match task.config with
    | some path => readSettings tree path
    | none => .ok {}
  let settings ← if task.rustfmt then enableFormatter settings else .ok settings
  if task.force then forceOutput settings else .ok settings

/-- Tells whether a document speaks of properties: as a key of an object, as an item of a list, or
anywhere within a text. -/
def mentionsProperties : Json → Except Error Bool
  | .obj members => .ok ((Entries.get? members "properties").isSome)
  | .arr items => .ok (items.any fun item => Json.same item (.str "properties"))
  | .str text => .ok (Text.contains "properties".toList text.toList)
  | .null | .bool _ | .int _ | .float _ => .error .unsuitableValue

/-- The part of a file's name before its first dot. -/
def stem (path : Path) : String :=
  String.ofList (path.name.toList.takeWhile fun c => c ≠ '.')

/-- The name of the root: the given one, else the schema file's if the document speaks of
properties. -/
def rootName (task : Task) (document : Json) : Except Error (Option String) :=
  match task.name with
  | some name => .ok (some name)
  | none => do return if ← mentionsProperties document then some (stem task.schema) else none

/-- What a task is to generate. -/
def request (tree : FileTree) (task : Task) : Except Failure Request := do
  let document ← readDocument tree task.schema
  let settings ← (taskSettings tree task).mapError .escaped
  let rootName ← (rootName task document).mapError .escaped
  return { document, rootName, settings }

/-- How an error ends a run: verdicts and existing files are reported. -/
def failureOf (error : Error) : Failure :=
  match error with
  | .outputExists _ | .file .exists _ => .reported error.message
  | error => if error.isVerdict then .reported error.message else .escaped error

/-- How a run ends. -/
structure Ending where
  exitCode : Nat
  stdout : String := ""
  stderr : String := ""
  escaped : Option Error := none
  tree : FileTree

/-- An ending is told unless the error that escapes stands for what is left open. -/
def Ending.Told (ending : Ending) : Prop :=
  ∀ error, ending.escaped = some error → error.isUntold = false

/-- The events as they are printed. -/
def printed (verbose : Bool) (events : List Event) : String :=
  if verbose then String.join (events.map Event.line) else ""

/-- The end of a run that fails. -/
def fail (console : Console) (log : String) (tree : FileTree) : Failure → Ending
  | .reported message => { exitCode := 1, stderr := log ++ console.report message, tree }
  | .escaped error => { exitCode := 1, stderr := log, escaped := some error, tree }

/-- Carries out a task: prints the generated code, or delivers it to the output. -/
def perform (console : Console) (tree : FileTree) (script : List Formatter.Reply) (task : Task) :
    Ending :=
  match request tree task with
  | .error failure => fail console "" tree failure
  | .ok request =>
    match task.output with
    | none =>
      let generated := (request.generate { script }).1
      let log := printed task.verbose generated.events
      match generated.outcome with
      | .error error => fail console log tree (failureOf error)
      | .ok code => { exitCode := 0, stdout := console.echo code, stderr := log, tree }
    | some path =>
      let (generated, after) := request.generateTo { script } tree path
      let log := printed task.verbose generated.events
      match generated.outcome with
      | .error error => fail console log after (failureOf error)
      | .ok _ => { exitCode := 0, stderr := log, tree := after }

/-- One run of the program on a command line. -/
def run (console : Console) (tree : FileTree) (script : List Formatter.Reply)
    (words : List String) : Ending :=
  match console.read tree words with
  | .ended exitCode stdout stderr escaped => { exitCode, stdout, stderr, escaped, tree }
  | .task task => perform console tree script task

end CommandLine

end SchemaForge
