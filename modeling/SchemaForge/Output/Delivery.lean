import SchemaForge.Output.FileTree
import SchemaForge.Output.Validation
import SchemaForge.Settings
import SchemaForge.Trace

/-! # Delivery

Writes code to its file. Atomic delivery writes to a temporary file beside the target, checks the
code, and then moves the file over the target, so that a failure leaves every regular file as it
was; only directories made on the way stay.
-/

namespace SchemaForge.Output

/-- A check of code before it is delivered. -/
abbrev Check := String → Except OutputFault Unit

/-- The name of a temporary file for a target: the target's name between dots, then a stamp of at
least eight digits. -/
def temporaryName (name : String) (stamp : Nat) : String :=
  "." ++ name ++ "." ++ String.ofList ((Nat.toDigits 10 stamp).leftpad 8 '0') ++ ".tmp"

/-- The path of a temporary file in the directory of a target, with the first stamp that is not in
use there. Among one stamp more than there are entries, one is free. -/
def temporaryPath (tree : FileTree) (directory : Location) (name : String) : Path :=
  let locations := (List.range (tree.entries.length + 1)).map fun stamp =>
    directory ++ [temporaryName name stamp]
  ⟨true, (locations.find? fun location => (tree.get? location).isNone).getD directory⟩

/-- Checks code, if there is a check. -/
def runCheck (check : Option Check) (code : String) : Except Error Unit :=
  match check with
  | some check => (check code).mapError .invalidOutput
  | none => .ok ()

/-- Delivers code through a temporary file, which is removed when the code is not delivered. -/
def deliver (tree : FileTree) (path : Path) (code : String) (check : Option Check) :
    Traced Unit × FileTree :=
  match tree.makeDirectories path.parent with
  | (.error error, made) => (.quietly (.error error), made)
  | (.ok directory, made) =>
    match made.locate (temporaryPath made directory path.name) with
    | .error fault => (.quietly (.error (.file fault path.text)), made)
    | .ok temporary =>
      let written := made.put temporary (.file code)
      match runCheck check code >>= fun _ => written.moveFile temporary path with
      | .ok after => (.report (.wrote path.text), after)
      | .error error => (.quietly (.error error), written.erase temporary)

/-- Refuses a path that leads to something already. -/
def requireFree (tree : FileTree) (path : Path) : Except Error Unit := do
  if ← tree.isTaken path then throw (.outputExists path.text)

/-- Delivers code unless there is something at its path already. -/
def deliverNew (tree : FileTree) (path : Path) (code : String) (check : Option Check) :
    Traced Unit × FileTree :=
  match requireFree tree path with
  | .error error => (.quietly (.error error), tree)
  | .ok () => deliver tree path code check

/-- Tells whether an existing output is an error. -/
def keepsExisting (settings : OutputSettings) : Bool :=
  match settings.mode with
  | .mode .errorIfExists => true
  | .mode .force | .other _ => false

/-- Delivers code as the output options say. Only atomic delivery checks it. -/
def deliverAs (tree : FileTree) (settings : OutputSettings) (path : Path) (code : String) :
    Traced Unit × FileTree :=
  if settings.atomicWrite.isOn then
    let check := if settings.validateBeforeWrite.isOn then some validate else none
    if keepsExisting settings then deliverNew tree path code check
    else deliver tree path code check
  else
    match if keepsExisting settings then requireFree tree path else .ok () with
    | .error error => (.quietly (.error error), tree)
    | .ok () =>
      let written := tree.writeFile path code
      (.quietly written.1, written.2)

end SchemaForge.Output
