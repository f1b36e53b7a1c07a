import SchemaForge.Json.Reader

/-! # Errors

Everything that can stop a generation, told by its cause, and the wording of each cause. A cause
carries the values that its wording quotes.
-/

namespace SchemaForge

/-- What can be wrong with a schema document. -/
inductive SchemaFault where
  /-- A value that is neither an object nor a truth value stands where a schema belongs. -/
  | notASchema (value : Json)
  | referenceNotText
  | unknownType (name : Json)
  | notASchemaList
  | enumerationNotAList
  | notJson (fault : Json.Fault) (line column : Nat)

/-- What can be wrong with running a formatter. -/
inductive FormatterFault where
  | notAvailable (command : String)
  | notFound (command : String)
  | timedOut (command : String) (timeout : Json)
  | failed (command : String) (exitCode : Int) (report : String)

/-- Why a process is not started, fed or read, where it is not that its executable is missing or
that it takes too long. -/
inductive ProcessFault where
  | denied
  /-- The path of the executable leads through what is no directory. -/
  | notADirectory
  /-- Any other error of the system, with its number. -/
  | system (number : Nat)
  /-- A null character stands in a word. -/
  | nullCharacter
  /-- A word or the time limit is of a kind that no process takes. -/
  | unsuitable
  /-- The time limit is too great to be waited for. -/
  | limitTooGreat
  /-- The input has a character that the machine's encoding leaves out. -/
  | notEncodable
  /-- What the process wrote is no text in the machine's encoding. -/
  | notDecodable
deriving DecidableEq

/-- What can be wrong with generated code. -/
inductive OutputFault where
  | noDeclarations
  | unbalancedBraces (opened closed : Nat)
  /-- Refused by a check of the caller's own, which sees the length of the code. -/
  | refused (length : Nat)

/-- What a file system can refuse. -/
inductive FileFault where
  | missing
  | exists
  | notADirectory
  | isADirectory
  /-- A name, or a path as a whole, has too many bytes. -/
  | nameTooLong
  /-- A directory's own place, or the one above it, is not for replacing. -/
  | busy
  /-- A null character stands in a path. -/
  | nullCharacter
deriving DecidableEq

/-- A cause that stops a generation. -/
inductive Error where
  | schema (fault : SchemaFault) (location : String)
  | unresolvedReference (reference segment : String)
  | rootNameMissing
  | unsupportedEnumValue (declaration : String) (value : Json)
  | cyclicReference (chain : List String)
  | recursiveAlias (chain : List String)
  | formatter (fault : FormatterFault)
  | invalidOutput (fault : OutputFault)
  | outputExists (path : String)
  | unknownOutputMode (mode : String)
  /-- An attribute is looked up on a value that has no attributes of its own. -/
  | notAnObject (value : Json) (wanted : String)
  /-- A value is of a kind that its use cannot take. -/
  | unsuitableValue
  /-- An option is used that the settings do not have. -/
  | optionMissing
  /-- A key is set whose value is not for setting. -/
  | optionFixed
  | malformedJson (fault : Json.Fault) (offset line column : Nat)
  | integerTooLong (digits : Nat)
  /-- Half of a surrogate pair is written where a character belongs. No text here holds one, so what
  would follow from it is not told. -/
  | loneSurrogate
  /-- A comment is to be filled to a width that no word is compared with, which does not end. -/
  | endlessFilling
  | processFailed (fault : ProcessFault)
  | file (fault : FileFault) (path : String)

/-- The wording of a schema fault, without its place. -/
def SchemaFault.message : SchemaFault → String
  | .notASchema value => s!"Expected a schema object, got {value.kindName}"
  | .referenceNotText => "$ref must be a string"
  | .unknownType name => s!"Unknown type {name.shown}"
  | .notASchemaList => "Expected an array of schemas"
  | .enumerationNotAList => "enum must be an array"
  | .notJson fault line column => s!"Invalid JSON: {fault.message} at line {line} column {column}"

/-- The wording of a formatter fault. -/
def FormatterFault.message : FormatterFault → String
  | .notAvailable command => s!"Formatter is not available: {command}"
  | .notFound command => s!"Formatter executable not found: {command}"
  | .timedOut command timeout => s!"{command} timed out after {timeout.spelled}s"
  | .failed command exitCode report => s!"{command} failed with exit code {exitCode}: {report}"

/-- The wording of a process fault, without the name of the executable. -/
def ProcessFault.message : ProcessFault → String
  | .denied => "[Errno 13] Permission denied"
  | .notADirectory => "[Errno 20] Not a directory"
  | .system number => s!"[Errno {number}]"
  | .nullCharacter => "embedded null byte"
  | .unsuitable => "Unsuitable word or time limit"
  | .limitTooGreat => "timeout is too large"
  | .notEncodable => "Input cannot be encoded"
  | .notDecodable => "Output cannot be decoded"

/-- The wording of an output fault. -/
def OutputFault.message : OutputFault → String
  | .noDeclarations => "Generated Rust code has no type declarations"
  | .unbalancedBraces opened closed =>
    s!"Generated Rust code has unbalanced braces: {opened} open, {closed} close"
  | .refused length => s!"rejected {length} characters"

/-- The wording of a refusal of the file system, with its number if it has one. -/
def FileFault.message : FileFault → String
  | .missing => "[Errno 2] No such file or directory"
  | .exists => "[Errno 17] File exists"
  | .notADirectory => "[Errno 20] Not a directory"
  | .isADirectory => "[Errno 21] Is a directory"
  | .nameTooLong => "[Errno 36] File name too long"
  | .busy => "[Errno 16] Device or resource busy"
  | .nullCharacter => "embedded null byte"

/-- The wording of a fault in JSON text, with its place. -/
def malformedJsonMessage (fault : Json.Fault) (offset line column : Nat) : String :=
  s!"{fault.message}: line {line} column {column} (char {offset})"

/-- Names in the order in which one leads to the next. -/
def chainText (chain : List String) : String := " -> ".intercalate chain

/-- The wording of an error. -/
def Error.message : Error → String
  | .schema fault location => s!"{fault.message} (at {location})"
  | .unresolvedReference reference segment =>
    "Expected definition: `" ++ reference ++ "` " ++ segment
  | .rootNameMissing => "Schema references its root (`#`) but no root type name was given"
  | .unsupportedEnumValue declaration value =>
    "Enum `" ++ declaration ++ "` contains non-string value " ++ value.shown
      ++ "; only string enums are supported"
  | .cyclicReference chain => "Cyclic allOf reference: " ++ chainText chain
  | .recursiveAlias chain => "Recursive type alias: " ++ chainText chain
  | .formatter fault => fault.message
  | .invalidOutput fault => fault.message
  | .outputExists path => s!"Output file already exists: {path}. Use force mode to overwrite."
  | .unknownOutputMode mode => s!"{Text.quote mode} is not a valid OutputMode"
  | .notAnObject value wanted =>
    "'" ++ value.kindName ++ "' object has no attribute '" ++ wanted ++ "'"
  | .unsuitableValue => "Unsuitable value"
  | .optionMissing => "Missing option"
  | .optionFixed => "Option cannot be set"
  | .malformedJson fault offset line column => malformedJsonMessage fault offset line column
  | .integerTooLong digits =>
    s!"Exceeds the limit ({Json.Reader.integerDigitsLimit} digits) for integer string conversion: "
      ++ s!"value has {digits} digits; use sys.set_int_max_str_digits() to increase the limit"
  | .loneSurrogate => "Half of a surrogate pair"
  | .endlessFilling => "Width without an order"
  | .processFailed fault => fault.message
  | .file .nullCharacter _ => FileFault.nullCharacter.message
  | .file fault path => s!"{fault.message}: {Text.quote path}"

/-- Tells whether an error is a verdict of the generator on its input or on its formatter, and not
a misuse of settings, a failure to read settings or a refusal by the system. -/
def Error.isVerdict : Error → Bool
  | .schema .. | .unresolvedReference .. | .rootNameMissing | .unsupportedEnumValue ..
  | .cyclicReference .. | .recursiveAlias .. | .formatter .. | .invalidOutput .. => true
  | .outputExists .. | .unknownOutputMode .. | .notAnObject .. | .unsuitableValue | .optionMissing
  | .optionFixed | .malformedJson .. | .integerTooLong .. | .loneSurrogate | .endlessFilling
  | .processFailed .. | .file .. => false

/-- Tells whether an error stands for what is not told: what the program would do there is left
open. -/
def Error.isUntold : Error → Bool
  | .loneSurrogate | .endlessFilling => true
  | _ => false

end SchemaForge
