import SchemaForge.Expansion
import SchemaForge.Formatter
import SchemaForge.Json.Reader
import SchemaForge.Schema.Reading

/-! # Generation

Generates source text from a document: reads its schema, expands it into declarations, writes
them, and pipes the text through the formatter where settings ask for it.
-/

namespace SchemaForge

/-- What to generate from: a document, not read yet, and the name of its root if it has one. -/
structure Request where
  document : Json
  rootName : Option String := none
  settings : Settings := {}

namespace Request

/-- The declarations for a request. -/
def analyze (request : Request) : Traced Program := do
  let root ← Traced.quietly (Schema.read request.document)
  Document.expand ⟨root, request.rootName⟩ request.settings.breakReferenceCycles.isOn

/-- The source text for a program. -/
def render (settings : Settings) (program : Program) : Traced String := do
  let code ← Traced.quietly
    (settings.style.write program.declarations program.needsOneOrMany)
  Traced.report (.rendered program.declarations.length)
  return code

/-- The source text for a request, not formatted. -/
def write (request : Request) : Traced String := do
  let program ← request.analyze
  let code ← render request.settings program
  Traced.report (.generated program.declarations.length program.needsOneOrMany)
  return code

/-- Pipes source text through the formatter, if it is enabled. -/
def formatCode (settings : Settings) (session : Formatter.Session) (code : String) :
    Traced String × Formatter.Session :=
  match settings.formatter.get "enabled" with
  | .error error => (.quietly (.error error), session)
  | .ok formatter =>
    if formatter.enabled.isOn then
      match session.isAvailable formatter with
      | (.error error, after) => (.quietly (.error error), after)
      | (.ok false, after) =>
        (.quietly (.error (.formatter (.notAvailable formatter.command.spelled))), after)
      | (.ok true, after) => after.format formatter code
    else (pure code, session)

/-- The source text for a request. -/
def generate (request : Request) (session : Formatter.Session) :
    Traced String × Formatter.Session :=
  let written := request.write
  match written.outcome with
  | .error error => (⟨written.events, .error error⟩, session)
  | .ok code =>
    let (formatted, after) := formatCode request.settings session code
    (⟨written.events ++ formatted.events, formatted.outcome⟩, after)

end Request

/-- The error for text that is no document. -/
def documentError : Json.ReadError → Error
  | .malformed fault _ line column => .schema (.notJson fault line column) "#"
  | .integerTooLong digits => .integerTooLong digits
  | .loneSurrogate => .loneSurrogate

/-- The source text for a document that is given as text. -/
def generateFromText (text : String) (rootName : Option String) (settings : Settings)
    (session : Formatter.Session) : Traced String × Formatter.Session :=
  match Json.read text with
  | .error error => (.quietly (.error (documentError error)), session)
  | .ok document => Request.generate ⟨document, rootName, settings⟩ session

end SchemaForge
