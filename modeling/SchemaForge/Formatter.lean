import SchemaForge.Settings
import SchemaForge.Trace

/-! # The formatter

Pipes source text through an external formatter. What attempts to start a process come to is given
as a script of replies; a session keeps the script that is left, the starts so far, and which
commands were found to answer, each of which is asked only once. A command may be asked whether it
answers whatever value it is, but only a text is run. A reply is what the caller sees, who waits for
the process and reads its output as text; `Behaviour` is what the process itself does, in bytes.
-/

namespace SchemaForge.Formatter

/-- What an attempt to start a process and to wait for it leads to. -/
inductive Reply where
  | missing
  | timeout
  | failed (fault : ProcessFault)
  /-- The process ends. With `echo` it writes its input after its own output. -/
  | ended (exitCode : Int) (output : String) (echo : Bool) (report : String)

/-- What a process does that is to be started: it ends with the bytes that it wrote to its output
and to its report, or it does not come to that. -/
inductive Behaviour where
  | missing
  | timeout
  | failed (fault : ProcessFault)
  | ended (exitCode : Int) (output report : ByteArray)

/-- The text that bytes are read as: they must be UTF-8, and every line end becomes a line feed. -/
def decode (bytes : ByteArray) : Option String :=
  (String.fromUTF8? bytes).map fun text => String.ofList (Text.unifyLineEnds text.toList)

/-- The reply to a caller who waits for a process and reads what it wrote as text. -/
def Behaviour.reply : Behaviour → Reply
  | .missing => .missing
  | .timeout => .timeout
  | .failed fault => .failed fault
  | .ended exitCode output report =>
    match decode output, decode report with
    | some output, some report => .ended exitCode output false report
    | _, _ => .failed .notDecodable

/-- An attempt to start a process. -/
structure Start where
  words : List Json
  input : Option String
  timeout : Json

/-- The state of a formatter. -/
structure Session where
  script : List Reply := []
  starts : List Start := []
  answers : List (Json × Bool) := []

/-- What a process that was waited for leads to. -/
inductive Outcome where
  | missing
  | timeout
  | failed (fault : ProcessFault)
  | ended (exitCode : Int) (output report : String)

/-- Starts a process and waits for it. Beyond the end of the script no executable is found. -/
def Session.start (session : Session) (start : Start) : Outcome × Session :=
  let after := { session with
    script := session.script.tail, starts := session.starts ++ [start] }
  let outcome := match session.script.head? with
    | none | some .missing => .missing
    | some .timeout => .timeout
    | some (.failed fault) => .failed fault
    | some (.ended exitCode output echo report) =>
      .ended exitCode (if echo then output ++ start.input.getD "" else output) report
  (outcome, after)

/-- The command of a formatter; any value but a text is none. -/
def commandText (settings : FormatterSettings) : Except Error String :=
  match settings.command with
  | .str command => .ok command
  | _ => .error .unsuitableValue

/-- The words that select an edition, if one is set. -/
def editionWords (settings : FormatterSettings) : Except Error (List String) :=
  match settings.edition with
  | .str edition => .ok (if edition.isEmpty then [] else ["--edition", edition])
  | value => if value.isOn then .error .unsuitableValue else .ok []

/-- The answer that is known for a command. Equal commands are one. -/
def Session.answer? (session : Session) (command : Json) : Option Bool :=
  (session.answers.find? fun known => Json.same known.1 command).map Prod.snd

/-- Keeps an answer for later. -/
def Session.remember (session : Session) (command : Json) (answer : Bool) : Session :=
  { session with answers := session.answers ++ [(command, answer)] }

/-- Asks a command whether it answers. A process that fails gives no answer. -/
def Session.ask (session : Session) (command : Json) : Except Error Bool × Session :=
  let (outcome, after) := session.start ⟨[command, .str "--version"], none, .int 5⟩
  match outcome with
  | .failed fault => (.error (.processFailed fault), after)
  | .missing | .timeout => (.ok false, after.remember command false)
  | .ended exitCode _ _ => (.ok (exitCode == 0), after.remember command (exitCode == 0))

/-- Tells whether the formatter's command answers, asking it only if that is not known. A container
is no command. -/
def Session.isAvailable (session : Session) (settings : FormatterSettings) :
    Except Error Bool × Session :=
  if settings.command.isContainer then (.error .unsuitableValue, session)
  else
    match session.answer? settings.command with
    | some answer => (.ok answer, session)
    | none => session.ask settings.command

/-- The words that run a formatter. -/
def runWords (settings : FormatterSettings) : Except Error (String × List String) := do
  let edition ← editionWords settings
  let command ← commandText settings
  return (command, [command, "--emit", "stdout"] ++ edition)

/-- The report of a failed process, trimmed. -/
def trimmed (report : String) : String := String.ofList (Text.trim report.toList)

/-- The formatted text that a run leads to. -/
def formatted (command : String) (timeout : Json) : Outcome → Except Error String
  | .missing => .error (.formatter (.notFound command))
  | .timeout => .error (.formatter (.timedOut command timeout))
  | .failed fault => .error (.processFailed fault)
  | .ended exitCode output report =>
    if exitCode = 0 then .ok output
    else .error (.formatter (.failed command exitCode (trimmed report)))

/-- Formats source text in one run of the formatter. -/
def Session.format (session : Session) (settings : FormatterSettings) (code : String) :
    Traced String × Session :=
  match runWords settings with
  | .error error => (.quietly (.error error), session)
  | .ok (command, words) =>
    let (outcome, after) := session.start ⟨words.map Json.str, some code, settings.timeout⟩
    (⟨[.running words], formatted command settings.timeout outcome⟩, after)

end SchemaForge.Formatter
