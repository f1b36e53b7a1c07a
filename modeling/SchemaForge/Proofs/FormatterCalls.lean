import SchemaForge.Proofs.SourceLines

/-! # Calls of one formatter

A formatter is asked and run any number of times. It keeps what a command answered, so that the
command is asked once, and it runs a process for each text, whatever it knows. Of the processes
nothing is assumed: a session faces any behaviours, one for each start that is still to come. What a
process writes comes back as the text that its bytes are read as, and where they are no text it is
as if the process had failed.
-/

namespace SchemaForge

namespace Json

/-- A value that is not made of others is the same as itself. -/
theorem same_self_of_leaf {value : Json} (h : value.isContainer = false) :
    same value value = true := by
  cases value with
  | arr items => cases h
  | obj members => cases h
  | null | bool | int | float | str => simp [same]

/-- A number is the same as what has its amount. -/
theorem same_of_amount? {value : Json} {amount : Amount} (h : value.amount? = some amount)
    (other : Json) : same other value = (other.amount? == some amount) := by
  rw [← h]
  cases value with
  | null | str | arr | obj => cases h
  | bool | int => cases other <;> rfl
  | float value => cases other <;> cases value <;> rfl

/-- Values are the same, and not made of others, only when they are one or numbers of one amount. -/
theorem eq_or_amount?_of_same {a b : Json} (ha : a.isContainer = false) (h : same a b = true) :
    a = b ∨ ∃ amount, a.amount? = some amount ∧ b.amount? = some amount := by
  cases a with
  | arr items => cases ha
  | obj members => cases ha
  | null => cases b <;> first | exact .inl rfl | cases h
  | str text => cases b <;> first | exact .inl (congrArg str (eq_of_beq h)) | cases h
  | bool | int => exact .inr ⟨_, rfl, (eq_of_beq h).symm⟩
  | float number => cases number <;> exact .inr ⟨_, rfl, (eq_of_beq h).symm⟩

theorem isContainer_of_same {a b : Json} (ha : a.isContainer = false) (h : same a b = true) :
    b.isContainer = false := by
  rcases eq_or_amount?_of_same ha h with rfl | ⟨amount, -, hamount⟩
  · exact ha
  · cases b with
    | null | bool | int | float | str => rfl
    | arr | obj => cases hamount

/-- Values that are the same, and not made of others, have the same equals. -/
theorem same_congr_of_leaf {a b : Json} (ha : a.isContainer = false) (h : same a b = true)
    (value : Json) : same value a = same value b := by
  rcases eq_or_amount?_of_same ha h with rfl | ⟨amount, hamount, hother⟩
  · rfl
  · rw [same_of_amount? hamount, same_of_amount? hother]

end Json

namespace Formatter

/-- The command is a text, and so is the edition unless it is off. -/
structure Runnable (settings : FormatterSettings) : Prop where
  command : ∃ command, settings.command = .str command
  edition : (∃ edition, settings.edition = .str edition) ∨ settings.edition.isOn = false

/-- A run has a text just where its process ends with the code of success, and the text is what
the process wrote. -/
theorem formatted_eq_ok {command : String} {timeout : Json} {outcome : Outcome} {text : String} :
    formatted command timeout outcome = .ok text ↔ ∃ report, outcome = .ended 0 text report := by
  cases outcome with
  | missing | timeout | failed => exact ⟨nofun, nofun⟩
  | ended exitCode output report =>
    rw [formatted]
    split
    · rename_i hcode
      subst hcode
      exact ⟨fun h => ⟨report, by rw [Except.ok.inj h]⟩, fun ⟨_, h⟩ => by cases h; rfl⟩
    · rename_i hcode
      exact ⟨nofun, fun ⟨_, h⟩ => absurd (Outcome.ended.inj h).1 hcode⟩

/-- A command and an edition that are texts can be run. -/
theorem runWords_of_texts {settings : FormatterSettings} {command edition : String}
    (hcommand : settings.command = .str command) (hedition : settings.edition = .str edition) :
    runWords settings = .ok (command, [command, "--emit", "stdout"]
      ++ if edition.isEmpty then [] else ["--edition", edition]) := by
  rw [runWords, editionWords, hedition, commandText, hcommand]
  rfl

theorem commandText_cases (settings : FormatterSettings) :
    (∃ command, settings.command = .str command ∧ commandText settings = .ok command) ∨
      (¬ ∃ command, settings.command = .str command) ∧
        commandText settings = .error .unsuitableValue := by
  unfold commandText
  split
  · rename_i command hcommand
    exact .inl ⟨command, hcommand, rfl⟩
  · rename_i hother
    exact .inr ⟨fun ⟨command, hcommand⟩ => hother command hcommand, rfl⟩

theorem editionWords_cases (settings : FormatterSettings) :
    let suits := (∃ edition, settings.edition = .str edition) ∨ settings.edition.isOn = false
    (suits ∧ ∃ words, editionWords settings = .ok words) ∨
      ¬ suits ∧ editionWords settings = .error .unsuitableValue := by
  intro suits
  unfold editionWords
  split
  · rename_i edition hedition
    exact .inl ⟨.inl ⟨edition, hedition⟩, _, rfl⟩
  · rename_i hother
    cases hon : settings.edition.isOn with
    | false => exact .inl ⟨.inr hon, _, rfl⟩
    | true =>
      refine .inr ⟨?_, rfl⟩
      rintro (⟨edition, hedition⟩ | hoff)
      · exact hother edition hedition
      · cases hon.symm.trans hoff

/-- Just the settings with suitable values can be run, and nothing else is wrong with the others. -/
theorem runWords_cases (settings : FormatterSettings) :
    (Runnable settings ∧ ∃ command words, runWords settings = .ok (command, words)) ∨
      ¬ Runnable settings ∧ runWords settings = .error .unsuitableValue := by
  unfold runWords
  rcases editionWords_cases settings with ⟨hedition, words, hwords⟩ | ⟨hother, hfailed⟩
  · rcases commandText_cases settings with ⟨command, hcommand, htext⟩ | ⟨hother, hfailed⟩
    · rw [hwords, htext]
      exact .inl ⟨⟨⟨command, hcommand⟩, hedition⟩, command, _, rfl⟩
    · rw [hwords, hfailed]
      exact .inr ⟨fun h => hother h.command, rfl⟩
  · rw [hfailed]
    exact .inr ⟨fun h => hother h.edition, rfl⟩

/-! ## Behaviours of processes -/

/-- What a text is written as is read as the text again, but for its line ends. -/
theorem decode_toUTF8 (text : String) :
    decode text.toUTF8 = some (String.ofList (Text.unifyLineEnds text.toList)) := by
  have hread : String.fromUTF8? text.toUTF8 = some text := dif_pos text.isValidUTF8
  rw [decode, hread, Option.map_some]

/-- A process ends with the code of success, and what it wrote is read as text: its output as this
one. -/
def Behaviour.Yields (behaviour : Behaviour) (text : String) : Prop :=
  ∃ output report, behaviour = .ended 0 output report ∧ decode output = some text ∧
    (decode report).isSome = true

theorem yields_iff_reply {behaviour : Behaviour} {text : String} :
    behaviour.Yields text ↔ ∃ report, behaviour.reply = .ended 0 text false report := by
  cases behaviour with
  | missing | timeout | failed =>
    refine ⟨?_, nofun⟩
    rintro ⟨output, report, h, -⟩
    cases h
  | ended exitCode output report =>
    rw [Behaviour.reply]
    constructor
    · rintro ⟨_, _, ⟨⟩, houtput, hreport⟩
      obtain ⟨told, htold⟩ := Option.isSome_iff_exists.mp hreport
      exact ⟨told, by rw [houtput, htold]⟩
    · rintro ⟨told, h⟩
      split at h
      · rename_i houtput hreport
        cases h
        exact ⟨output, report, rfl, houtput, by rw [hreport]; rfl⟩
      · cases h

/-- A process that writes nothing after its output. -/
theorem echo_of_reply {behaviour : Behaviour} {exitCode : Int} {output report : String}
    {echo : Bool} (h : behaviour.reply = .ended exitCode output echo report) : echo = false := by
  cases behaviour with
  | missing | timeout | failed => cases h
  | ended =>
    rw [Behaviour.reply] at h
    split at h
    · cases h
      rfl
    · cases h

/-- The processes that a session is still to start behave like these. -/
def Session.Faces (session : Session) (behaviours : List Behaviour) : Prop :=
  session.script = behaviours.map Behaviour.reply

/-- A call of a formatter. -/
inductive Call where
  | isAvailable (settings : FormatterSettings)
  | format (settings : FormatterSettings) (code : String)

namespace Session

/-- What a call leaves of a session. -/
def perform (session : Session) : Call → Session
  | .isAvailable settings => (session.isAvailable settings).2
  | .format settings code => (session.format settings code).2

/-- What calls leave of a session, one after another. -/
def performAll (session : Session) (calls : List Call) : Session :=
  calls.foldl perform session

/-! ## What calls keep -/

/-- The later session knows and has started everything that the earlier one has, and each further
start took one reply off the script. -/
structure Extends (later earlier : Session) : Prop where
  answers : earlier.answers <+: later.answers
  starts : earlier.starts <+: later.starts
  script : later.script = earlier.script.drop (later.starts.length - earlier.starts.length)

theorem Extends.refl (session : Session) : session.Extends session where
  answers := List.prefix_rfl
  starts := List.prefix_rfl
  script := by rw [Nat.sub_self, List.drop_zero]

theorem Extends.trans {first second third : Session} (h : third.Extends second)
    (hfirst : second.Extends first) : third.Extends first where
  answers := hfirst.answers.trans h.answers
  starts := hfirst.starts.trans h.starts
  script := by
    have hearly := hfirst.starts.length_le
    have hlate := h.starts.length_le
    rw [h.script, hfirst.script, List.drop_drop]
    congr 1
    omega

theorem extends_start (session : Session) (start : Start) :
    (session.start start).2.Extends session where
  answers := List.prefix_rfl
  starts := List.prefix_append _ _
  script := by
    show session.script.tail
      = session.script.drop ((session.starts ++ [start]).length - session.starts.length)
    rw [List.length_append, Nat.add_sub_cancel_left, List.length_singleton, List.drop_one]

theorem extends_remember (session : Session) (command : Json) (answer : Bool) :
    (session.remember command answer).Extends session where
  answers := List.prefix_append _ _
  starts := List.prefix_rfl
  script := (Extends.refl session).script

/-- Later on a session faces what is left of the behaviours that it faced. -/
theorem Extends.faces {later earlier : Session} (h : later.Extends earlier)
    {behaviours : List Behaviour} (hfaces : earlier.Faces behaviours) :
    later.Faces (behaviours.drop (later.starts.length - earlier.starts.length)) := by
  rw [Faces, h.script, hfaces, List.map_drop]

/-- A question leaves the session after its start, or that one with one more answer. -/
theorem ask_cases (session : Session) (command : Json) :
    let after := (session.start ⟨[command, .str "--version"], none, .int 5⟩).2
    (∃ fault, session.ask command = (.error (.processFailed fault), after)) ∨
      ∃ answer, session.ask command = (.ok answer, after.remember command answer) := by
  unfold ask
  generalize session.start _ = started
  obtain ⟨outcome, after⟩ := started
  cases outcome with
  | failed fault => exact .inl ⟨fault, rfl⟩
  | missing | timeout | ended => exact .inr ⟨_, rfl⟩

theorem extends_ask (session : Session) (command : Json) :
    (session.ask command).2.Extends session := by
  have hstart := session.extends_start ⟨[command, .str "--version"], none, .int 5⟩
  rcases session.ask_cases command with ⟨fault, h⟩ | ⟨answer, h⟩
  · rw [h]
    exact hstart
  · rw [h]
    exact (extends_remember _ command answer).trans hstart

theorem extends_isAvailable (session : Session) (settings : FormatterSettings) :
    (session.isAvailable settings).2.Extends session := by
  unfold isAvailable
  split
  · exact .refl session
  · cases session.answer? settings.command with
    | some answer => exact .refl session
    | none => exact session.extends_ask settings.command

theorem extends_format (session : Session) (settings : FormatterSettings) (code : String) :
    (session.format settings code).2.Extends session := by
  unfold format
  cases runWords settings with
  | error error => exact .refl session
  | ok run => exact session.extends_start _

/-- A call forgets nothing. -/
theorem extends_perform (session : Session) (call : Call) :
    (session.perform call).Extends session := by
  cases call with
  | isAvailable settings => exact session.extends_isAvailable settings
  | format settings code => exact session.extends_format settings code

/-- Calls forget nothing, however many there are. -/
theorem extends_performAll (session : Session) (calls : List Call) :
    (session.performAll calls).Extends session := by
  induction calls generalizing session with
  | nil => exact .refl session
  | cons call rest ih => exact (ih (session.perform call)).trans (session.extends_perform call)

/-! ## Answers -/

theorem Extends.answer?_eq_some {later earlier : Session} (h : later.Extends earlier)
    {command : Json} {answer : Bool} (hanswer : earlier.answer? command = some answer) :
    later.answer? command = some answer := by
  obtain ⟨known, hfind, rfl⟩ := Option.map_eq_some_iff.mp hanswer
  rw [answer?, h.answers.find?_eq_some hfind]
  rfl

/-- Equal commands have one answer. -/
theorem answer?_congr {command other : Json} (hleaf : command.isContainer = false)
    (hsame : Json.same command other = true) (session : Session) :
    session.answer? other = session.answer? command := by
  have hpredicate : (fun known : Json × Bool => Json.same known.1 other)
      = fun known => Json.same known.1 command :=
    funext fun known => (Json.same_congr_of_leaf hleaf hsame known.1).symm
  rw [answer?, answer?, hpredicate]

theorem answer?_remember {session : Session} {command : Json} (hleaf : command.isContainer = false)
    (hnone : session.answer? command = none) (answer : Bool) :
    (session.remember command answer).answer? command = some answer := by
  have hfind : session.answers.find? (fun known => Json.same known.1 command) = none :=
    Option.map_eq_none_iff.mp hnone
  rw [answer?, remember, List.find?_append, hfind, Option.none_or, List.find?_singleton,
    if_pos (Json.same_self_of_leaf hleaf)]
  rfl

/-- An answer that is given is known from then on. -/
theorem answer?_of_isAvailable_eq_ok {session : Session} {settings : FormatterSettings}
    {answer : Bool} (h : (session.isAvailable settings).1 = .ok answer) :
    settings.command.isContainer = false ∧
      (session.isAvailable settings).2.answer? settings.command = some answer := by
  cases hleaf : settings.command.isContainer with
  | true =>
    rw [isAvailable, if_pos hleaf] at h
    cases h
  | false =>
    rw [isAvailable, hleaf, if_neg Bool.false_ne_true] at h ⊢
    refine ⟨rfl, ?_⟩
    cases hknown : session.answer? settings.command with
    | some known =>
      rw [hknown, Except.ok.injEq] at h
      rw [← h]
      exact hknown
    | none =>
      rw [hknown] at h
      rcases session.ask_cases settings.command with ⟨fault, hask⟩ | ⟨given, hask⟩
      · simp only [hask] at h
        cases h
      · simp only [hask, Except.ok.injEq] at h ⊢
        rw [h]
        exact answer?_remember hleaf hknown answer

/-- A command whose answer is known is not asked. -/
theorem isAvailable_of_answer? {session : Session} {settings : FormatterSettings}
    (hleaf : settings.command.isContainer = false) {answer : Bool}
    (h : session.answer? settings.command = some answer) :
    session.isAvailable settings = (.ok answer, session) := by
  rw [isAvailable, hleaf, if_neg Bool.false_ne_true, h]

/-! ## Runs -/

/-- The result is that of one process, the first of the behaviours: it is started with all it is
given, what is known about commands stays, and there is a text just where the process yields it. -/
structure RunsOnce (session : Session) (behaviours : List Behaviour) (start : Start)
    (result : Traced String × Session) : Prop where
  starts : result.2.starts = session.starts ++ [start]
  answers : result.2.answers = session.answers
  outcome : ∀ text, result.1.outcome = .ok text ↔
    ∃ behaviour, behaviours.head? = some behaviour ∧ behaviour.Yields text

/-- A process that is started ends well with a text just where the behaviour that is next yields
it. -/
theorem start_eq_ended_iff {session : Session} {behaviours : List Behaviour}
    (hfaces : session.Faces behaviours) (start : Start) (text : String) :
    (∃ report, (session.start start).1 = .ended 0 text report) ↔
      ∃ behaviour, behaviours.head? = some behaviour ∧ behaviour.Yields text := by
  rw [Session.start, hfaces]
  cases behaviours with
  | nil => simp
  | cons behaviour rest =>
    simp only [List.map_cons, List.head?_cons, Option.some.injEq, exists_eq_left',
      yields_iff_reply]
    cases hreply : behaviour.reply with
    | missing | timeout | failed => simp
    | ended exitCode output echo report =>
      have hecho := echo_of_reply hreply
      subst hecho
      simp

theorem format_of_words {settings : FormatterSettings} {command : String} {words : List String}
    (h : runWords settings = .ok (command, words)) (session : Session) (code : String) :
    session.format settings code =
      (⟨[.running words], formatted command settings.timeout
        (session.start ⟨words.map Json.str, some code, settings.timeout⟩).1⟩,
        (session.start ⟨words.map Json.str, some code, settings.timeout⟩).2) := by
  rw [format, h]

theorem format_of_error {settings : FormatterSettings} {error : Error}
    (h : runWords settings = .error error) (session : Session) (code : String) :
    session.format settings code = (.quietly (.error error), session) := by
  rw [format, h]

/-- What is known about commands has no part in a run. -/
theorem format_answers (session : Session) (settings : FormatterSettings) (code : String)
    (answers : List (Json × Bool)) :
    ({ session with answers } : Session).format settings code =
      ((session.format settings code).1, { (session.format settings code).2 with answers }) := by
  cases h : runWords settings with
  | error error => rw [format_of_error h, format_of_error h]
  | ok run => rw [format_of_words h, format_of_words h]; rfl

theorem runsOnce_format {settings : FormatterSettings} {command : String} {words : List String}
    (h : runWords settings = .ok (command, words)) {session : Session} {behaviours : List Behaviour}
    (hfaces : session.Faces behaviours) (code : String) :
    session.RunsOnce behaviours ⟨words.map Json.str, some code, settings.timeout⟩
      (session.format settings code) := by
  rw [format_of_words h]
  exact ⟨rfl, rfl, fun text => formatted_eq_ok.trans (start_eq_ended_iff hfaces _ text)⟩

end Session

end Formatter

namespace Request

open Formatter

/-- With the formatter enabled a text is generated just where the formatter answers and the next
process, which is started with the source text, yields that text. -/
theorem generate_eq_ok_iff {request : Request} {formatter : FormatterSettings}
    (hget : request.settings.formatter.get "enabled" = .ok formatter)
    (hon : formatter.enabled.isOn = true) {session : Session} {behaviours : List Behaviour}
    (hfaces : session.Faces behaviours) {text : String} :
    (request.generate session).1.outcome = .ok text ↔
      let asked := session.isAvailable formatter
      ∃ code command words behaviour, request.write.outcome = .ok code ∧ asked.1 = .ok true ∧
        runWords formatter = .ok (command, words) ∧
        (request.generate session).2.starts
          = asked.2.starts ++ [⟨words.map Json.str, some code, formatter.timeout⟩] ∧
        behaviours[asked.2.starts.length - session.starts.length]? = some behaviour ∧
        behaviour.Yields text := by
  have hleft := (session.extends_isAvailable formatter).faces hfaces
  unfold generate
  cases hcode : request.write.outcome with
  | error error => simp [hcode]
  | ok code =>
    simp only [hcode, formatCode, hget, hon, if_true]
    rcases hasked : session.isAvailable formatter with ⟨_ | _ | _, after⟩
    · simp [Traced.quietly]
    · simp [Traced.quietly]
    · cases hwords : runWords formatter with
      | error error => simp [Session.format_of_error hwords, Traced.quietly]
      | ok run =>
        obtain ⟨command, words⟩ := run
        rw [hasked] at hleft
        have hruns := Session.runsOnce_format hwords hleft code
        have houtcome := hruns.outcome text
        rw [List.head?_drop] at houtcome
        constructor
        · intro h
          obtain ⟨behaviour, hnext, hyields⟩ := houtcome.mp h
          exact ⟨code, command, words, behaviour, rfl, rfl, rfl, hruns.starts, hnext, hyields⟩
        · rintro ⟨_, _, _, behaviour, ⟨⟩, -, ⟨⟩, -, hnext, hyields⟩
          exact houtcome.mpr ⟨behaviour, hnext, hyields⟩

end Request

namespace Formatter

/-- A command is asked until it gives an answer, and the answer stands for every later call,
whatever was called in between and whatever the processes do. With settings that can be run, each
text is piped through one process and the answers have no part in it: there is a result just where
the process ends well and what it wrote is text, and it is that text. Other settings start nothing.
With the formatter enabled a text is generated just where such a process yields it. -/
theorem asked_once_and_piped {session : Session} {behaviours : List Behaviour}
    (hfaces : session.Faces behaviours) :
    (∀ settings answer, (session.isAvailable settings).1 = .ok answer →
      ∀ calls later, Json.same settings.command later.command = true →
        let after := (session.isAvailable settings).2.performAll calls
        after.isAvailable later = (.ok answer, after)) ∧
    (∀ settings code,
      (Runnable settings ∧ ∃ command words, runWords settings = .ok (command, words) ∧
        session.RunsOnce behaviours ⟨words.map Json.str, some code, settings.timeout⟩
          (session.format settings code)) ∨
      ¬ Runnable settings ∧
        session.format settings code = (.quietly (.error .unsuitableValue), session)) ∧
    (∀ settings code answers,
      ({ session with answers } : Session).format settings code =
        ((session.format settings code).1, { (session.format settings code).2 with answers })) ∧
    ∀ request formatter text, request.settings.formatter.get "enabled" = .ok formatter →
      formatter.enabled.isOn = true →
      ((Request.generate request session).1.outcome = .ok text ↔
        let asked := session.isAvailable formatter
        ∃ code command words behaviour, request.write.outcome = .ok code ∧ asked.1 = .ok true ∧
          runWords formatter = .ok (command, words) ∧
          (Request.generate request session).2.starts
            = asked.2.starts ++ [⟨words.map Json.str, some code, formatter.timeout⟩] ∧
          behaviours[asked.2.starts.length - session.starts.length]? = some behaviour ∧
          behaviour.Yields text) := by
  refine ⟨?_, ?_, session.format_answers, ?_⟩
  · intro settings answer hanswer calls later hsame after
    obtain ⟨hleaf, hknown⟩ := Session.answer?_of_isAvailable_eq_ok hanswer
    have hkept := (Session.extends_performAll _ calls).answer?_eq_some hknown
    rw [← Session.answer?_congr hleaf hsame] at hkept
    exact Session.isAvailable_of_answer? (Json.isContainer_of_same hleaf hsame) hkept
  · intro settings code
    rcases runWords_cases settings with ⟨hrunnable, command, words, hwords⟩ | ⟨hother, hfailed⟩
    · exact .inl ⟨hrunnable, command, words, hwords, Session.runsOnce_format hwords hfaces code⟩
    · exact .inr ⟨hother, Session.format_of_error hfailed session code⟩
  · intro request formatter text hget hon
    exact Request.generate_eq_ok_iff hget hon hfaces

/-- A process that ends with a text for its output and reports nothing. -/
def Behaviour.writes (text : String) : Behaviour := .ended 0 text.toUTF8 "".toUTF8

theorem reply_writes (text : String) :
    (Behaviour.writes text).reply
      = .ended 0 (String.ofList (Text.unifyLineEnds text.toList)) false "" := by
  rw [Behaviour.writes, Behaviour.reply, decode_toUTF8, decode_toUTF8]
  rfl

/-- Processes that answer, take too long and end with a text, in this order. -/
def threeProcesses : List Behaviour := [.writes "1.7.0", .timeout, .writes "pub type A = i64;"]

/-- Processes that answer and end with a text. -/
def twoProcesses : List Behaviour := [.writes "1.7.0", .writes "pub type A = i64;\r\n"]

/-- A new session that faces processes. -/
def facing (behaviours : List Behaviour) : Session := { script := behaviours.map Behaviour.reply }

/-- Settings that ask for the formatter. -/
def enabledSettings : Settings where
  formatter := .options { enabled := .bool true }

theorem asked_once_and_piped_threeProcesses :
    (facing threeProcesses).Faces threeProcesses ∧ (facing twoProcesses).Faces twoProcesses ∧
    let after := ((facing threeProcesses).isAvailable {}).2.performAll
      [.isAvailable { command := .str "other" }, .format {} "pub type A=i64;"]
    after.isAvailable {} = (.ok true, after) ∧ after.starts.length = 3 ∧
    (Request.generate ⟨.obj [], none, enabledSettings⟩ (facing twoProcesses)).1.outcome
      = .ok "pub type A = i64;\n" ∧
    ∃ code words, (Request.write ⟨.obj [], none, enabledSettings⟩).outcome = .ok code ∧
      (Request.generate ⟨.obj [], none, enabledSettings⟩ (facing twoProcesses)).2.starts
        = ((facing twoProcesses).isAvailable { enabled := .bool true }).2.starts
          ++ [⟨words, some code, .int 30⟩] := by
  have hthree : (facing threeProcesses).Faces threeProcesses := rfl
  have htwo : (facing twoProcesses).Faces twoProcesses := rfl
  have hanswer : ((facing threeProcesses).isAvailable {}).1 = .ok true := by
    rw [facing, threeProcesses, List.map_cons, reply_writes]
    rfl
  have hsame : Json.same (.str "rustfmt") (.str "rustfmt") = true := by decide
  have hanalyze : (Request.analyze ⟨.obj [], none, enabledSettings⟩).outcome
      = .ok ⟨none, [], false⟩ := by cbv
  have hwrite := Request.write_eq_ok.mpr ⟨_, [], hanalyze, rfl, rfl⟩
  have hends : String.ofList (Text.unifyLineEnds "pub type A = i64;\r\n".toList)
      = "pub type A = i64;\n" := by decide +kernel
  have hgenerate :
      (Request.generate ⟨.obj [], none, enabledSettings⟩ (facing twoProcesses)).1.outcome
        = .ok "pub type A = i64;\n" := by
    rw [Request.outcome_generate_eq_bind, hwrite, facing, twoProcesses, List.map_cons,
      List.map_cons, reply_writes, reply_writes, hends]
    rfl
  obtain ⟨code, _, words, -, hcode, -, -, hstarts, -⟩ :=
    ((asked_once_and_piped htwo).2.2.2 _ _ _ rfl rfl).mp hgenerate
  have hlater := (asked_once_and_piped hthree).1 {} true hanswer
    [.isAvailable { command := .str "other" }, .format {} "pub type A=i64;"] {} hsame
  refine ⟨hthree, htwo, hlater, ?_, hgenerate, code, _, hcode, hstarts⟩
  rw [facing, threeProcesses, List.map_cons, List.map_cons, List.map_cons, reply_writes,
    reply_writes]
  rfl

/-- An edition that is a number starts no process, although the process would succeed. An output
that is no text makes an error of a process that succeeds, and line ends do not come back as they
were written. -/
theorem not_output_as_written :
    ((facing [.writes "x"]).format { edition := .int 2021 } "x").1.outcome
        = .error .unsuitableValue ∧
      ((facing [.writes "x"]).format { edition := .int 2021 } "x").2.starts = [] ∧
      ((facing [.ended 0 ⟨#[0xff]⟩ "".toUTF8]).format {} "x").1.outcome
        = .error (.processFailed .notDecodable) ∧
      ((facing [.writes "x\r\n"]).format {} "x").1.outcome = .ok "x\n" := by
  have hbytes : Behaviour.reply (.ended 0 ⟨#[0xff]⟩ "".toUTF8) = .failed .notDecodable := by
    have hnone : decode ⟨#[0xff]⟩ = none := by decide +kernel
    rw [Behaviour.reply, hnone]
  have hends : String.ofList (Text.unifyLineEnds "x\r\n".toList) = "x\n" := by decide +kernel
  refine ⟨rfl, rfl, ?_, ?_⟩
  · rw [facing, List.map_cons, hbytes]
    rfl
  · rw [facing, List.map_cons, reply_writes, hends]
    rfl

end Formatter

end SchemaForge
