import SchemaForge.CommandLine
import SchemaForge.Proofs.AcceptedSource
import SchemaForge.Proofs.AtomicDelivery
import SchemaForge.Text.ControlSequence

/-! # Runs as transactions

A run that fails leaves every file as it was, and a run that succeeds writes its output and nothing
else. What it writes is what it would print without an output, as far as the console prints text as
it is: one that is a pipe leaves control sequences out. This holds for every run of a sequence of
runs on one file tree, whatever the console, as long as it obeys three laws.
-/

namespace SchemaForge

namespace Text

/-! ## Control sequences -/

/-- A text that holds a control sequence. -/
def HasSequence (text : List Char) : Prop :=
  ∃ front rest after, text = front ++ '\x1b' :: '[' :: rest ∧ afterSequence? rest = some after

theorem HasSequence.cons {text : List Char} (h : HasSequence text) (c : Char) :
    HasSequence (c :: text) := by
  obtain ⟨front, rest, after, rfl, hafter⟩ := h
  exact ⟨c :: front, rest, after, rfl, hafter⟩

/-- A control sequence starts with the text or stands behind its first character. -/
theorem hasSequence_cons_iff {c : Char} {text : List Char} :
    HasSequence (c :: text) ↔ (∃ rest after, c :: text = '\x1b' :: '[' :: rest ∧
      afterSequence? rest = some after) ∨ HasSequence text := by
  constructor
  · rintro ⟨front, rest, after, htext, hafter⟩
    cases front with
    | nil => exact Or.inl ⟨rest, after, htext, hafter⟩
    | cons first others =>
      cases htext
      exact Or.inr ⟨others, rest, after, rfl, hafter⟩
  · rintro (⟨rest, after, htext, hafter⟩ | h)
    · exact ⟨[], rest, after, htext, hafter⟩
    · exact h.cons c

theorem length_dropSequences_le (text : List Char) :
    (dropSequences text).length ≤ text.length := by
  fun_induction dropSequences text with
  | case1 => exact Nat.le_refl _
  | case2 rest after hafter ih =>
    have hshorter := length_afterSequence? hafter
    simp only [List.length_cons]
    omega
  | case3 rest hnone ih =>
    simp only [List.length_cons]
    omega
  | case4 c rest hother ih =>
    simp only [List.length_cons]
    omega

/-- Just the texts without control sequences are printed as they are. -/
theorem dropSequences_eq_self_iff (text : List Char) :
    dropSequences text = text ↔ ¬ HasSequence text := by
  fun_induction dropSequences text with
  | case1 => simp [HasSequence]
  | case2 rest after hafter ih =>
    have hshorter := length_afterSequence? hafter
    have hdropped := length_dropSequences_le after
    constructor
    · intro hsame
      have hlength := congrArg List.length hsame
      simp only [List.length_cons] at hlength
      omega
    · intro hnone
      exact absurd ⟨[], rest, after, rfl, hafter⟩ hnone
  | case3 rest hnone ih =>
    rw [hasSequence_cons_iff, hasSequence_cons_iff]
    simp [ih, hnone]
  | case4 c rest hother ih =>
    have hfirst : ¬ ∃ others after, c :: rest = '\x1b' :: '[' :: others ∧
        afterSequence? others = some after := by
      rintro ⟨others, after, htext, -⟩
      cases htext
      exact hother others rfl rfl
    rw [hasSequence_cons_iff, or_iff_right hfirst, List.cons.injEq, ih]
    simp

end Text

namespace Output

open FileTree

/-! ## Whole deliveries -/

theorem transaction_writeFile {tree : FileTree} (h : tree.Sound) (path : Path) (code : String) :
    Transaction tree path code
      (.quietly (tree.writeFile path code).1, (tree.writeFile path code).2) := by
  unfold writeFile
  split
  · exact .of_error (Grown.refl _ _) id _
  · rename_i location hlocate
    split
    · exact .of_error (Grown.refl _ _) id _
    · rename_i hdirectory
      have hplace := eq_place_of_locate hlocate
      have hnil : location ≠ [] := by
        rintro rfl
        exact hdirectory (get?_nil tree)
      have hup : ".." ∉ location := hplace ▸ h.up_not_mem_place path
      have hdirectories : ∀ other, tree.get? other = some .directory →
          (tree.put location (.file code)).get? other = some .directory := by
        intro other hother
        have hne : other ≠ location := fun heq => hdirectory (heq ▸ hother)
        rw [get?_put_of_ne _ hne, hother]
      have hafter : (tree.put location (.file code)).locate path = .ok location :=
        locate_mono (current_put _ _ _) hdirectories hlocate
      refine ⟨fun _ => ?_, fun _ hfailed => (nomatch hfailed), fun _ => ?_⟩
      · exact h.put (h.directory_dropLast_of_locate hlocate) hup fun hsome => absurd hsome hdirectory
      · constructor
        case found => rw [find?_of_locate hafter, get?_put_self _ hnil]
        case current => rfl
        case no_directory => rwa [← hplace]
        case elsewhere =>
          intro other hne
          rw [← hplace] at hne
          exact Or.inl (get?_put_of_ne _ hne _)

/-- Whatever the output options are, a delivery is a transaction. -/
theorem transaction_deliverAs {tree : FileTree} (h : tree.Sound) (output : OutputSettings)
    (path : Path) (code : String) :
    Transaction tree path code (deliverAs tree output path code) := by
  unfold deliverAs
  split
  · dsimp only
    split
    · exact transaction_deliverNew h _ _ _
    · exact transaction_deliver h _ _ _
  · split
    · exact .of_error (Grown.refl _ _) id _
    · exact transaction_writeFile h _ _

end Output

namespace Request

open Output FileTree

/-- What generation to a file may come to: on failure at most directories were made, and on success
the code, which is what generation alone yields, was written. -/
structure FileTransaction (request : Request) (session : Formatter.Session) (before : FileTree)
    (path : Path) : Prop where
  sound : (request.generateTo session before path).2.Sound
  failed : ∀ error, (request.generateTo session before path).1.outcome = .error error →
    Grown before (request.generateTo session before path).2 path.parent
  done : ∀ code, (request.generateTo session before path).1.outcome = .ok code →
    (request.generate session).1.outcome = .ok code ∧
      Written before (request.generateTo session before path).2 path code

theorem FileTransaction.of_error {request : Request} {session : Formatter.Session} {tree : FileTree}
    {path : Path} {events : List Event} {error : Error} (h : tree.Sound)
    (hresult : request.generateTo session tree path = (⟨events, .error error⟩, tree)) :
    request.FileTransaction session tree path := by
  constructor <;> rw [hresult]
  · exact h
  · exact fun _ _ => Grown.refl _ _
  · exact fun _ hdone => nomatch hdone

theorem fileTransaction_generateTo {tree : FileTree} (h : tree.Sound) (request : Request)
    (session : Formatter.Session) (path : Path) :
    request.FileTransaction session tree path := by
  cases houtcome : (request.generate session).1.outcome with
  | error error => exact .of_error h (generateTo_of_error houtcome tree path)
  | ok code =>
    cases hget : request.settings.output.get "atomic_write" with
    | error error => exact .of_error h (generateTo_of_no_options houtcome hget tree path)
    | ok output =>
      have htransaction := transaction_deliverAs h output path code
      have hresult := generateTo_of_ok houtcome hget tree path
      constructor <;> rw [hresult]
      · exact htransaction.sound h
      · intro error hfailed
        cases hdelivered : (deliverAs tree output path code).1.outcome with
        | error error => exact htransaction.failed error hdelivered
        | ok done =>
          dsimp only at hfailed
          rw [hdelivered] at hfailed
          cases hfailed
      · intro written hdone
        cases hdelivered : (deliverAs tree output path code).1.outcome with
        | error error =>
          dsimp only at hdone
          rw [hdelivered] at hdone
          cases hdone
        | ok done =>
          dsimp only at hdone
          rw [hdelivered] at hdone
          cases hdone
          exact ⟨houtcome, htransaction.done hdelivered⟩

end Request

namespace CommandLine

open Output FileTree

/-! ## Consoles -/

/-- What is relied on of a console: outputs are resolved paths, the word for the output may be left
out, and text is printed as it is unless it holds a control sequence. -/
structure Console.Lawful (console : Console) : Prop where
  resolved : ∀ {tree words task path}, tree.Sound → console.read tree words = .task task →
    task.output = some path → ".." ∉ path.steps
  optional : ∀ {tree words task path}, console.read tree words = .task task →
    task.output = some path → ∃ front word back, words = front ++ word :: back ∧
      console.read tree (front ++ back) = .task { task with output := none }
  plain : ∀ {text}, ¬ Text.HasSequence text.toList → console.echo text = text

/-! ## Runs -/

section Runs

variable (console : Console) (tree : FileTree) (script : List Formatter.Reply) (task : Task)

/-- What carrying out a task may come to: it fails before anything is written, the code is printed,
or generation to the output fails or succeeds. -/
inductive Performed : Ending → Prop
  | failed (log : String) (failure : Failure) : Performed (fail console log tree failure)
  | printed {request : Request} {code : String} (log : String)
      (hrequest : CommandLine.request tree task = .ok request) (houtput : task.output = none)
      (hcode : (request.generate { script }).1.outcome = .ok code) :
      Performed { exitCode := 0, stdout := console.echo code, stderr := log, tree }
  | undelivered {request : Request} {path : Path} {error : Error} (log : String) (failure : Failure)
      (hrequest : CommandLine.request tree task = .ok request) (houtput : task.output = some path)
      (herror : (request.generateTo { script } tree path).1.outcome = .error error) :
      Performed (fail console log (request.generateTo { script } tree path).2 failure)
  | delivered {request : Request} {path : Path} {code : String} (log : String)
      (hrequest : CommandLine.request tree task = .ok request) (houtput : task.output = some path)
      (hcode : (request.generateTo { script } tree path).1.outcome = .ok code) :
      Performed
        { exitCode := 0, stderr := log, tree := (request.generateTo { script } tree path).2 }

theorem performed : Performed console tree script task (perform console tree script task) := by
  unfold perform
  split
  · exact .failed "" _
  · rename_i request hrequest
    split
    · rename_i houtput
      dsimp only
      split
      · exact .failed _ _
      · rename_i code hcode
        exact .printed _ hrequest houtput hcode
    · rename_i path houtput
      dsimp only
      split
      · rename_i error herror
        exact .undelivered _ _ hrequest houtput herror
      · rename_i code hcode
        exact .delivered _ hrequest houtput hcode

end Runs

section Endings

variable {console : Console} {tree : FileTree} {script : List Formatter.Reply} {task : Task}

/-- Where code is generated for a task without an output, it is printed. -/
theorem perform_of_generate {request : Request} {code : String}
    (hrequest : CommandLine.request tree task = .ok request)
    (hcode : (request.generate { script }).1.outcome = .ok code) (houtput : task.output = none) :
    (perform console tree script task).exitCode = 0 ∧
      (perform console tree script task).stdout = console.echo code := by
  unfold perform
  simp only [hrequest, houtput, hcode, and_self]

/-- Where code is generated to the output of a task, the run succeeds. -/
theorem perform_of_generateTo {after : FileTree} {request : Request} {path : Path}
    {events : List Event} {code : String}
    (hrequest : CommandLine.request tree task = .ok request) (houtput : task.output = some path)
    (hcode : request.generateTo { script } tree path = (⟨events, .ok code⟩, after)) :
    perform console tree script task
      = { exitCode := 0, stderr := printed task.verbose events, tree := after } := by
  unfold perform
  simp only [hrequest, houtput, hcode]

theorem exitCode_fail (log : String) (failure : Failure) :
    (fail console log tree failure).exitCode = 1 := by
  cases failure <;> rfl

theorem tree_fail (log : String) (failure : Failure) :
    (fail console log tree failure).tree = tree := by
  cases failure <;> rfl

end Endings

/-- No regular file was created, changed or removed. -/
def SameFiles (before after : FileTree) : Prop :=
  ∀ location text, after.get? location = some (.file text) ↔
    before.get? location = some (.file text)

theorem sameFiles_of_grown {before after : FileTree} {path : Path} (h : Grown before after path) :
    SameFiles before after :=
  fun location text => (h.keptOrMade location).file_iff text

/-- Without a settings file and without the force flag, output options are the default ones. -/
theorem output_of_request {tree : FileTree} {task : Task} {request : Request}
    (h : CommandLine.request tree task = .ok request) (hconfig : task.config = none)
    (hforce : task.force = false) : request.settings.output = .options {} := by
  obtain ⟨document, -, h⟩ := bind_eq_ok.mp h
  obtain ⟨settings, hsettings, h⟩ := bind_eq_ok.mp h
  obtain ⟨rootName, -, h⟩ := bind_eq_ok.mp h
  cases h
  have htask := mapError_eq_ok.mp hsettings
  unfold taskSettings at htask
  rw [hconfig, hforce] at htask
  obtain ⟨plain, hplain, htask⟩ := bind_eq_ok.mp htask
  cases hplain
  cases hrustfmt : task.rustfmt with
  | false | true =>
    rw [hrustfmt] at htask
    cases htask
    rfl

/-- With default output options nothing that exists is changed. -/
theorem kept_of_generateTo {tree : FileTree} (h : tree.Sound) {request : Request}
    (houtput : request.settings.output = .options {}) (session : Formatter.Session) {path : Path}
    (hup : ".." ∉ path.steps) {location : Location} (hsome : tree.get? location ≠ none) :
    (request.generateTo session tree path).2.get? location = tree.get? location := by
  have hget : request.settings.output.get "atomic_write" = .ok {} := by rw [houtput]; rfl
  cases houtcome : (request.generate session).1.outcome with
  | error error => rw [Request.generateTo_of_error houtcome]
  | ok code =>
    rw [Request.generateTo_of_ok houtcome hget]
    exact kept_of_deliverNew_of_no_up h hup code (some validate) location hsome

namespace Performed

variable {console : Console} {tree : FileTree} {script : List Formatter.Reply} {task : Task}
  {ending : Ending}

theorem sound (h : Performed console tree script task ending) (hsound : tree.Sound) :
    ending.tree.Sound := by
  cases h with
  | failed log failure => rwa [tree_fail]
  | printed log hrequest houtput hcode => exact hsound
  | undelivered log failure hrequest houtput herror =>
    rw [tree_fail]
    exact (Request.fileTransaction_generateTo hsound _ _ _).sound
  | delivered log hrequest houtput hcode =>
    exact (Request.fileTransaction_generateTo hsound _ _ _).sound

theorem sameFiles (h : Performed console tree script task ending) (hsound : tree.Sound)
    (hexit : ending.exitCode ≠ 0) : SameFiles tree ending.tree := by
  cases h with
  | failed log failure =>
    rw [tree_fail]
    exact fun _ _ => Iff.rfl
  | printed log hrequest houtput hcode => exact absurd rfl hexit
  | undelivered log failure hrequest houtput herror =>
    rw [tree_fail]
    exact sameFiles_of_grown ((Request.fileTransaction_generateTo hsound _ _ _).failed _ herror)
  | delivered log hrequest houtput hcode => exact absurd rfl hexit

theorem tree_eq (h : Performed console tree script task ending) (hnone : task.output = none) :
    ending.tree = tree := by
  cases h with
  | failed log failure => exact tree_fail log failure
  | printed log hrequest houtput hcode => rfl
  | undelivered log failure hrequest houtput herror =>
    rw [hnone] at houtput
    cases houtput
  | delivered log hrequest houtput hcode =>
    rw [hnone] at houtput
    cases houtput

theorem written (h : Performed console tree script task ending) (hsound : tree.Sound) {path : Path}
    (hsome : task.output = some path) (hexit : ending.exitCode = 0) :
    ending.stdout = "" ∧ ∃ request code, CommandLine.request tree task = .ok request ∧
      (request.generate { script }).1.outcome = .ok code ∧ Written tree ending.tree path code := by
  cases h with
  | failed log failure =>
    rw [exitCode_fail] at hexit
    cases hexit
  | printed log hrequest houtput hcode =>
    rw [houtput] at hsome
    cases hsome
  | undelivered log failure hrequest houtput herror =>
    rw [exitCode_fail] at hexit
    cases hexit
  | delivered log hrequest houtput hcode =>
    rw [hsome, Option.some.injEq] at houtput
    subst houtput
    obtain ⟨hgenerate, hwritten⟩ :=
      (Request.fileTransaction_generateTo hsound _ _ _).done _ hcode
    exact ⟨rfl, _, _, hrequest, hgenerate, hwritten⟩

theorem kept (h : Performed console tree script task ending) (hsound : tree.Sound)
    (hconfig : task.config = none) (hforce : task.force = false)
    (hup : ∀ path, task.output = some path → ".." ∉ path.steps) {location : Location}
    (hsome : tree.get? location ≠ none) : ending.tree.get? location = tree.get? location := by
  cases h with
  | failed log failure => rw [tree_fail]
  | printed log hrequest houtput hcode => rfl
  | undelivered log failure hrequest houtput herror =>
    rw [tree_fail]
    exact kept_of_generateTo hsound (output_of_request hrequest hconfig hforce) _
      (hup _ houtput) hsome
  | delivered log hrequest houtput hcode =>
    exact kept_of_generateTo hsound (output_of_request hrequest hconfig hforce) _
      (hup _ houtput) hsome

end Performed

/-! ## Transactions -/

/-- A run as a transaction on the file tree, unless what it meets is left open. A run that fails
changes no file. A run that succeeds without an output changes nothing, and one with an output
prints nothing, writes its code there and changes no other file; the same words without the output
print that code, if it holds no control sequence as it is. Nothing that exists is changed without a
settings file and the force flag. -/
structure Transactional (console : Console) (before : FileTree) (script : List Formatter.Reply)
    (words : List String) (ending : Ending) : Prop where
  failed : ending.Told → ending.exitCode ≠ 0 → SameFiles before ending.tree
  printed : ending.exitCode = 0 →
    (∀ task, console.read before words = .task task → task.output = none) → ending.tree = before
  delivered : ending.exitCode = 0 → ∀ task path, console.read before words = .task task →
    task.output = some path → ending.stdout = "" ∧
      ∃ code, Written before ending.tree path code ∧
        ∃ front word back, words = front ++ word :: back ∧
          console.read before (front ++ back) = .task { task with output := none } ∧
          (run console before script (front ++ back)).exitCode = 0 ∧
          (run console before script (front ++ back)).stdout = console.echo code ∧
          (¬ Text.HasSequence code.toList →
            (run console before script (front ++ back)).stdout = code)
  kept : ending.Told → ∀ task, console.read before words = .task task → task.force = false →
    task.config = none → ∀ location, before.get? location ≠ none →
      ending.tree.get? location = before.get? location

section Transactions

variable {console : Console} {tree : FileTree} {words : List String}

theorem run_of_task {task : Task} (h : console.read tree words = .task task)
    (script : List Formatter.Reply) :
    run console tree script words = perform console tree script task := by
  rw [run, h]

/-- A run whose words amount to no task changes nothing. -/
theorem tree_run_of_ended {exitCode : Nat} {stdout stderr : String} {escaped : Option Error}
    (h : console.read tree words = .ended exitCode stdout stderr escaped)
    (script : List Formatter.Reply) : (run console tree script words).tree = tree := by
  rw [run, h]

theorem sound_run (h : tree.Sound) (script : List Formatter.Reply) :
    (run console tree script words).tree.Sound := by
  cases hread : console.read tree words with
  | ended exitCode stdout stderr escaped => rwa [tree_run_of_ended hread]
  | task task =>
    rw [run_of_task hread]
    exact (performed console tree script task).sound h

/-- Every run on a sound tree is a transaction. -/
theorem transactional_run (hlawful : console.Lawful) (h : tree.Sound)
    (script : List Formatter.Reply) :
    Transactional console tree script words (run console tree script words) := by
  cases hread : console.read tree words with
  | ended exitCode stdout stderr escaped =>
    have hsame := tree_run_of_ended hread script
    exact {
      failed := fun _ _ location text => by rw [hsame]
      printed := fun _ _ => hsame
      delivered := fun _ _ _ htask => nomatch hread.symm.trans htask
      kept := fun _ _ htask => nomatch hread.symm.trans htask }
  | task task =>
    have hperformed := performed console tree script task
    rw [← run_of_task hread] at hperformed
    constructor
    case failed => exact fun _ hexit => hperformed.sameFiles h hexit
    case printed => exact fun _ hnone => hperformed.tree_eq (hnone task hread)
    case delivered =>
      intro hexit other path hother hsome
      obtain rfl : task = other := Reading.task.inj (hread.symm.trans hother)
      obtain ⟨hstdout, request, code, hrequest, hcode, hwritten⟩ :=
        hperformed.written h hsome hexit
      -- without the word for the output, the words are read as the same task without it
      obtain ⟨front, word, back, hwords, hwithout⟩ := hlawful.optional hread hsome
      have hprint : CommandLine.request tree { task with output := none } = .ok request := hrequest
      have hprinted : (perform console tree script { task with output := none }).exitCode = 0 ∧
          (perform console tree script { task with output := none }).stdout = console.echo code :=
        perform_of_generate hprint hcode rfl
      rw [← run_of_task hwithout script] at hprinted
      exact ⟨hstdout, code, hwritten, front, word, back, hwords, hwithout, hprinted.1, hprinted.2,
        fun hplain => hprinted.2.trans (hlawful.plain hplain)⟩
    case kept =>
      intro _ other hother hforce hconfig location hsome
      obtain rfl : task = other := Reading.task.inj (hread.symm.trans hother)
      exact hperformed.kept h hconfig hforce (fun path => hlawful.resolved h hread) hsome

end Transactions

/-! ## A pipe -/

/-- Text as a pipe is given it. -/
def piped (text : String) : String := String.ofList (Text.dropSequences text.toList)

theorem piped_eq_self_iff (text : String) : piped text = text ↔ ¬ Text.HasSequence text.toList := by
  rw [← Text.dropSequences_eq_self_iff, piped, String.ext_iff, String.toList_ofList]

/-- The resolved path of a word. -/
def resolve (tree : FileTree) (word : String) : Path := ⟨true, tree.place (.ofText word)⟩

/-- A console that prints to a pipe. Its words are the name of a schema file, that of an output
behind it, and the force flag anywhere. -/
def pipe : Console where
  read tree words :=
    let force := words.contains "--force"
    match words.filter (· ≠ "--force") with
    | [schema] => .task { schema := resolve tree schema, force }
    | [schema, output] =>
      .task { schema := resolve tree schema, output := some (resolve tree output), force }
    | _ => .ended 2 "" "" none
  echo := piped
  report message := piped ("Error: " ++ message) ++ "\n"

theorem read_pipe_of_filter {words : List String} {schema : String}
    (h : words.filter (· ≠ "--force") = [schema]) (tree : FileTree) :
    pipe.read tree words
      = .task { schema := resolve tree schema, force := words.contains "--force" } := by
  simp only [pipe, h]

/-- Words with an output name it behind the schema file. -/
theorem read_pipe_eq_task {tree : FileTree} {words : List String} {task : Task} {path : Path}
    (h : pipe.read tree words = .task task) (hsome : task.output = some path) :
    ∃ schema output, words.filter (· ≠ "--force") = [schema, output] ∧
      task = {
        schema := resolve tree schema
        output := some (resolve tree output)
        force := words.contains "--force" } := by
  simp only [pipe] at h
  split at h
  · cases h
    cases hsome
  · rename_i schema output hnames
    exact ⟨schema, output, hnames, (Reading.task.inj h).symm⟩
  · cases h

theorem lawful_pipe : pipe.Lawful where
  resolved hsound hread hsome := by
    obtain ⟨schema, output, -, rfl⟩ := read_pipe_eq_task hread hsome
    cases hsome
    exact hsound.up_not_mem_place _
  optional {tree words task path} hread hsome := by
    obtain ⟨schema, output, hnames, rfl⟩ := read_pipe_eq_task hread hsome
    have hbehind : words.filter (· ≠ "--force") = [schema] ++ [output] := hnames
    obtain ⟨front, after, rfl, hfront, hafter⟩ := List.filter_eq_append_iff.mp hbehind
    obtain ⟨flags, back, rfl, hflags, houtput, hback⟩ := List.filter_eq_cons_iff.mp hafter
    have hname : output ≠ "--force" := by simpa using houtput
    refine ⟨front ++ flags, output, back, (List.append_assoc _ _ _).symm, ?_⟩
    have hrest : (front ++ flags ++ back).filter (· ≠ "--force") = [schema] := by
      rw [List.filter_append, List.filter_append, hfront, hback,
        List.filter_eq_nil_iff.mpr hflags]
      rfl
    rw [read_pipe_of_filter hrest]
    simp [hname.symm]
  plain hplain := (piped_eq_self_iff _).mpr hplain

/-- The text of a schema file with an enumerated text that starts with a control sequence. -/
def colouredText : String := "\x7b\"definitions\": \x7b\"a\": \x7b\"enum\": [\"\\u001b[mx\"]\x7d\x7d\x7d"

/-- A tree with that schema file. -/
def colouredTree : FileTree := { entries := [(["a.json"], .file colouredText)] }

theorem sound_colouredTree : colouredTree.Sound :=
  sound_empty.put (get?_nil _) (by decide) nofun

/-- The document in the schema file. -/
def colouredDocument : Json :=
  .obj [("definitions", .obj [("a", .obj [("enum", .arr [.str "\x1b[mx"])])])]

/-- The task of writing its code to a file. -/
def colouredTask : Task where
  schema := ⟨true, ["a.json"]⟩
  output := some ⟨true, ["out.rs"]⟩

/-- The program for the document. -/
def colouredProgram : Program where
  rootName := none
  declarations := [.enum {
    name := "A"
    sourceName := "a"
    variants := [{ name := "Mx", rename := some "\x1b[mx" }]
    rename := some "a" }]
  needsOneOrMany := false

/-- The lines of its declaration. -/
def colouredLines : List String :=
  ["#[derive(Clone, PartialEq, Debug, Deserialize, Serialize)]", "#[serde(rename = \"a\")]",
    "pub enum A \x7b", "    #[serde(rename = \"\x1b[mx\")]", "    Mx,", "\x7d"]

/-- The source text for it. -/
def colouredSource : String :=
  Rust.Style.sourceText [Rust.Style.announcement, Rust.Style.serdeImport, colouredLines]

theorem read_coloured :
    pipe.read colouredTree ["a.json", "out.rs"] = .task colouredTask ∧
      pipe.read colouredTree ["a.json"] = .task { colouredTask with output := none } := by
  have hschema : resolve colouredTree "a.json" = ⟨true, ["a.json"]⟩ := by decide +kernel
  have houtput : resolve colouredTree "out.rs" = ⟨true, ["out.rs"]⟩ := by decide +kernel
  constructor
  · have hnames : ["a.json", "out.rs"].filter (· ≠ "--force") = ["a.json", "out.rs"] := by decide
    simp only [pipe, hnames, hschema, houtput]
    rfl
  · have hnames : ["a.json"].filter (· ≠ "--force") = ["a.json"] := by decide
    rw [read_pipe_of_filter hnames, hschema]
    rfl

theorem request_coloured :
    request colouredTree colouredTask = .ok { document := colouredDocument } := by
  have hlines : String.ofList (Text.unifyLineEnds colouredText.toList) = colouredText := by
    decide +kernel
  have hread : Json.read colouredText = .ok colouredDocument := by cbv
  have hfile : colouredTree.fileText ⟨true, ["a.json"]⟩ = .ok colouredText := rfl
  have hjson : readJson colouredTree ⟨true, ["a.json"]⟩ = .ok (.ok colouredDocument) := by
    rw [← hread]
    exact bind_eq_ok.mpr ⟨colouredText, hfile, by rw [hlines]; rfl⟩
  have hdocument : readDocument colouredTree ⟨true, ["a.json"]⟩ = .ok colouredDocument := by
    refine bind_eq_ok.mpr ⟨.ok colouredDocument, ?_, rfl⟩
    rw [hjson]
    rfl
  exact bind_eq_ok.mpr ⟨_, hdocument, bind_eq_ok.mpr ⟨{}, rfl, bind_eq_ok.mpr ⟨none, rfl, rfl⟩⟩⟩

theorem lines_coloured : colouredProgram.declarations.mapM ({} : Settings).style.declarationLines
    = .ok [colouredLines] := by
  cbv

theorem generate_coloured :
    (Request.generate { document := colouredDocument } {}).1.outcome = .ok colouredSource := by
  have hanalyze : (Request.analyze { document := colouredDocument }).outcome
      = .ok colouredProgram := by cbv
  have hget : ({} : Settings).formatter.get "enabled" = .ok {} := rfl
  rw [Request.outcome_generate hget rfl]
  exact Request.write_eq_ok.mpr ⟨_, _, hanalyze, lines_coloured, rfl⟩

theorem validate_coloured : validate colouredSource = .ok () := by
  refine Rust.validate_sourceText Rust.plain_style (List.cons_ne_nil _ _) ?_ ?_ lines_coloured false
  · decide
  · intro declaration hdeclaration written hwritten lines hlines
    rw [List.mem_singleton.mp hdeclaration] at hwritten
    rw [List.mem_singleton.mp hwritten] at hlines
    cases hlines
    exact .nil

/-- The tree with the output. -/
def deliveredTree : FileTree where
  entries := [(["a.json"], .file colouredText), (["out.rs"], .file colouredSource)]

theorem deliverAs_coloured : deliverAs colouredTree {} ⟨true, ["out.rs"]⟩ colouredSource
    = (.report (.wrote "/out.rs"), deliveredTree) := by
  have hfree : requireFree colouredTree ⟨true, ["out.rs"]⟩ = .ok () := rfl
  have hmade : colouredTree.makeDirectories (Path.parent ⟨true, ["out.rs"]⟩)
      = (.ok [], colouredTree) := rfl
  have hlocate : colouredTree.locate (temporaryPath colouredTree [] (Path.name ⟨true, ["out.rs"]⟩))
      = .ok [".out.rs.00000000.tmp"] := rfl
  have hcheck : runCheck (some validate) colouredSource = .ok () := by
    rw [runCheck, validate_coloured]
    rfl
  rw [deliverAs_default, deliverNew_of_free hfree]
  exact deliver_of_moved hmade hlocate hcheck rfl

theorem run_delivered : run pipe colouredTree [] ["a.json", "out.rs"]
    = { exitCode := 0, tree := deliveredTree } := by
  have hgenerated := Request.generateTo_of_ok generate_coloured rfl colouredTree ⟨true, ["out.rs"]⟩
  rw [deliverAs_coloured] at hgenerated
  rw [run_of_task read_coloured.1, perform_of_generateTo request_coloured rfl hgenerated]
  rfl

theorem run_printed : (run pipe colouredTree [] ["a.json"]).exitCode = 0 ∧
    (run pipe colouredTree [] ["a.json"]).stdout = piped colouredSource := by
  have hrequest : request colouredTree { colouredTask with output := none }
      = .ok { document := colouredDocument } := request_coloured
  rw [run_of_task read_coloured.2]
  exact perform_of_generate hrequest generate_coloured rfl

theorem hasSequence_coloured : Text.HasSequence colouredSource.toList := by
  have hsome : [Rust.Style.announcement, Rust.Style.serdeImport, colouredLines] ≠ [] :=
    List.cons_ne_nil _ _
  have hsequence : Text.contains "\x1b[m".toList colouredSource.toList = true := by
    rw [colouredSource, Rust.toList_sourceText hsome (by decide)]
    decide +kernel
  obtain ⟨front, back, htext⟩ := (contains_eq_true_iff _ _).mp hsequence
  rw [← htext, List.append_assoc]
  exact ⟨front, 'm' :: back, back, rfl, rfl⟩

/-! ## Runs one after another -/

/-- The trees that runs lead to, one run after another, each with words and a script of its own. -/
inductive Reached (console : Console) (start : FileTree) : FileTree → Prop
  | start : Reached console start start
  | run {tree : FileTree} (h : Reached console start tree) (script : List Formatter.Reply)
      (words : List String) (htold : (run console tree script words).Told) :
      Reached console start (run console tree script words).tree

theorem Reached.sound {console : Console} {start tree : FileTree}
    (h : Reached console start tree) (hstart : start.Sound) : tree.Sound := by
  induction h with
  | start => exact hstart
  | run _ script words _ ih => exact sound_run ih script

/-- However many runs there were on a sound tree, the next one is a transaction. -/
theorem transactional_of_reached {console : Console} (hlawful : console.Lawful)
    {start tree : FileTree} (hstart : start.Sound) (h : Reached console start tree)
    (script : List Formatter.Reply) (words : List String) :
    Transactional console tree script words (run console tree script words) :=
  transactional_run hlawful (h.sound hstart) script

theorem transactional_colouredTree : pipe.Lawful ∧ colouredTree.Sound ∧
    Reached pipe colouredTree deliveredTree ∧
    Transactional pipe deliveredTree [] ["--force", "a.json", "out.rs"]
      (run pipe deliveredTree [] ["--force", "a.json", "out.rs"]) := by
  have hreached : Reached pipe colouredTree deliveredTree := by
    have htold : (run pipe colouredTree [] ["a.json", "out.rs"]).Told := by
      rw [run_delivered]
      exact nofun
    have hrun := Reached.start.run [] ["a.json", "out.rs"] htold
    rwa [run_delivered] at hrun
  exact ⟨lawful_pipe, sound_colouredTree, hreached,
    transactional_of_reached lawful_pipe sound_colouredTree hreached _ _⟩

/-- A control sequence in a serialized name is written to the output, but it is not printed. -/
theorem not_printed_coloured :
    pipe.Lawful ∧ colouredTree.Sound ∧
      (run pipe colouredTree [] ["a.json", "out.rs"]).exitCode = 0 ∧
      (run pipe colouredTree [] ["a.json", "out.rs"]).tree.find? ⟨true, ["out.rs"]⟩
        = some (.file colouredSource) ∧
      (run pipe colouredTree [] ["a.json"]).exitCode = 0 ∧
      (run pipe colouredTree [] ["a.json"]).stdout ≠ colouredSource := by
  have hchanged : piped colouredSource ≠ colouredSource := by
    rw [Ne, piped_eq_self_iff, not_not]
    exact hasSequence_coloured
  rw [run_delivered, run_printed.2]
  exact ⟨lawful_pipe, sound_colouredTree, rfl, rfl, run_printed.1, hchanged⟩

end CommandLine

end SchemaForge
