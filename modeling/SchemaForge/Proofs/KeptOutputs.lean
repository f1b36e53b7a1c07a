import SchemaForge.CommandLine
import SchemaForge.Proofs.AcceptedSource
import SchemaForge.Proofs.AtomicDelivery
import SchemaForge.Proofs.SettingKeys

/-! # Kept outputs

Which output modes settings can result in, and what becomes of an output that exists: it is kept
where the mode says so or where there are no output options, and it is overwritten where the mode is
no mode at all.
-/

namespace SchemaForge

open Output FileTree

namespace OutputSettings

/-- The mode of output options is one of the two, or else the value that is written for it, which
is no text. -/
theorem mode_of_read {members : Entries Json} {output : OutputSettings}
    (h : OutputSettings.read members = .ok output) :
    (∃ mode, output.mode = .mode mode) ∨ ∃ value, members.get? "mode" = some value ∧
      (∀ text, value ≠ .str text) ∧ output.mode = .other value := by
  unfold OutputSettings.read at h
  dsimp only at h
  split at h
  · rename_i value hvalue
    obtain ⟨mode, hmode, h⟩ := bind_eq_ok.mp h
    cases h
    unfold readMode at hmode
    split at hmode
    · split at hmode
      · cases hmode
        exact Or.inl ⟨_, rfl⟩
      · cases hmode
    · rename_i htext
      cases hmode
      exact Or.inr ⟨value, hvalue, htext, rfl⟩
  · cases h
    exact Or.inl ⟨_, rfl⟩

end OutputSettings

namespace Settings

/-- The output mode of settings that have output options. -/
def mode? (settings : Settings) : Option ModeSetting :=
  match settings.output with
  | .options output => some output.mode
  | .unusable _ | .missing => none

theorem mode?_of_get {settings : Settings} {output : OutputSettings}
    (h : settings.output.get "atomic_write" = .ok output) : settings.mode? = some output.mode := by
  rw [mode?, OptionGroup.get_eq_ok h]

theorem exists_output_of_mode? {settings : Settings} {mode : ModeSetting}
    (h : settings.mode? = some mode) :
    ∃ output, settings.output = .options output ∧ output.mode = mode := by
  unfold mode? at h
  split at h
  · rename_i output hgroup
    exact ⟨output, hgroup, Option.some.inj h⟩
  · cases h
  · cases h

/-- Nothing but the group of output options sets the mode. -/
theorem mode?_assign (settings : Settings) (key : String) (value : Json) :
    (settings.assign key value).mode? = settings.mode? ∨
      (settings.assign key value).mode? = none := by
  by_cases hkey : key = "output"
  · subst hkey
    exact Or.inr rfl
  · refine Or.inl ?_
    simp only [assign, if_neg hkey, apply_ite mode?]
    simp only [mode?, ite_self]

theorem mode?_ofTable (table : Entries Json) : (ofTable table).mode? = none := by
  refine invariant_ofTable (P := fun settings => settings.mode? = none) ?_ rfl
  intro member _ passed hpassed
  rcases mode?_assign passed member.1 member.2 with hkept | hnone
  · rw [hkept, hpassed]
  · exact hnone

theorem mode?_of_set {settings after : Settings} {key : String} {value : Json}
    (h : settings.set key value = .ok after) :
    after.mode? = settings.mode? ∨ after.mode? = none ∨
      ∃ members output, key = "output" ∧ value = .obj members ∧
        OutputSettings.read members = .ok output ∧ after.mode? = some output.mode := by
  cases becomes_of_set h with
  | formatter => exact Or.inl rfl
  | output hread => exact Or.inr (Or.inr ⟨_, _, rfl, rfl, hread, rfl⟩)
  | replaced table => exact Or.inr (Or.inl (mode?_ofTable table))
  | passed => exact Or.inl rfl
  | assigned =>
    rcases mode?_assign settings key value with hkept | hnone
    · exact Or.inl hkept
    · exact Or.inr (Or.inl hnone)

/-- A mode that is none comes from a group of output options that sets it to no text. -/
theorem exists_group_of_read {config : Json} {settings : Settings}
    (h : Settings.read config = .ok settings) {value : Json}
    (hmode : settings.mode? = some (.other value)) :
    ∃ members group, config = .obj members ∧ ("output", .obj group) ∈ members ∧
      Entries.get? group "mode" = some value ∧ ∀ text, value ≠ .str text := by
  unfold Settings.read at h
  split at h
  · rename_i members
    by_contra hnone
    refine invariant_of_setAll (P := fun settings => settings.mode? ≠ some (.other value)) h ?_ nofun
      hmode
    rintro ⟨key, held⟩ hmem passed next hset hpassed
    rcases mode?_of_set hset with hkept | hno | ⟨group, output, hkey, hheld, hread, hoption⟩
    · rwa [hkept]
    · rw [hno]
      nofun
    · dsimp only at hkey hheld
      subst hkey hheld
      rw [hoption, ne_eq, Option.some.injEq]
      intro hother
      rcases OutputSettings.mode_of_read hread with ⟨mode, hone⟩ | ⟨other, hget, htext, hsame⟩
      · rw [hone] at hother
        cases hother
      · rw [hsame, ModeSetting.other.injEq] at hother
        subst hother
        exact hnone ⟨members, group, rfl, hmem, hget, htext⟩
  · cases h

end Settings

namespace Request

/-- Generation to a file that fails and leaves the tree as it was. Code that could be generated and
written otherwise is refused because the output exists. -/
structure Refused (request : Request) (session : Formatter.Session) (tree : FileTree) (path : Path) :
    Prop where
  fails : ∃ error, (request.generateTo session tree path).1.outcome = .error error
  kept : (request.generateTo session tree path).2 = tree
  exists_told : ∀ code output, (request.generate session).1.outcome = .ok code →
    request.settings.output.get "atomic_write" = .ok output →
      (request.generateTo session tree path).1.outcome = .error (.outputExists path.text)

/-- Where an existing output is an error, it is one for both ways of writing. -/
theorem deliverAs_of_find? {tree : FileTree} {path : Path} {entry : Entry}
    (hthere : tree.find? path = some entry) {output : OutputSettings}
    (hkeeps : output.mode = .mode .errorIfExists) (code : String) :
    deliverAs tree output path code = (.quietly (.error (.outputExists path.text)), tree) := by
  have hkeep : keepsExisting output = true := by rw [keepsExisting, hkeeps]
  have hrequire := requireFree_of_find? hthere
  unfold deliverAs
  rw [hkeep]
  split
  · simp only [if_true, deliverNew, hrequire]
  · simp only [if_true, hrequire]

theorem refused_of_find? {request : Request} {tree : FileTree} {path : Path} {entry : Entry}
    (hthere : tree.find? path = some entry)
    (hmode : ∀ mode, request.settings.mode? = some mode → mode = .mode .errorIfExists)
    (session : Formatter.Session) : request.Refused session tree path := by
  cases houtcome : (request.generate session).1.outcome with
  | error error =>
    have hresult := generateTo_of_error houtcome tree path
    refine ⟨⟨error, by rw [hresult]⟩, by rw [hresult], fun _ _ hcode => ?_⟩
    rw [houtcome] at hcode
    cases hcode
  | ok code =>
    cases hget : request.settings.output.get "atomic_write" with
    | error error =>
      have hresult := generateTo_of_no_options houtcome hget tree path
      refine ⟨⟨error, by rw [hresult]⟩, by rw [hresult], fun _ _ _ houtput => ?_⟩
      rw [hget] at houtput
      cases houtput
    | ok output =>
      have hkeeps : output.mode = .mode .errorIfExists :=
        hmode output.mode (Settings.mode?_of_get hget)
      have hresult := generateTo_of_ok houtcome hget tree path
      rw [deliverAs_of_find? hthere hkeeps] at hresult
      exact ⟨⟨.outputExists path.text, by rw [hresult]; rfl⟩, by rw [hresult],
        fun _ _ _ _ => by rw [hresult]; rfl⟩

/-- The output options have no part in generation. -/
theorem generate_forceOutput {settings forced : Settings}
    (h : CommandLine.forceOutput settings = .ok forced) (document : Json)
    (rootName : Option String) (session : Formatter.Session) :
    generate ⟨document, rootName, forced⟩ session = generate ⟨document, rootName, settings⟩ session := by
  obtain ⟨output, -, h⟩ := bind_eq_ok.mp h
  cases h
  rfl

/-- A mode that is none overwrites like the mode that says so. -/
theorem deliverAs_of_other {output : OutputSettings} {value : Json}
    (hother : output.mode = .other value) (tree : FileTree) (path : Path) (code : String) :
    deliverAs tree output path code
      = deliverAs tree { output with mode := .mode .force } path code := by
  unfold deliverAs keepsExisting
  rw [hother]

theorem generateTo_of_other {settings : Settings} {value : Json}
    (hother : settings.mode? = some (.other value)) :
    ∃ forced, CommandLine.forceOutput settings = .ok forced ∧
      ∀ document rootName session tree path,
        generateTo ⟨document, rootName, settings⟩ session tree path
          = generateTo ⟨document, rootName, forced⟩ session tree path := by
  obtain ⟨output, hgroup, hmode⟩ := Settings.exists_output_of_mode? hother
  have hget : ∀ wanted, settings.output.get wanted = .ok output := fun wanted => by
    rw [hgroup]
    rfl
  have hforced : CommandLine.forceOutput settings
      = .ok { settings with output := .options { output with mode := .mode .force } } :=
    bind_eq_ok.mpr ⟨output, hget "mode", rfl⟩
  refine ⟨_, hforced, fun document rootName session tree path => ?_⟩
  have hsame := generate_forceOutput hforced document rootName session
  cases houtcome : (generate ⟨document, rootName, settings⟩ session).1.outcome with
  | error error =>
    rw [generateTo_of_error houtcome, generateTo_of_error (hsame ▸ houtcome), hsame]
  | ok code =>
    rw [generateTo_of_ok houtcome (hget _), generateTo_of_ok (hsame ▸ houtcome) rfl, hsame,
      deliverAs_of_other hmode]

/-- An existing output stays as it is unless settings ask for it to be overwritten: whatever a
document is generated from, with settings read from whatever value, generation to a path that leads
to something fails and changes nothing. The exception is a mode that is no text. -/
theorem refused_of_read {config : Json} {settings : Settings}
    (hread : Settings.read config = .ok settings) (hmode : settings.mode? ≠ some (.mode .force))
    (document : Json) (rootName : Option String) (session : Formatter.Session) {tree : FileTree}
    {path : Path} {entry : Entry} (hthere : tree.find? path = some entry) :
    ((∀ value, settings.mode? ≠ some (.other value)) →
      Refused ⟨document, rootName, settings⟩ session tree path) ∧
    ∀ value, settings.mode? = some (.other value) →
      (∃ members group, config = .obj members ∧ ("output", .obj group) ∈ members ∧
        Entries.get? group "mode" = some value ∧ ∀ text, value ≠ .str text) ∧
      ∃ forced, CommandLine.forceOutput settings = .ok forced ∧
        generateTo ⟨document, rootName, settings⟩ session tree path
          = generateTo ⟨document, rootName, forced⟩ session tree path := by
  constructor
  · intro hmodes
    refine refused_of_find? hthere (fun mode hsome => ?_) session
    cases mode with
    | mode mode =>
      cases mode with
      | errorIfExists => rfl
      | force => exact absurd hsome hmode
    | other value => exact absurd hsome (hmodes value)
  · intro value hother
    obtain ⟨forced, hforced, hsame⟩ := generateTo_of_other hother
    exact ⟨Settings.exists_group_of_read hread hother, forced, hforced,
      hsame document rootName session tree path⟩

/-- A document with one definition, of a text. -/
def oneText : Json :=
  .obj [("definitions", .obj [("a", .obj [("type", .str "string")])])]

/-- Settings that write in place and keep what exists. -/
def inPlace : Settings where
  output := .options { atomicWrite := .bool false }

theorem refused_inPlace :
    Settings.read (.obj [("output", .obj [("atomic_write", .bool false)])]) = .ok inPlace ∧
      inPlace.mode? ≠ some (.mode .force) ∧
      oneFile.find? ⟨false, ["b"]⟩ = some (.file "old") ∧
      Refused ⟨oneText, none, inPlace⟩ {} oneFile ⟨false, ["b"]⟩ := by
  have hread : Settings.read (.obj [("output", .obj [("atomic_write", .bool false)])])
      = .ok inPlace := rfl
  have hthere : oneFile.find? ⟨false, ["b"]⟩ = some (.file "old") := rfl
  exact ⟨hread, nofun, hthere, (refused_of_read hread nofun oneText none {} hthere).1 nofun⟩

/-- Settings whose mode is null. -/
def noMode : Settings where
  output := .options { mode := .other .null }

/-- The program for one text. -/
def oneTextProgram : Program where
  rootName := none
  declarations := [.typeAlias { name := "A", sourceName := "a", target := .primitive "String" }]
  needsOneOrMany := false

/-- The source text for one text. -/
def oneTextSource : String :=
  Rust.Style.sourceText
    [Rust.Style.announcement, Rust.Style.serdeImport, ["pub type A = String;"]]

theorem generate_oneText : (generate ⟨oneText, none, noMode⟩ {}).1.outcome = .ok oneTextSource := by
  have hanalyze : (analyze ⟨oneText, none, noMode⟩).outcome = .ok oneTextProgram := by cbv
  have hblocks : oneTextProgram.declarations.mapM noMode.style.declarationLines
      = .ok [["pub type A = String;"]] := by cbv
  have hget : noMode.formatter.get "enabled" = .ok {} := rfl
  rw [outcome_generate hget rfl]
  exact write_eq_ok.mpr ⟨_, _, hanalyze, hblocks, rfl⟩

theorem validate_oneTextSource : validate oneTextSource = .ok () := by
  have hblocks : oneTextProgram.declarations.mapM ({} : Settings).style.declarationLines
      = .ok [["pub type A = String;"]] := by cbv
  refine Rust.validate_sourceText Rust.plain_style (List.cons_ne_nil _ _) ?_ ?_ hblocks false
  · decide
  · intro declaration hdeclaration written hwritten lines hlines
    rw [List.mem_singleton.mp hdeclaration] at hwritten
    rw [List.mem_singleton.mp hwritten] at hlines
    cases hlines
    exact .nil

/-- A mode that is no text overwrites an existing output, although it is not the mode that asks for
it. -/
theorem not_refused_noMode :
    Settings.read (.obj [("output", .obj [("mode", .null)])]) = .ok noMode ∧
      noMode.mode? ≠ some (.mode .force) ∧
      oneFile.find? ⟨false, ["b"]⟩ = some (.file "old") ∧
      (generateTo ⟨oneText, none, noMode⟩ {} oneFile ⟨false, ["b"]⟩).1.outcome
        = .ok oneTextSource ∧
      (generateTo ⟨oneText, none, noMode⟩ {} oneFile ⟨false, ["b"]⟩).2.find? ⟨false, ["b"]⟩
        = some (.file oneTextSource) := by
  have hread : Settings.read (.obj [("output", .obj [("mode", .null)])]) = .ok noMode := rfl
  have hmode : noMode.mode? ≠ some (.mode .force) := by rintro ⟨⟩
  have hthere : oneFile.find? ⟨false, ["b"]⟩ = some (.file "old") := rfl
  have hcheck : runCheck (some validate) oneTextSource = .ok () := by
    rw [runCheck, validate_oneTextSource]
    rfl
  have hmade : oneFile.makeDirectories (Path.parent ⟨false, ["b"]⟩) = (.ok [], oneFile) :=
    rfl
  have hlocate : oneFile.locate (temporaryPath oneFile [] (Path.name ⟨false, ["b"]⟩))
      = .ok [".b.00000000.tmp"] := rfl
  have hdeliver : deliver oneFile ⟨false, ["b"]⟩ oneTextSource (some validate)
      = (.report (.wrote "b"), { entries := [(["b"], .file oneTextSource)] }) :=
    deliver_of_moved hmade hlocate hcheck rfl
  have hresult := generateTo_of_ok generate_oneText rfl oneFile ⟨false, ["b"]⟩
  have hdelivered : deliverAs oneFile { mode := .other .null } ⟨false, ["b"]⟩ oneTextSource
      = deliver oneFile ⟨false, ["b"]⟩ oneTextSource (some validate) := rfl
  rw [hdelivered, hdeliver] at hresult
  refine ⟨hread, hmode, hthere, ?_, ?_⟩
  · rw [hresult]
    rfl
  · rw [hresult]
    rfl

end Request

end SchemaForge
