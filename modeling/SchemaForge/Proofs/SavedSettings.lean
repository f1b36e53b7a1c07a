import SchemaForge.Proofs.SettingKeys

/-! # Saved settings

What settings are given back as is read as the same settings, and given back once more it is the same
value, whatever the options hold. Settings that cannot be given back have had the place of the writer
taken by a value.
-/

namespace SchemaForge

theorem FormatterSettings.exists_read_toJson (settings : FormatterSettings) :
    ∃ members, settings.toJson = .obj members ∧ read members = .ok settings :=
  ⟨_, rfl, rfl⟩

theorem OutputSettings.toJson_eq_ok {settings : OutputSettings} {written : Json}
    (h : settings.toJson = .ok written) : ∃ mode, settings.mode = .mode mode := by
  unfold toJson at h
  split at h
  · exact ⟨_, by assumption⟩
  · cases h

theorem OutputSettings.exists_read_toJson {settings : OutputSettings} {mode : OutputMode}
    (h : settings.mode = .mode mode) :
    ∃ members, settings.toJson = .ok (.obj members) ∧ read members = .ok settings := by
  obtain ⟨_, validateBeforeWrite, atomicWrite⟩ := settings
  dsimp only at h
  subst h
  refine ⟨_, rfl, bind_eq_ok.mpr ⟨.mode mode, ?_, rfl⟩⟩
  rw [readMode, OutputMode.ofName?_name]

namespace Settings

/-! ## Giving settings back -/

/-- The members that settings are given back as: the options that are no groups, then the groups. -/
def savedMembers (settings : Settings) (traits : List Json) (formatter output : Json) :
    Entries Json :=
  [("add_generation_comment", settings.addGenerationComment),
    ("add_serde_imports", settings.addSerdeImports),
    ("derives", .arr traits),
    ("map_type", settings.mapType),
    ("line_length", settings.lineLength),
    ("break_reference_cycles", settings.breakReferenceCycles)]
    ++ [("formatter", formatter), ("output", output)]

theorem toJson_eq_ok_iff {settings : Settings} {saved : Json} :
    settings.toJson = .ok saved ↔ settings.writable = true ∧
      ∃ traits formatter output written, settings.traits = .ok traits ∧
        settings.formatter.get "enabled" = .ok formatter ∧
        settings.output.get "mode" = .ok output ∧ output.toJson = .ok written ∧
        saved = .obj (settings.savedMembers traits formatter.toJson written) := by
  unfold toJson
  cases settings.writable with
  | false => simp [throw, throwThe, MonadExceptOf.throw, bind, Except.bind]
  | true =>
    simp only [Bool.not_true, Bool.false_eq_true, if_false, bind_eq_ok, true_and]
    constructor
    · rintro ⟨traits, htraits, formatter, hformatter, output, houtput, written, hwritten, h⟩
      cases h
      exact ⟨traits, formatter, output, written, htraits, hformatter, houtput, hwritten, rfl⟩
    · rintro ⟨traits, formatter, output, written, htraits, hformatter, houtput, hwritten, rfl⟩
      exact ⟨traits, htraits, formatter, hformatter, output, houtput, written, hwritten, rfl⟩

/-- Settings of the form that is given back: a list of traits, and options in both groups, with one
of the modes. -/
structure Regular (settings : Settings) : Prop where
  derives : ∃ traits, settings.derives = some (.arr traits)
  formatter : ∃ group, settings.formatter = .options group
  output : ∃ group, settings.output = .options group ∧ ∃ mode, group.mode = .mode mode

theorem Regular.exists_toJson {settings : Settings} (h : settings.Regular)
    (hwritable : settings.writable = true) : ∃ saved, settings.toJson = .ok saved := by
  obtain ⟨⟨traits, hderives⟩, ⟨formatter, hformatter⟩, output, houtput, mode, hmode⟩ := h
  obtain ⟨members, hwritten, -⟩ := OutputSettings.exists_read_toJson hmode
  refine ⟨_, toJson_eq_ok_iff.mpr ⟨hwritable, traits, formatter, output, _, ?_, ?_, ?_, hwritten, rfl⟩⟩
  · rw [Settings.traits, hderives]
    rfl
  · rw [hformatter]
    rfl
  · rw [houtput]
    rfl

/-! ## Reading settings back -/

theorem set_savedFormatter (settings : Settings) (group : FormatterSettings) :
    settings.set "formatter" group.toJson
      = .ok { settings with formatter := .options group } := by
  obtain ⟨members, hmembers, hread⟩ := group.exists_read_toJson
  rw [hmembers, set_formatter, hread]
  rfl

theorem set_savedOutput (settings : Settings) {group : OutputSettings} {written : Json}
    (h : group.toJson = .ok written) :
    settings.set "output" written = .ok { settings with output := .options group } := by
  obtain ⟨mode, hmode⟩ := OutputSettings.toJson_eq_ok h
  obtain ⟨members, hmembers, hread⟩ := OutputSettings.exists_read_toJson hmode
  cases h.symm.trans hmembers
  rw [set_output, hread]
  rfl

/-- What settings are given back as sets each option to what it was, and the traits to their list. -/
theorem read_of_toJson {settings : Settings} {saved : Json} (h : settings.toJson = .ok saved) :
    ∃ traits, settings.traits = .ok traits ∧
      read saved = .ok { settings with derives := some (.arr traits) } := by
  obtain ⟨hwritable, traits, formatter, output, written, htraits, hformatter, houtput, hwritten, rfl⟩
    := toJson_eq_ok_iff.mp h
  refine ⟨traits, htraits, ?_⟩
  let plain : Settings :=
    { settings with
      derives := some (.arr traits), formatter := .options {}, output := .options {}, writable := true }
  calc read (.obj (settings.savedMembers traits formatter.toJson written))
      = plain.setAll [("formatter", formatter.toJson), ("output", written)] := rfl
    _ = setAll { plain with formatter := .options formatter } [("output", written)] :=
        setAll_cons_of_set (set_savedFormatter plain formatter) _
    _ = .ok { plain with formatter := .options formatter, output := .options output } :=
        setAll_cons_of_set (set_savedOutput _ hwritten) []
    _ = .ok { settings with derives := some (.arr traits) } := by
        rw [← OptionGroup.get_eq_ok hformatter, ← OptionGroup.get_eq_ok houtput, hwritable]

/-- Listing the traits before settings are given back makes no difference. -/
theorem toJson_listed {settings : Settings} {traits : List Json} (h : settings.traits = .ok traits) :
    toJson { settings with derives := some (.arr traits) } = settings.toJson := by
  unfold toJson
  rw [h]
  rfl

theorem saved_again {settings : Settings} {saved : Json} (h : settings.toJson = .ok saved) :
    (read saved).bind toJson = .ok saved := by
  obtain ⟨traits, htraits, hread⟩ := read_of_toJson h
  rw [hread]
  exact (toJson_listed htraits).trans h

theorem Regular.read_again {settings : Settings} (h : settings.Regular)
    (hwritable : settings.writable = true) : settings.toJson.bind read = .ok settings := by
  obtain ⟨saved, hsaved⟩ := h.exists_toJson hwritable
  obtain ⟨traits, htraits, hread⟩ := read_of_toJson hsaved
  obtain ⟨listed, hlisted⟩ := h.derives
  rw [Settings.traits, hlisted] at htraits
  cases htraits
  rw [hsaved]
  change read saved = _
  rw [hread, ← hlisted]

/-! ## The place of the writer -/

/-- A value is set in the place of the writer, on its own or in a table of all options. -/
def TakesWriter (key : String) (value : Json) : Prop :=
  key = "to_dict" ∨ ∃ table, key = "__dict__" ∧ value = .obj table ∧ "to_dict" ∈ Entries.keys table

theorem writable_assign (settings : Settings) {key : String} (hkey : key ≠ "to_dict") (value : Json) :
    (settings.assign key value).writable = settings.writable := by
  simp only [assign, if_neg hkey, apply_ite writable, ite_self]

theorem writable_ofTable {table : Entries Json} (h : "to_dict" ∉ table.keys) :
    (ofTable table).writable = true := by
  refine invariant_ofTable (P := fun settings => settings.writable = true) ?_ rfl
  intro member hmem passed hpassed
  have hkey : member.1 ≠ "to_dict" := fun heq => h (List.mem_map.mpr ⟨member, hmem, heq⟩)
  rw [writable_assign passed hkey, hpassed]

theorem writable_of_set {settings after : Settings} {key : String} {value : Json}
    (h : settings.set key value = .ok after) (hwriter : ¬ TakesWriter key value)
    (hwritable : settings.writable = true) : after.writable = true := by
  cases becomes_of_set h with
  | formatter => exact hwritable
  | output => exact hwritable
  | replaced table =>
    exact writable_ofTable fun hmem => hwriter (.inr ⟨table, rfl, rfl, hmem⟩)
  | passed => exact hwritable
  | assigned => rw [writable_assign settings (fun hkey => hwriter (.inl hkey)), hwritable]

theorem exists_takesWriter {config : Json} {settings : Settings} (hread : read config = .ok settings)
    (hwritable : settings.writable = false) :
    ∃ members, config = .obj members ∧ ∃ member ∈ members, TakesWriter member.1 member.2 := by
  unfold read at hread
  split at hread
  · rename_i members
    refine ⟨members, rfl, ?_⟩
    by_contra hnone
    have hkept : settings.writable = true :=
      invariant_of_setAll (P := fun settings => settings.writable = true) hread
        (fun member hmem _ _ hset =>
          writable_of_set hset fun htakes => hnone ⟨member, hmem, htakes⟩) rfl
    rw [hkept] at hwritable
    cases hwritable
  · cases hread

/-- Saving what was read from a saved value gives that value again, whatever the settings were read
from. Regular settings are read again from what they are saved as just when they can be saved, which
fails only for those that were read with a value in the place of the writer. -/
theorem saved_and_read_again (config : Json) (settings : Settings) :
    (∀ saved, (read config).bind toJson = .ok saved → (read saved).bind toJson = .ok saved) ∧
    (settings.Regular → (settings.toJson.bind read = .ok settings ↔ settings.writable = true)) ∧
    (read config = .ok settings → settings.writable = false →
      ∃ members, config = .obj members ∧ ∃ member ∈ members, TakesWriter member.1 member.2) := by
  refine ⟨fun saved h => ?_, fun hregular => ⟨fun h => ?_, hregular.read_again⟩, exists_takesWriter⟩
  · obtain ⟨loaded, -, hsaved⟩ := bind_eq_ok.mp h
    exact saved_again hsaved
  · obtain ⟨saved, hsaved, -⟩ := bind_eq_ok.mp h
    exact (toJson_eq_ok_iff.mp hsaved).1

/-- Settings that derive one trait for each letter and overwrite outputs. -/
def letters : Settings where
  derives := some (.str "ab")
  output := .options { mode := .mode .force }

/-- What these settings are saved as lists the letters. -/
def savedLetters : Json :=
  .obj (letters.savedMembers [.str "a", .str "b"] (FormatterSettings.toJson {})
    (.obj [("mode", .str "force"), ("validate_before_write", .bool true),
      ("atomic_write", .bool true)]))

theorem saved_again_letters :
    (read (.obj [("derives", .str "ab"), ("output", .obj [("mode", .str "force")])])).bind toJson
        = .ok savedLetters ∧
      (read savedLetters).bind toJson = .ok savedLetters := by
  have hsaved : (read (.obj [("derives", .str "ab"),
      ("output", .obj [("mode", .str "force")])])).bind toJson = .ok savedLetters := rfl
  exact ⟨hsaved, (saved_and_read_again _ letters).1 _ hsaved⟩

/-- Settings with all options as they are by default, read with a value in the place of the writer. -/
def writerTaken : Settings := { writable := false }

/-- They are regular and cannot be saved. -/
theorem not_read_again_writerTaken :
    read (.obj [("to_dict", .int 1)]) = .ok writerTaken ∧ writerTaken.Regular ∧
      writerTaken.toJson = .error .unsuitableValue ∧
      writerTaken.toJson.bind read ≠ .ok writerTaken :=
  ⟨rfl, ⟨⟨_, rfl⟩, ⟨_, rfl⟩, _, rfl, _, rfl⟩, rfl, nofun⟩

end Settings

end SchemaForge
