import SchemaForge.Proofs.SettingKeys

/-! # Keys that name no option

A key that names no option is passed over among the options and in the group of the output: settings
have the same options without it. The group of the formatter refuses it whatever else is set, and
among the options a key of the settings themselves is not passed over either.
-/

namespace SchemaForge

/-! ## In the group of the formatter -/

namespace FormatterSettings

/-- The options of the formatter. -/
def optionNames : List String := ["enabled", "command", "edition", "timeout"]

theorem exists_set_of_mem (settings : FormatterSettings) {key : String} (hkey : key ∈ optionNames)
    (value : Json) : ∃ after, settings.set key value = .ok after := by
  simp only [optionNames, List.mem_cons, List.not_mem_nil, or_false] at hkey
  rcases hkey with rfl | rfl | rfl | rfl <;> exact ⟨_, rfl⟩

theorem set_of_notMem (settings : FormatterSettings) {key : String} (hkey : key ∉ optionNames)
    (value : Json) : settings.set key value = .error .unsuitableValue := by
  simp only [optionNames, List.mem_cons, List.not_mem_nil, or_false, not_or] at hkey
  obtain ⟨henabled, hcommand, hedition, htimeout⟩ := hkey
  rw [set, if_neg henabled, if_neg hcommand, if_neg hedition, if_neg htimeout]

/-- One key that names no option is enough for the group to be refused. -/
theorem read_of_notMem {key : String} (hkey : key ∉ optionNames) (value : Json)
    (front back : Entries Json) :
    read (front ++ (key, value) :: back) = .error .unsuitableValue := by
  have hfold : ∀ settings : FormatterSettings,
      (front ++ (key, value) :: back).foldlM
        (fun settings member => settings.set member.1 member.2) settings
          = .error .unsuitableValue := by
    induction front with
    | nil =>
      intro settings
      rw [List.nil_append, List.foldlM_cons, set_of_notMem settings hkey]
      rfl
    | cons member rest ih =>
      intro settings
      rw [List.cons_append, List.foldlM_cons]
      by_cases hmember : member.1 ∈ optionNames
      · obtain ⟨after, hafter⟩ := exists_set_of_mem settings hmember member.2
        rw [hafter]
        exact ih after
      · rw [set_of_notMem settings hmember]
        rfl
  exact hfold {}

end FormatterSettings

/-! ## In the group of the output -/

namespace OutputSettings

/-- The options of the output. -/
def optionNames : List String := ["mode", "validate_before_write", "atomic_write"]

/-- What is read of the group is what is found under the options. -/
theorem read_congr {members others : Entries Json}
    (h : ∀ key ∈ optionNames, members.get? key = others.get? key) : read members = read others := by
  unfold read
  rw [h "mode" (by decide), h "validate_before_write" (by decide), h "atomic_write" (by decide)]

theorem read_of_notMem {key : String} (hkey : key ∉ optionNames) (value : Json)
    (front back : Entries Json) : read (front ++ (key, value) :: back) = read (front ++ back) := by
  refine read_congr fun asked hasked => ?_
  have hne : asked ≠ key := fun heq => hkey (heq ▸ hasked)
  rw [Entries.get?_append, Entries.get?_append, Entries.get?_cons, if_neg hne]

end OutputSettings

namespace Settings

/-! ## Among the options -/

/-- All options. -/
def optionNames : List String :=
  ["add_generation_comment", "add_serde_imports", "derives", "map_type", "line_length",
    "break_reference_cycles", "formatter", "output"]

theorem sameOptions_assign_of_notMem (settings : Settings) {key : String} (hkey : key ∉ optionNames)
    (value : Json) : (settings.assign key value).SameOptions settings := by
  simp only [optionNames, List.mem_cons, List.not_mem_nil, or_false, not_or] at hkey
  obtain ⟨hcomment, himports, hderives, hmap, hlength, hcycles, hformatter, houtput⟩ := hkey
  rw [assign, if_neg hcomment, if_neg himports, if_neg hderives, if_neg hmap, if_neg hlength,
    if_neg hcycles, if_neg hformatter, if_neg houtput]
  -- what is left is the writer, whose place is no option
  split <;> rfl

theorem groupNames_subset : ["formatter", "output"] ⊆ optionNames := by
  decide

/-- A key that names no option gives the same options, unless it is one of the settings' own. -/
theorem exists_set_of_notMem (settings : Settings) {key : String} (hkey : key ∉ optionNames)
    (hown : key ∉ ownKeys) (value : Json) :
    ∃ after, settings.set key value = .ok after ∧ after.SameOptions settings := by
  have hgroup : key ∈ ["formatter", "output"] → ∀ members, value ≠ .obj members :=
    fun hmem => absurd (groupNames_subset hmem) hkey
  rw [set_of_plain settings hgroup hown]
  split
  · exact ⟨settings, rfl, rfl⟩
  · exact ⟨_, rfl, sameOptions_assign_of_notMem settings hkey value⟩

/-- Settings are refused for an own key that comes without a table. -/
theorem exists_set_null_eq_error (settings : Settings) {key : String} (hown : key ∈ ownKeys) :
    ∃ error, settings.set key .null = .error error := by
  simp only [ownKeys, List.mem_cons, List.not_mem_nil, or_false] at hown
  rcases hown with rfl | rfl | rfl <;> exact ⟨_, rfl⟩

/-! ## Settings with one more key -/

/-- Where a key may stand in settings: among the options or in one of the groups. -/
inductive Level where
  | options
  | formatter
  | output

namespace Level

/-- The options that may stand at a level. -/
def optionNames : Level → List String
  | options => Settings.optionNames
  | formatter => FormatterSettings.optionNames
  | output => OutputSettings.optionNames

end Level

/-- The second object is the first one with a key added at a level, at any place. -/
inductive Extended (key : String) (value : Json) : Level → Entries Json → Entries Json → Prop
  | options (before after : Entries Json) :
      Extended key value .options (before ++ after) (before ++ (key, value) :: after)
  | formatter (before after front back : Entries Json) :
      Extended key value .formatter (before ++ ("formatter", .obj (front ++ back)) :: after)
        (before ++ ("formatter", .obj (front ++ (key, value) :: back)) :: after)
  | output (before after front back : Entries Json) :
      Extended key value .output (before ++ ("output", .obj (front ++ back)) :: after)
        (before ++ ("output", .obj (front ++ (key, value) :: back)) :: after)

namespace Level

/-- Settings that are accepted are accepted with the key, whatever its value, and have the same
options. -/
def Ignores (level : Level) (key : String) : Prop :=
  ∀ value members more settings, Extended key value level members more →
    read (.obj members) = .ok settings →
      ∃ after, read (.obj more) = .ok after ∧ after.SameOptions settings

/-- Settings that are accepted are refused with the key, whatever its value. -/
def Refuses (level : Level) (key : String) : Prop :=
  ∀ value members more settings, Extended key value level members more →
    read (.obj members) = .ok settings → read (.obj more) = .error .unsuitableValue

theorem ignores_options {key : String} (hkey : key ∉ Settings.optionNames) (hown : key ∉ ownKeys) :
    options.Ignores key := by
  rintro value _ _ settings ⟨before, after⟩ hread
  rw [read_obj, setAll_append] at hread
  obtain ⟨passed, hbefore, hafter⟩ := bind_eq_ok.mp hread
  obtain ⟨next, hset, hsame⟩ := exists_set_of_notMem passed hkey hown value
  have hmap := hsame.map_setAll after
  rw [hafter] at hmap
  obtain ⟨last, hlast, hoptions⟩ := map_eq_ok.mp hmap
  exact ⟨last, setAll_eq_ok_iff.mpr ⟨passed, next, hbefore, hset, hlast⟩, hoptions⟩

theorem ignores_output {key : String} (hkey : key ∉ OutputSettings.optionNames) :
    output.Ignores key := by
  intro value _ _ settings hextended hread
  cases hextended with
  | output before after front back =>
    obtain ⟨passed, next, hbefore, hset, hafter⟩ := setAll_eq_ok_iff.mp hread
    have hsame : passed.set "output" (.obj (front ++ (key, value) :: back))
        = passed.set "output" (.obj (front ++ back)) := by
      rw [set_output, set_output, OutputSettings.read_of_notMem hkey]
    exact ⟨settings, setAll_eq_ok_iff.mpr ⟨passed, next, hbefore, hsame.trans hset, hafter⟩, rfl⟩

theorem refuses_formatter {key : String} (hkey : key ∉ FormatterSettings.optionNames) :
    formatter.Refuses key := by
  intro value _ _ settings hextended hread
  cases hextended with
  | formatter before after front back =>
    obtain ⟨passed, next, hbefore, -⟩ := setAll_eq_ok_iff.mp hread
    have hset : passed.set "formatter" (.obj (front ++ (key, value) :: back))
        = .error .unsuitableValue := by
      rw [set_formatter, FormatterSettings.read_of_notMem hkey]
      rfl
    rw [read_obj, setAll_append, hbefore]
    change passed.setAll _ = _
    rw [setAll_cons, hset]
    rfl

theorem Refuses.not_ignores {level : Level} {key : String} (h : level.Refuses key)
    (hsome : ∃ value members more settings, Extended key value level members more ∧
      read (.obj members) = .ok settings) : ¬ level.Ignores key := by
  intro hignores
  obtain ⟨value, members, more, settings, hextended, hread⟩ := hsome
  obtain ⟨after, hafter, -⟩ := hignores value members more settings hextended hread
  rw [h value members more settings hextended hread] at hafter
  cases hafter

/-- A key that names no option at its level is ignored, unless it stands in the group of the
formatter, which refuses it, or is one of the settings' own keys. -/
theorem ignores_iff (level : Level) {key : String} (hkey : key ∉ level.optionNames) :
    (level.Ignores key ↔ level ≠ .formatter ∧ ¬ (level = .options ∧ key ∈ ownKeys)) ∧
      (level = .formatter → level.Refuses key) := by
  cases level with
  | options =>
    refine ⟨⟨fun hignores => ⟨nofun, fun ⟨_, hown⟩ => ?_⟩,
      fun ⟨_, hown⟩ => ignores_options hkey fun hmem => hown ⟨rfl, hmem⟩⟩, nofun⟩
    obtain ⟨error, herror⟩ := exists_set_null_eq_error {} hown
    obtain ⟨after, hafter, -⟩ := hignores .null [] [(key, .null)] {} (.options [] []) rfl
    rw [read_obj, setAll_cons, herror] at hafter
    cases hafter
  | formatter =>
    have hrefuses := refuses_formatter hkey
    refine ⟨⟨fun hignores => absurd hignores (hrefuses.not_ignores ?_),
      fun ⟨hlevel, _⟩ => absurd rfl hlevel⟩, fun _ => hrefuses⟩
    exact ⟨.null, _, _, {}, .formatter [] [] [] [], rfl⟩
  | output => exact ⟨⟨fun _ => ⟨nofun, nofun⟩, fun _ => ignores_output hkey⟩, nofun⟩

/-- Settings that format the source and overwrite outputs. -/
def formatted : Settings where
  formatter := .options { enabled := .bool true }
  output := .options { mode := .mode .force }

theorem ignores_unknownOption :
    "unknown_option" ∉ options.optionNames ∧
      read (.obj [("formatter", .obj [("enabled", .bool true)]),
        ("output", .obj [("mode", .str "force")])]) = .ok formatted ∧
      ∃ after, read (.obj [("formatter", .obj [("enabled", .bool true)]),
        ("unknown_option", .int 1), ("output", .obj [("mode", .str "force")])]) = .ok after ∧
        after.SameOptions formatted := by
  have hkey : "unknown_option" ∉ options.optionNames := by decide
  have hread : read (.obj [("formatter", .obj [("enabled", .bool true)]),
      ("output", .obj [("mode", .str "force")])]) = .ok formatted := rfl
  have hignores := (ignores_iff options hkey).1.mpr ⟨nofun, fun h => absurd h.2 (by decide)⟩
  exact ⟨hkey, hread, hignores (.int 1) _ _ formatted
    (.options [("formatter", .obj [("enabled", .bool true)])]
      [("output", .obj [("mode", .str "force")])]) hread⟩

/-- The empty group of the formatter is accepted, and it is refused with a key that names none of its
options. -/
theorem not_ignores_formatter :
    "extra" ∉ formatter.optionNames ∧
      read (.obj [("formatter", .obj [])]) = .ok {} ∧
      read (.obj [("formatter", .obj [("extra", .int 1)])]) = .error .unsuitableValue ∧
      ¬ formatter.Ignores "extra" := by
  have hrefused : read (.obj [("formatter", .obj [("extra", .int 1)])]) = .error .unsuitableValue :=
    rfl
  refine ⟨by decide, rfl, hrefused, fun hignores => ?_⟩
  obtain ⟨after, hafter, -⟩ := hignores (.int 1) _ _ {} (.formatter [] [] [] []) rfl
  rw [← List.nil_append [("extra", Json.int 1)]] at hrefused
  cases hrefused.symm.trans hafter

end Level

end Settings

end SchemaForge
