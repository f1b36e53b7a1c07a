import SchemaForge.Proofs.Basic
import SchemaForge.Settings

/-! # Keys of settings

What settings become when a key is set. Settings are read by setting the members of an object one
after another, and their options are the same whether or not they could be given back in between.
-/

namespace SchemaForge

theorem OptionGroup.get_eq_ok {α : Type} {group : OptionGroup α} {wanted : String} {held : α}
    (h : group.get wanted = .ok held) : group = .options held := by
  cases group <;> cases h
  rfl

namespace Settings

/-! ## One key -/

/-- What settings become when a key is set: a group is read, all options are replaced by those of a
table, or else the value is taken as it is or passed over. -/
inductive Becomes (settings : Settings) : String → Json → Settings → Prop
  | formatter {members : Entries Json} {group : FormatterSettings}
      (h : FormatterSettings.read members = .ok group) :
      Becomes settings "formatter" (.obj members) { settings with formatter := .options group }
  | output {members : Entries Json} {group : OutputSettings}
      (h : OutputSettings.read members = .ok group) :
      Becomes settings "output" (.obj members) { settings with output := .options group }
  | replaced (table : Entries Json) : Becomes settings "__dict__" (.obj table) (ofTable table)
  | passed (key : String) (value : Json) : Becomes settings key value settings
  | assigned (key : String) (value : Json) :
      Becomes settings key value (settings.assign key value)

theorem becomes_of_set {settings after : Settings} {key : String} {value : Json}
    (h : settings.set key value = .ok after) : settings.Becomes key value after := by
  unfold set at h
  split at h
  · obtain ⟨group, hread, h⟩ := bind_eq_ok.mp h
    cases h
    exact .formatter hread
  · obtain ⟨group, hread, h⟩ := bind_eq_ok.mp h
    cases h
    exact .output hread
  · cases h
    exact .replaced _
  · cases h
  · cases h
  · cases h
  · cases h
    split
    · exact .passed _ _
    · exact .assigned _ _

theorem set_formatter (settings : Settings) (members : Entries Json) :
    settings.set "formatter" (.obj members)
      = (FormatterSettings.read members).map fun group =>
          { settings with formatter := .options group } := by
  cases hread : FormatterSettings.read members <;> simp only [set, hread] <;> rfl

theorem set_output (settings : Settings) (members : Entries Json) :
    settings.set "output" (.obj members)
      = (OutputSettings.read members).map fun group =>
          { settings with output := .options group } := by
  cases hread : OutputSettings.read members <;> simp only [set, hread] <;> rfl

/-- The keys of the settings themselves: the table of all options, the kind of the settings and their
place among weak references. -/
def ownKeys : List String := ["__dict__", "__class__", "__weakref__"]

/-- Where no group is read and the key is none of the settings' own, the value is taken as it is
unless the option is missing. -/
theorem set_of_plain (settings : Settings) {key : String} {value : Json}
    (hgroup : key ∈ ["formatter", "output"] → ∀ members, value ≠ .obj members)
    (hown : key ∉ ownKeys) :
    settings.set key value
      = .ok (if settings.lacks key then settings else settings.assign key value) := by
  unfold set
  split
  · exact absurd rfl (hgroup (by decide) _)
  · exact absurd rfl (hgroup (by decide) _)
  · exact absurd (by decide) hown
  · exact absurd (by decide) hown
  · exact absurd (by decide) hown
  · exact absurd (by decide) hown
  · rfl

/-! ## The same options -/

/-- The settings as far as their options go. Whether they can be given back is no option. -/
def restored (settings : Settings) : Settings := { settings with writable := true }

/-- Settings with the same options. -/
def SameOptions (settings others : Settings) : Prop := settings.restored = others.restored

theorem SameOptions.exists_eq {settings others : Settings} (h : settings.SameOptions others) :
    ∃ writable, others = { settings with writable } :=
  ⟨others.writable, calc
    others = { others.restored with writable := others.writable } := rfl
    _ = { settings.restored with writable := others.writable } := by rw [h]
    _ = { settings with writable := others.writable } := rfl⟩

/-- Whether settings can be given back makes no difference to the options that a value sets. -/
theorem restored_assign (settings : Settings) (writable : Bool) (key : String) (value : Json) :
    (assign { settings with writable } key value).restored = (settings.assign key value).restored := by
  simp only [assign, apply_ite restored]
  rfl

/-- From the same options, setting a key gives the same options or fails alike. -/
theorem SameOptions.map_set {settings others : Settings} (h : settings.SameOptions others)
    (key : String) (value : Json) :
    (settings.set key value).map restored = (others.set key value).map restored := by
  obtain ⟨writable, rfl⟩ := h.exists_eq
  unfold set
  split
  · cases FormatterSettings.read _ <;> rfl
  · cases OutputSettings.read _ <;> rfl
  · rfl
  · rfl
  · rfl
  · rfl
  · refine congrArg Except.ok ?_
    change _ = restored (if settings.lacks key then { settings with writable }
      else assign { settings with writable } key value)
    split
    · rfl
    · exact (restored_assign settings writable key value).symm

/-! ## All members -/

/-- The settings once the members of an object are set in turn. -/
def setAll (settings : Settings) (members : Entries Json) : Except Error Settings :=
  members.foldlM (fun settings member => settings.set member.1 member.2) settings

theorem read_obj (members : Entries Json) : read (.obj members) = setAll {} members := rfl

theorem setAll_cons (settings : Settings) (key : String) (value : Json) (rest : Entries Json) :
    settings.setAll ((key, value) :: rest)
      = settings.set key value >>= fun next => next.setAll rest :=
  List.foldlM_cons

theorem setAll_cons_of_set {settings next : Settings} {key : String} {value : Json}
    (h : settings.set key value = .ok next) (rest : Entries Json) :
    settings.setAll ((key, value) :: rest) = next.setAll rest := by
  rw [setAll_cons, h]
  rfl

theorem setAll_append (settings : Settings) (members more : Entries Json) :
    settings.setAll (members ++ more) = settings.setAll members >>= fun next => next.setAll more :=
  List.foldlM_append

/-- What setting each of the members keeps is kept by all of them. -/
theorem invariant_of_setAll {P : Settings → Prop} {settings last : Settings}
    {members : Entries Json} (h : settings.setAll members = .ok last)
    (hstep : ∀ member ∈ members, ∀ passed next, passed.set member.1 member.2 = .ok next →
      P passed → P next) (hstart : P settings) : P last := by
  induction members generalizing settings with
  | nil =>
    cases h
    exact hstart
  | cons member rest ih =>
    rw [List.forall_mem_cons] at hstep
    obtain ⟨next, hset, hrest⟩ := bind_eq_ok.mp h
    exact ih hrest hstep.2 (hstep.1 settings next hset hstart)

/-- What taking each value of a table as it is keeps is kept by the table as a whole. -/
theorem invariant_ofTable {P : Settings → Prop} {table : Entries Json}
    (hstep : ∀ member ∈ table, ∀ passed : Settings, P passed → P (passed.assign member.1 member.2))
    (hstart : P { derives := none, formatter := .missing, output := .missing }) : P (ofTable table) :=
  List.foldlRecOn table _ hstart fun passed hpassed member hmem => hstep member hmem passed hpassed

/-- A member takes part between those before it and those after it. -/
theorem setAll_eq_ok_iff {settings last : Settings} {before after : Entries Json} {key : String}
    {value : Json} :
    settings.setAll (before ++ (key, value) :: after) = .ok last ↔
      ∃ passed next, settings.setAll before = .ok passed ∧ passed.set key value = .ok next ∧
        next.setAll after = .ok last := by
  simp only [setAll_append, setAll_cons, bind_eq_ok]
  constructor
  · rintro ⟨passed, hbefore, next, hset, hafter⟩
    exact ⟨passed, next, hbefore, hset, hafter⟩
  · rintro ⟨passed, next, hbefore, hset, hafter⟩
    exact ⟨passed, hbefore, next, hset, hafter⟩

/-- From the same options, members give the same options or fail alike. -/
theorem SameOptions.map_setAll {settings others : Settings} (h : settings.SameOptions others)
    (members : Entries Json) :
    (settings.setAll members).map restored = (others.setAll members).map restored := by
  induction members generalizing settings others with
  | nil => exact congrArg Except.ok h
  | cons member rest ih =>
    obtain ⟨key, value⟩ := member
    have hset := h.map_set key value
    rw [setAll_cons, setAll_cons]
    cases hfirst : settings.set key value with
    | error error =>
      cases hsecond : others.set key value with
      | error another =>
        rw [hfirst, hsecond] at hset
        cases hset
        rfl
      | ok after =>
        rw [hfirst, hsecond] at hset
        cases hset
    | ok after =>
      cases hsecond : others.set key value with
      | error error =>
        rw [hfirst, hsecond] at hset
        cases hset
      | ok another =>
        rw [hfirst, hsecond] at hset
        exact ih (Except.ok.inj hset)

end Settings

end SchemaForge
