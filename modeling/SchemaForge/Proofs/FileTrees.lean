import Mathlib.Data.List.Basic
import SchemaForge.Proofs.Basic
import SchemaForge.Output.FileTree

/-! # The theory of file trees

What setting and removing an entry change, where a path leads whatever stands on its way, and how a
tree grows while missing directories are made. Trees are compared location by location.
-/

namespace SchemaForge.Output

/-- The location that a step leads to, whatever stands there. -/
def Location.follow (location : Location) (name : String) : Location :=
  if name = ".." then location.dropLast else location ++ [name]

theorem Location.follow_up (location : Location) : location.follow ".." = location.dropLast :=
  if_pos rfl

theorem Location.follow_of_ne {name : String} (h : name ≠ "..") (location : Location) :
    location.follow name = location ++ [name] :=
  if_neg h

/-- Names that do not lead up are appended. -/
theorem Location.foldl_follow_of_not_mem {steps : List String} (h : ".." ∉ steps)
    (location : Location) : steps.foldl Location.follow location = location ++ steps := by
  induction steps generalizing location with
  | nil => simp
  | cons step rest ih =>
    rw [List.mem_cons, not_or] at h
    rw [List.foldl_cons, ih h.2, follow_of_ne (Ne.symm h.1), List.append_assoc,
      List.singleton_append]

/-- Steps up are taken back, so no location that a path leads to has one. -/
theorem Location.up_not_mem_foldl_follow {location : Location} (h : ".." ∉ location)
    (steps : List String) : ".." ∉ steps.foldl Location.follow location := by
  induction steps generalizing location with
  | nil => exact h
  | cons step rest ih =>
    refine ih ?_
    unfold Location.follow
    split
    · exact fun hmem => h (List.dropLast_subset location hmem)
    · rename_i hstep
      intro hmem
      rcases List.mem_append.mp hmem with hfront | hlast
      · exact h hfront
      · exact hstep (List.mem_singleton.mp hlast).symm

namespace FileTree

variable {tree other : FileTree} {location : Location}

/-! ## Entries -/

@[simp] theorem get?_nil (tree : FileTree) : tree.get? [] = some .directory := if_pos rfl

theorem get?_of_ne_nil (tree : FileTree) (h : location ≠ []) :
    tree.get? location = (tree.entries.find? fun entry => entry.1 = location).map Prod.snd :=
  if_neg h

theorem find?_putEntry_self (location : Location) (entry : Entry)
    (entries : List (Location × Entry)) :
    (putEntry location entry entries).find? (fun held => held.1 = location)
      = some (location, entry) := by
  induction entries with
  | nil => simp [putEntry]
  | cons held rest ih =>
    rw [putEntry]
    by_cases h : held.1 = location
    · rw [if_pos h, List.find?_cons_of_pos (by simp)]
    · rw [if_neg h, List.find?_cons_of_neg (by simpa using h), ih]

theorem find?_putEntry_of_ne {away : Location} (h : away ≠ location) (entry : Entry)
    (entries : List (Location × Entry)) :
    (putEntry location entry entries).find? (fun held => held.1 = away)
      = entries.find? fun held => held.1 = away := by
  induction entries with
  | nil => simp [putEntry, h.symm]
  | cons held rest ih =>
    rw [putEntry]
    by_cases hheld : held.1 = location
    · rw [if_pos hheld, List.find?_cons_of_neg (by simpa using h.symm),
        List.find?_cons_of_neg (by simpa [hheld] using h.symm)]
    · rw [if_neg hheld, List.find?_cons, List.find?_cons, ih]

theorem get?_put_self (tree : FileTree) (h : location ≠ []) (entry : Entry) :
    (tree.put location entry).get? location = some entry := by
  rw [get?_of_ne_nil _ h, put, find?_putEntry_self]
  rfl

theorem get?_put_of_ne (tree : FileTree) {away : Location} (h : away ≠ location) (entry : Entry) :
    (tree.put location entry).get? away = tree.get? away := by
  by_cases haway : away = []
  · rw [haway, get?_nil, get?_nil]
  · rw [get?_of_ne_nil _ haway, get?_of_ne_nil _ haway, put, find?_putEntry_of_ne h]

theorem get?_erase_self (tree : FileTree) (h : location ≠ []) :
    (tree.erase location).get? location = none := by
  rw [get?_of_ne_nil _ h, erase, Option.map_eq_none_iff, List.find?_eq_none]
  intro held hheld
  simpa using (List.mem_filter.mp hheld).2

theorem get?_erase_of_ne (tree : FileTree) {away : Location} (h : away ≠ location) :
    (tree.erase location).get? away = tree.get? away := by
  by_cases haway : away = []
  · rw [haway, get?_nil, get?_nil]
  · rw [get?_of_ne_nil _ haway, get?_of_ne_nil _ haway, erase, List.find?_filter]
    congr 2
    funext held
    by_cases hheld : held.1 = away
    · simp [hheld, h]
    · simp [hheld]

@[simp] theorem current_put (tree : FileTree) (location : Location) (entry : Entry) :
    (tree.put location entry).current = tree.current := rfl

@[simp] theorem current_erase (tree : FileTree) (location : Location) :
    (tree.erase location).current = tree.current := rfl

/-! ## Paths -/

/-- The location that a path speaks of, whatever stands on its way. -/
def place (tree : FileTree) (path : Path) : Location :=
  path.steps.foldl Location.follow (tree.start path.absolute)

theorem place_eq_of_current (h : other.current = tree.current) (path : Path) :
    other.place path = tree.place path := by
  rw [place, place, start, start, h]

theorem place_append (tree : FileTree) (absolute : Bool) (steps : List String) (last : String) :
    tree.place ⟨absolute, steps ++ [last]⟩ = (tree.place ⟨absolute, steps⟩).follow last := by
  rw [place, List.foldl_append]
  rfl

theorem step_eq_ok {name : String} {next : Location} :
    tree.step location name = .ok next ↔ tree.get? location = some .directory ∧
      (name = ".." ∨ name.utf8ByteSize ≤ nameLimit) ∧ next = location.follow name := by
  unfold step Location.follow
  cases hget : tree.get? location with
  | none => simp
  | some entry =>
    cases entry with
    | file text => simp
    | directory =>
      by_cases hup : name = ".."
      · simp [hup, eq_comm]
      · by_cases hlong : nameLimit < name.utf8ByteSize
        · simp [hup, hlong, Nat.not_le_of_lt hlong]
        · simp [hup, hlong, eq_comm, Nat.le_of_not_lt hlong]

/-- Steps that can be taken lead where they would lead anyway. -/
theorem eq_of_foldlM_step {steps : List String} {start : Location}
    (h : steps.foldlM tree.step start = .ok location) :
    location = steps.foldl Location.follow start := by
  induction steps generalizing start with
  | nil => exact (Except.ok.inj h).symm
  | cons name rest ih =>
    obtain ⟨next, hstep, hrest⟩ := bind_eq_ok.mp h
    obtain ⟨-, -, rfl⟩ := step_eq_ok.mp hstep
    exact ih hrest

/-- Steps can be taken wherever there are no fewer directories. -/
theorem foldlM_step_mono
    (hdirectories : ∀ location, tree.get? location = some .directory →
      other.get? location = some .directory)
    {steps : List String} {start : Location} (h : steps.foldlM tree.step start = .ok location) :
    steps.foldlM other.step start = .ok location := by
  induction steps generalizing start with
  | nil => exact h
  | cons name rest ih =>
    obtain ⟨next, hstep, hrest⟩ := bind_eq_ok.mp h
    obtain ⟨hdirectory, hname, hnext⟩ := step_eq_ok.mp hstep
    exact bind_eq_ok.mpr
      ⟨next, step_eq_ok.mpr ⟨hdirectories _ hdirectory, hname, hnext⟩, ih hrest⟩

theorem locate_eq_ok {path : Path} : tree.locate path = .ok location ↔
    path.fault? = none ∧ path.steps.foldlM tree.step (tree.start path.absolute) = .ok location := by
  rw [locate]
  cases path.fault? <;> simp

theorem eq_place_of_locate {path : Path} (h : tree.locate path = .ok location) :
    location = tree.place path :=
  eq_of_foldlM_step (locate_eq_ok.mp h).2

theorem locate_mono (hcurrent : other.current = tree.current)
    (hdirectories : ∀ location, tree.get? location = some .directory →
      other.get? location = some .directory)
    {path : Path} (h : tree.locate path = .ok location) : other.locate path = .ok location := by
  obtain ⟨hfault, hsteps⟩ := locate_eq_ok.mp h
  refine locate_eq_ok.mpr ⟨hfault, ?_⟩
  rw [start, hcurrent]
  exact foldlM_step_mono hdirectories hsteps

/-- The last step of a path is taken from a directory. -/
theorem directory_of_locate {absolute : Bool} {steps : List String} {last : String}
    (h : tree.locate ⟨absolute, steps ++ [last]⟩ = .ok location) :
    tree.get? (tree.place ⟨absolute, steps⟩) = some .directory := by
  have hsteps := (locate_eq_ok.mp h).2
  rw [List.foldlM_append] at hsteps
  obtain ⟨above, habove, hlast⟩ := bind_eq_ok.mp hsteps
  obtain ⟨next, hstep, -⟩ := bind_eq_ok.mp hlast
  rw [eq_of_foldlM_step habove] at hstep
  exact (step_eq_ok.mp hstep).1

theorem find?_of_locate {path : Path} (h : tree.locate path = .ok location) :
    tree.find? path = tree.get? location := by
  rw [find?, h]

/-- What a path finds stands at its place. -/
theorem get?_place_of_find? {path : Path} {entry : Entry} (h : tree.find? path = some entry) :
    tree.get? (tree.place path) = some entry := by
  rw [find?] at h
  split at h
  · rename_i location hlocate
    rwa [← eq_place_of_locate hlocate]
  · cases h

/-! ## Sound trees -/

/-- A tree as a file system has it: whatever stands in it stands in a directory, no name leads up,
and the current directory is there. -/
structure Sound (tree : FileTree) : Prop where
  parents : ∀ location name, tree.get? (location ++ [name]) ≠ none →
    tree.get? location = some .directory
  names : ∀ location, tree.get? location ≠ none → ".." ∉ location
  current : tree.get? tree.current = some .directory

theorem sound_empty : ({} : FileTree).Sound where
  parents location name h := by
    rw [get?_of_ne_nil _ (by simp)] at h
    exact absurd rfl h
  names location h := by
    by_cases hnil : location = []
    · rw [hnil]
      exact List.not_mem_nil
    · rw [get?_of_ne_nil _ hnil] at h
      exact absurd rfl h
  current := get?_nil _

namespace Sound

/-- What stands where makes a tree sound, and not how it is listed. -/
theorem congr (h : tree.Sound) (hcurrent : other.current = tree.current)
    (hget : ∀ location, other.get? location = tree.get? location) : other.Sound where
  parents location name hsome := by
    rw [hget] at hsome ⊢
    exact h.parents location name hsome
  names location hsome := by
    rw [hget] at hsome
    exact h.names location hsome
  current := by rw [hcurrent, hget, h.current]

theorem up_not_mem_start (h : tree.Sound) (absolute : Bool) : ".." ∉ tree.start absolute := by
  cases absolute with
  | false =>
    have hsome : tree.get? tree.current ≠ none := by
      rw [h.current]
      exact Option.some_ne_none _
    exact h.names tree.current hsome
  | true => exact List.not_mem_nil

theorem up_not_mem_place (h : tree.Sound) (path : Path) : ".." ∉ tree.place path :=
  Location.up_not_mem_foldl_follow (h.up_not_mem_start path.absolute) path.steps

theorem directory_dropLast (h : tree.Sound) (hsome : tree.get? location ≠ none) :
    tree.get? location.dropLast = some .directory := by
  cases List.eq_nil_or_concat location with
  | inl hnil => rw [hnil, List.dropLast_nil, get?_nil]
  | inr hlast =>
    obtain ⟨front, last, rfl⟩ := hlast
    rw [List.concat_eq_append] at hsome ⊢
    rw [List.dropLast_concat]
    exact h.parents front last hsome

theorem get?_ne_none_of_append (h : tree.Sound) {more : List String}
    (hsome : tree.get? (location ++ more) ≠ none) : tree.get? location ≠ none := by
  induction more generalizing location with
  | nil => rwa [List.append_nil] at hsome
  | cons first rest ih =>
    have happend : location ++ first :: rest = location ++ [first] ++ rest := by simp
    rw [happend] at hsome
    rw [h.parents location first (ih hsome)]
    exact Option.some_ne_none _

/-- The location above the one that a step from a directory leads to is a directory. -/
theorem directory_dropLast_follow (h : tree.Sound)
    (hdirectory : tree.get? location = some .directory) (name : String) :
    tree.get? (location.follow name).dropLast = some .directory := by
  have hsome : tree.get? location ≠ none := by
    rw [hdirectory]
    exact Option.some_ne_none _
  by_cases hup : name = ".."
  · have habove := h.directory_dropLast hsome
    rw [hup, Location.follow_up]
    exact h.directory_dropLast (by rw [habove]; exact Option.some_ne_none _)
  · rw [Location.follow_of_ne hup, List.dropLast_concat, hdirectory]

/-- Where a path can be followed, it ends in a directory or right below one. -/
theorem directory_dropLast_of_locate (h : tree.Sound) {path : Path}
    (hlocate : tree.locate path = .ok location) :
    tree.get? location.dropLast = some .directory := by
  obtain ⟨absolute, steps⟩ := path
  cases List.eq_nil_or_concat steps with
  | inl hnil =>
    subst hnil
    have hstart : tree.get? (tree.start absolute) = some .directory := by
      cases absolute with
      | false => exact h.current
      | true => exact get?_nil tree
    refine h.directory_dropLast ?_
    rw [eq_place_of_locate hlocate, place, List.foldl_nil, hstart]
    exact Option.some_ne_none _
  | inr hlast =>
    obtain ⟨above, last, rfl⟩ := hlast
    rw [List.concat_eq_append] at hlocate
    rw [eq_place_of_locate hlocate, place_append]
    exact h.directory_dropLast_follow (directory_of_locate hlocate) last

/-- An entry may be set in a directory, but a directory is not replaced by a file. -/
theorem put (h : tree.Sound) {entry : Entry} (hparent : tree.get? location.dropLast = some .directory)
    (hup : ".." ∉ location) (hkept : tree.get? location = some .directory → entry = .directory) :
    (tree.put location entry).Sound := by
  by_cases hnil : location = []
  · refine h.congr rfl fun away => ?_
    by_cases haway : away = location
    · rw [haway, hnil, get?_nil, get?_nil]
    · rw [get?_put_of_ne _ haway]
  have hdirectory : ∀ above, tree.get? above = some .directory →
      (tree.put location entry).get? above = some .directory := by
    intro above habove
    by_cases hsame : above = location
    · rw [hsame, get?_put_self _ hnil, hkept (hsame ▸ habove)]
    · rw [get?_put_of_ne _ hsame, habove]
  refine ⟨?_, ?_, hdirectory _ h.current⟩
  · intro above name hsome
    by_cases hsame : above ++ [name] = location
    · rw [← hsame, List.dropLast_concat] at hparent
      exact hdirectory above hparent
    · rw [get?_put_of_ne _ hsame] at hsome
      exact hdirectory above (h.parents above name hsome)
  · intro away hsome
    by_cases hsame : away = location
    · rwa [hsame]
    · rw [get?_put_of_ne _ hsame] at hsome
      exact h.names away hsome

/-- A file may be removed. -/
theorem erase (h : tree.Sound) (hfile : tree.get? location ≠ some .directory) :
    (tree.erase location).Sound := by
  have hnil : location ≠ [] := by
    rintro rfl
    exact hfile (get?_nil tree)
  have hold : ∀ away, (tree.erase location).get? away ≠ none → tree.get? away ≠ none := by
    intro away hsome
    by_cases hsame : away = location
    · rw [hsame, get?_erase_self _ hnil] at hsome
      exact absurd rfl hsome
    · rwa [get?_erase_of_ne _ hsame] at hsome
  have hdirectory : ∀ above, tree.get? above = some .directory →
      (tree.erase location).get? above = some .directory := by
    intro above habove
    have hsame : above ≠ location := fun heq => hfile (heq ▸ habove)
    rw [get?_erase_of_ne _ hsame, habove]
  exact ⟨fun above name hsome => hdirectory above (h.parents above name (hold _ hsome)),
    fun away hsome => h.names away (hold away hsome), hdirectory _ h.current⟩

end Sound

/-- A tree with one file. -/
def oneFile : FileTree := { entries := [(["b"], .file "old")] }

theorem sound_oneFile : oneFile.Sound :=
  sound_empty.put (get?_nil _) (by decide) nofun

/-! ## Paths that can be followed -/

theorem fits_of_foldlM_step {steps : List String} {start : Location}
    (h : steps.foldlM tree.step start = .ok location) :
    ∀ name ∈ steps, name.utf8ByteSize ≤ nameLimit := by
  induction steps generalizing start with
  | nil => exact fun _ hname => absurd hname List.not_mem_nil
  | cons first rest ih =>
    obtain ⟨next, hstep, hrest⟩ := bind_eq_ok.mp h
    refine List.forall_mem_cons.mpr ⟨?_, ih hrest⟩
    rcases (step_eq_ok.mp hstep).2.1 with rfl | hfits
    · decide
    · exact hfits

/-- What stands somewhere is reached from every directory above it. -/
theorem Sound.foldlM_step_of_get? (h : tree.Sound) {steps : List String} (hup : ".." ∉ steps)
    (hfits : ∀ name ∈ steps, name.utf8ByteSize ≤ nameLimit) {start : Location}
    (hsome : tree.get? (start ++ steps) ≠ none) :
    steps.foldlM tree.step start = .ok (start ++ steps) := by
  induction steps generalizing start with
  | nil => rw [List.append_nil]; rfl
  | cons first rest ih =>
    rw [List.mem_cons, not_or] at hup
    rw [List.forall_mem_cons] at hfits
    have happend : start ++ first :: rest = start ++ [first] ++ rest := by simp
    have hfollow : start.follow first = start ++ [first] :=
      Location.follow_of_ne (Ne.symm hup.1) start
    rw [happend] at hsome ⊢
    have hfirst : tree.get? start = some .directory :=
      h.parents start first (h.get?_ne_none_of_append hsome)
    exact bind_eq_ok.mpr ⟨start ++ [first],
      step_eq_ok.mpr ⟨hfirst, Or.inr hfits.1, hfollow.symm⟩, ih hup.2 hfits.2 hsome⟩

/-- A path without steps up that can be followed in some tree finds whatever stands at its place in
another one. -/
theorem Sound.find?_eq_get?_place (h : tree.Sound) {path : Path} (hup : ".." ∉ path.steps)
    (hlocate : other.locate path = .ok location) : tree.find? path = tree.get? (tree.place path) := by
  obtain ⟨hfault, hsteps⟩ := locate_eq_ok.mp hlocate
  have hplace : tree.place path = tree.start path.absolute ++ path.steps :=
    Location.foldl_follow_of_not_mem hup _
  by_cases hsome : tree.get? (tree.place path) = none
  · rw [hsome]
    by_contra hfound
    obtain ⟨entry, hentry⟩ := Option.ne_none_iff_exists'.mp hfound
    rw [get?_place_of_find? hentry] at hsome
    cases hsome
  · refine find?_of_locate (locate_eq_ok.mpr ⟨hfault, ?_⟩)
    rw [hplace] at hsome ⊢
    exact h.foldlM_step_of_get? hup (fits_of_foldlM_step hsteps) hsome

/-! ## Directories that are made -/

/-- What stands at a location is as it was, or it is a directory that was made on the way that a
path goes. -/
def KeptOrMade (before after : FileTree) (path : Path) (location : Location) : Prop :=
  after.get? location = before.get? location ∨
    before.get? location = none ∧ after.get? location = some .directory ∧
      ∃ way, way <+: path.steps ∧ location = before.place { path with steps := way }

/-- A tree has grown by missing directories on the way that a path goes, and by nothing else. -/
structure Grown (before after : FileTree) (path : Path) : Prop where
  current : after.current = before.current
  keptOrMade : ∀ location, KeptOrMade before after path location

namespace KeptOrMade

variable {before after : FileTree} {path : Path}

/-- What stood there already is kept. -/
theorem kept (h : KeptOrMade before after path location) (hsome : before.get? location ≠ none) :
    after.get? location = before.get? location := by
  rcases h with hkept | ⟨hfree, -, -⟩
  · exact hkept
  · exact absurd hfree hsome

/-- Files come from nowhere else. -/
theorem file_iff (h : KeptOrMade before after path location) (text : String) :
    after.get? location = some (.file text) ↔ before.get? location = some (.file text) := by
  rcases h with hkept | ⟨hfree, hmade, -⟩
  · rw [hkept]
  · simp [hfree, hmade]

theorem of_eq {last : FileTree} (h : KeptOrMade before after path location)
    (heq : last.get? location = after.get? location) : KeptOrMade before last path location := by
  rcases h with hkept | ⟨hfree, hmade, hway⟩
  · exact Or.inl (heq.trans hkept)
  · exact Or.inr ⟨hfree, heq.trans hmade, hway⟩

end KeptOrMade

namespace Grown

variable {before after : FileTree} {path : Path}

theorem refl (tree : FileTree) (path : Path) : Grown tree tree path :=
  ⟨rfl, fun _ => Or.inl rfl⟩

theorem congr (h : Grown before after path) {last : FileTree}
    (hcurrent : last.current = after.current)
    (hget : ∀ location, last.get? location = after.get? location) : Grown before last path :=
  ⟨hcurrent.trans h.current, fun location => (h.keptOrMade location).of_eq (hget location)⟩

/-- A longer way passes by more places. -/
theorem longer {absolute : Bool} {steps more : List String}
    (h : Grown before after ⟨absolute, steps⟩) : Grown before after ⟨absolute, steps ++ more⟩ := by
  refine ⟨h.current, fun location => ?_⟩
  rcases h.keptOrMade location with hkept | ⟨hfree, hmade, way, hway, hplace⟩
  · exact Or.inl hkept
  · exact Or.inr ⟨hfree, hmade, way, hway.trans (List.prefix_append steps more), hplace⟩

/-- A directory may be made where the way ends. -/
theorem put_directory (h : Grown before after path) (hfree : after.get? location = none)
    (hplace : location = before.place path) : Grown before (after.put location .directory) path := by
  have hnil : location ≠ [] := by
    rintro rfl
    rw [get?_nil] at hfree
    cases hfree
  refine ⟨h.current, fun away => ?_⟩
  by_cases haway : away = location
  · subst haway
    have hbefore : before.get? away = none := by
      rcases h.keptOrMade away with hkept | ⟨hbefore, -, -⟩
      · rw [← hkept, hfree]
      · exact hbefore
    exact Or.inr ⟨hbefore, get?_put_self _ hnil _, path.steps, List.prefix_rfl, hplace⟩
  · exact (h.keptOrMade away).of_eq (get?_put_of_ne _ haway _)

/-- Directories are never lost. -/
theorem directory (h : Grown before after path)
    (hdirectory : before.get? location = some .directory) :
    after.get? location = some .directory := by
  rw [(h.keptOrMade location).kept (by rw [hdirectory]; exact Option.some_ne_none _), hdirectory]

end Grown

/-- What comes of making the directories on the way that a path goes. -/
structure MadeWay (before : FileTree) (path : Path) (result : Except Error Location × FileTree) :
    Prop where
  grown : Grown before result.2 path
  sound : before.Sound → result.2.Sound
  eq_place : ∀ location, result.1 = .ok location → location = before.place path

theorem MadeWay.of_error {before after : FileTree} {path : Path} (hgrown : Grown before after path)
    (hsound : before.Sound → after.Sound) (error : Error) :
    MadeWay before path (.error error, after) :=
  ⟨hgrown, hsound, fun _ h => nomatch h⟩

theorem madeWay_ensureDirectory {before after : FileTree} {path : Path}
    (hgrown : Grown before after path) (hsound : before.Sound → after.Sound)
    (hplace : location = before.place path)
    (hparent : after.Sound → after.get? location.dropLast = some .directory) :
    MadeWay before path (after.ensureDirectory path location) := by
  have hok : ∀ found, (Except.ok location : Except Error Location) = .ok found →
      found = before.place path := by
    rintro found ⟨⟩
    exact hplace
  unfold ensureDirectory
  split
  · rename_i hfree
    refine ⟨hgrown.put_directory hfree hplace, fun hbefore => ?_, hok⟩
    have hup : ".." ∉ location := hplace ▸ hbefore.up_not_mem_place path
    exact (hsound hbefore).put (hparent (hsound hbefore)) hup fun _ => rfl
  · exact ⟨hgrown, hsound, hok⟩
  · exact .of_error hgrown hsound _

theorem madeWay_makeDirectoriesUp (tree : FileTree) (absolute : Bool) (steps : List String) :
    MadeWay tree ⟨absolute, steps.reverse⟩ (tree.makeDirectoriesUp absolute steps) := by
  induction steps with
  | nil =>
    refine ⟨Grown.refl _ _, id, ?_⟩
    rintro location ⟨⟩
    rfl
  | cons last above ih =>
    have hplace := tree.place_append absolute above.reverse last
    rw [← List.reverse_cons] at hplace
    rw [makeDirectoriesUp]
    split
    · rename_i location hlocate
      exact madeWay_ensureDirectory (Grown.refl _ _) id (eq_place_of_locate hlocate) fun hsound =>
        hsound.directory_dropLast_of_locate hlocate
    · -- the directories above are made first
      split
      · rename_i error after habove
        rw [habove] at ih
        rw [List.reverse_cons]
        exact .of_error ih.grown.longer ih.sound error
      · rename_i parent after habove
        rw [habove] at ih
        have hgrown : Grown tree after ⟨absolute, (last :: above).reverse⟩ := by
          rw [List.reverse_cons]
          exact ih.grown.longer
        split
        · rename_i location hstep
          obtain ⟨hdirectory, -, hnext⟩ := step_eq_ok.mp hstep
          have hparent : parent = tree.place ⟨absolute, above.reverse⟩ := ih.eq_place parent rfl
          refine madeWay_ensureDirectory hgrown ih.sound ?_ fun hsound => ?_
          · rw [hplace, hnext, hparent]
          · rw [hnext]
            exact hsound.directory_dropLast_follow hdirectory last
        · exact .of_error hgrown ih.sound _
    · exact .of_error (Grown.refl _ _) id _

/-- Making directories makes missing ones on the way and nothing else, and tells where the way
ends. -/
theorem madeWay_makeDirectories (tree : FileTree) (path : Path) :
    MadeWay tree path (tree.makeDirectories path) := by
  have h := madeWay_makeDirectoriesUp tree path.absolute path.steps.reverse
  rwa [List.reverse_reverse] at h

end FileTree

end SchemaForge.Output
