import Mathlib.Data.List.Nodup
import SchemaForge.Output.Delivery
import SchemaForge.Proofs.FileTrees

/-! # Atomic delivery

Delivery either fails and leaves every file as it was, or writes its code to one place and leaves
every other file as it was; in both cases at most the missing directories above that place are made.
What is asked for a free path replaces nothing, provided that its path finds whatever stands there.
-/

namespace SchemaForge.Output

open FileTree

/-! ## Temporary files -/

theorem ofDigitChars_leftpad (n : Nat) (digits : List Char) :
    Nat.ofDigitChars 10 (digits.leftpad n '0') 0 = Nat.ofDigitChars 10 digits 0 := by
  rw [List.leftpad, Nat.ofDigitChars_append]
  congr 1
  induction n - digits.length with
  | zero => rfl
  | succ k ih => rwa [List.replicate_succ, Nat.ofDigitChars_cons]

theorem temporaryName_injective (name : String) : Function.Injective (temporaryName name) := by
  intro m n h
  have hlist := congrArg String.toList h
  simp only [temporaryName, String.toList_append, String.toList_ofList] at hlist
  have hdigits := List.append_cancel_left (List.append_cancel_right hlist)
  have hvalue := congrArg (Nat.ofDigitChars 10 · 0) hdigits
  simpa only [ofDigitChars_leftpad, Nat.ofDigitChars_ten_toDigits] using hvalue

theorem temporaryName_ne_up (name : String) (stamp : Nat) : temporaryName name stamp ≠ ".." := by
  intro h
  have hlength := congrArg (fun text => text.toList.length) h
  simp only [temporaryName, String.toList_append, List.length_append] at hlength
  have hdots : ".".toList.length + ".".toList.length + ".tmp".toList.length = 6 := rfl
  have hup : "..".toList.length = 2 := rfl
  omega

theorem mem_entries_of_get? {tree : FileTree} {location : Location} (hnil : location ≠ [])
    (h : tree.get? location ≠ none) : location ∈ tree.entries.map Prod.fst := by
  rw [get?_of_ne_nil _ hnil, Ne, Option.map_eq_none_iff, List.find?_eq_none] at h
  push Not at h
  obtain ⟨entry, hmem, hentry⟩ := h
  exact List.mem_map.mpr ⟨entry, hmem, by simpa using hentry⟩

/-- Entries cannot take up one stamp more than there are of them. -/
theorem exists_temporaryName_free (tree : FileTree) (directory : Location) (name : String) :
    ∃ stamp ∈ List.range (tree.entries.length + 1),
      tree.get? (directory ++ [temporaryName name stamp]) = none := by
  by_contra hnone
  have hinjective : Function.Injective fun stamp => directory ++ [temporaryName name stamp] := by
    intro m n h
    exact temporaryName_injective name (List.singleton_injective (List.append_cancel_left h))
  have hsubset : ((List.range (tree.entries.length + 1)).map fun stamp =>
      directory ++ [temporaryName name stamp]) ⊆ tree.entries.map Prod.fst := by
    intro location hlocation
    obtain ⟨stamp, hstamp, rfl⟩ := List.mem_map.mp hlocation
    exact mem_entries_of_get? (by simp) fun hfree => hnone ⟨stamp, hstamp, hfree⟩
  have hlength := (List.nodup_range.map hinjective).length_le_of_subset hsubset
  rw [List.length_map, List.length_map, List.length_range] at hlength
  omega

/-- The temporary path leads to a free place in its directory. -/
theorem temporaryPath_spec (tree : FileTree) (directory : Location) (name : String) :
    ∃ stamp, temporaryPath tree directory name = ⟨true, directory ++ [temporaryName name stamp]⟩ ∧
      tree.get? (directory ++ [temporaryName name stamp]) = none := by
  unfold temporaryPath
  dsimp only
  rw [List.find?_map]
  cases hfind : (List.range (tree.entries.length + 1)).find?
      ((fun location => (tree.get? location).isNone) ∘
        fun stamp => directory ++ [temporaryName name stamp]) with
  | none =>
    obtain ⟨stamp, hstamp, hfree⟩ := exists_temporaryName_free tree directory name
    exact absurd hfree (by simpa using List.find?_eq_none.mp hfind stamp hstamp)
  | some stamp => exact ⟨stamp, rfl, by simpa using List.find?_some hfind⟩

/-- Where the temporary path is taken, it leads to a free place in a directory. -/
theorem free_of_locate_temporaryPath {tree : FileTree} {directory temporary : Location}
    {name : String} (hup : ".." ∉ directory)
    (h : tree.locate (temporaryPath tree directory name) = .ok temporary) :
    temporary ≠ [] ∧ ".." ∉ temporary ∧ tree.get? temporary = none ∧
      tree.get? temporary.dropLast = some .directory := by
  obtain ⟨stamp, hpath, hfree⟩ := temporaryPath_spec tree directory name
  rw [hpath] at h
  have hnames : ".." ∉ directory ++ [temporaryName name stamp] := by
    rw [List.mem_append, List.mem_singleton, not_or]
    exact ⟨hup, (temporaryName_ne_up name stamp).symm⟩
  have hdirectory := directory_of_locate h
  rw [place, Location.foldl_follow_of_not_mem hup] at hdirectory
  obtain rfl : temporary = directory ++ [temporaryName name stamp] := by
    rw [eq_place_of_locate h, place, Location.foldl_follow_of_not_mem hnames]
    rfl
  refine ⟨by simp, hnames, hfree, ?_⟩
  rw [List.dropLast_concat]
  exact hdirectory

/-! ## What a delivery leaves -/

/-- Code stands where a path leads, no directory was replaced by it, and whatever stands elsewhere is
as it was, or a directory made on the way. -/
structure Written (before after : FileTree) (path : Path) (code : String) : Prop where
  found : after.find? path = some (.file code)
  current : after.current = before.current
  no_directory : before.get? (before.place path) ≠ some .directory
  elsewhere : ∀ location ≠ before.place path, KeptOrMade before after path.parent location

/-- What writing code for a path may come to: on failure at most directories were made, and on
success the code was written. -/
structure Transaction (before : FileTree) (path : Path) (code : String)
    (result : Traced Unit × FileTree) : Prop where
  sound : before.Sound → result.2.Sound
  failed : ∀ error, result.1.outcome = .error error → Grown before result.2 path.parent
  done : result.1.outcome = .ok () → Written before result.2 path code

theorem Transaction.of_error {before after : FileTree} {path : Path} {code : String}
    (hgrown : Grown before after path.parent) (hsound : before.Sound → after.Sound) (error : Error) :
    Transaction before path code (.quietly (.error error), after) :=
  ⟨hsound, fun _ _ => hgrown, fun h => nomatch h⟩

theorem moveFile_eq_ok {tree after : FileTree} {source : Location} {path : Path}
    (h : tree.moveFile source path = .ok after) :
    ∃ target entry, tree.locate path = .ok target ∧ tree.get? source = some entry ∧
      tree.get? target ≠ some .directory ∧ after = (tree.erase source).put target entry := by
  unfold moveFile at h
  obtain ⟨target, hlocate, h⟩ := bind_eq_ok.mp h
  refine ⟨target, ?_⟩
  cases hname : path.endsInName with
  | false =>
    rw [hname] at h
    cases h
  | true =>
    simp only [hname, Bool.not_true, Bool.false_eq_true, if_false] at h
    split at h
    · cases h
    · rename_i entry hsource hdirectory
      exact ⟨entry, mapError_eq_ok.mp hlocate, hsource, hdirectory, (Except.ok.inj h).symm⟩
    · cases h

/-- A file that passes through a free place shows nowhere but at its target. -/
theorem get?_passed {tree : FileTree} {temporary target location : Location} (entry : Entry)
    (hnil : temporary ≠ []) (hfree : tree.get? temporary = none) (hne : location ≠ target) :
    (((tree.put temporary entry).erase temporary).put target entry).get? location
      = tree.get? location := by
  rw [get?_put_of_ne _ hne]
  by_cases hsame : location = temporary
  · rw [hsame, get?_erase_self _ hnil, hfree]
  · rw [get?_erase_of_ne _ hsame, get?_put_of_ne _ hsame]

/-- A file that is written first and moved then stands where the path leads, and nothing else is
there that was not there before. -/
theorem written_of_moveFile {before made after : FileTree} {path : Path} {code : String}
    {temporary : Location} (hmade : Grown before made path.parent) (hnil : temporary ≠ [])
    (hfree : made.get? temporary = none)
    (hmove : (made.put temporary (.file code)).moveFile temporary path = .ok after) :
    Written before after path code := by
  obtain ⟨target, entry, hlocate, hsource, hdirectory, hafter⟩ := moveFile_eq_ok hmove
  rw [get?_put_self _ hnil, Option.some.injEq] at hsource
  subst hsource
  have hcurrent : after.current = (made.put temporary (.file code)).current := by
    rw [hafter, current_put, current_erase]
  have htarget : target ≠ [] := by
    rintro rfl
    exact hdirectory (get?_nil _)
  have hplaced : after.get? target = some (.file code) := by
    rw [hafter, get?_put_self _ htarget]
  have helsewhere : ∀ location ≠ target, after.get? location = made.get? location := by
    intro location hne
    rw [hafter, get?_passed _ hnil hfree hne]
  have hmadeTarget : made.get? target ≠ some .directory := by
    by_cases hsame : target = temporary
    · rw [hsame, hfree]
      exact nofun
    · rwa [get?_put_of_ne _ hsame] at hdirectory
  -- no directory was lost, so the path leads where it led
  have hdirectories : ∀ location,
      (made.put temporary (.file code)).get? location = some .directory →
        after.get? location = some .directory := by
    intro location hlocation
    have hne : location ≠ target := fun heq => hdirectory (heq ▸ hlocation)
    have hother : location ≠ temporary := by
      rintro rfl
      rw [get?_put_self _ hnil] at hlocation
      cases hlocation
    rw [helsewhere location hne]
    rwa [get?_put_of_ne _ hother] at hlocation
  have hplace : target = before.place path := by
    rw [eq_place_of_locate hlocate]
    exact place_eq_of_current hmade.current path
  constructor
  case found => rw [find?_of_locate (locate_mono hcurrent hdirectories hlocate), hplaced]
  case current => exact hcurrent.trans hmade.current
  case no_directory =>
    rw [← hplace]
    exact fun hbefore => hmadeTarget (hmade.directory hbefore)
  case elsewhere =>
    intro location hne
    rw [← hplace] at hne
    exact (hmade.keptOrMade location).of_eq (helsewhere location hne)

theorem sound_moveFile {tree after : FileTree} {source : Location} {path : Path} (h : tree.Sound)
    (hfile : tree.get? source ≠ some .directory) (hmove : tree.moveFile source path = .ok after) :
    after.Sound := by
  obtain ⟨target, entry, hlocate, hsource, hdirectory, rfl⟩ := moveFile_eq_ok hmove
  have hup : ".." ∉ target := eq_place_of_locate hlocate ▸ h.up_not_mem_place path
  -- the target's directory is there, and it is not what is moved away
  have hparent := h.directory_dropLast_of_locate hlocate
  have hne : target.dropLast ≠ source := fun heq => hfile (heq ▸ hparent)
  refine (h.erase hfile).put ?_ hup fun hgone => ?_
  · rw [get?_erase_of_ne _ hne, hparent]
  · by_cases hsame : target = source
    · have hnil : source ≠ [] := by
        rintro rfl
        exact hfile (get?_nil tree)
      rw [hsame, get?_erase_self _ hnil] at hgone
      cases hgone
    · rw [get?_erase_of_ne _ hsame] at hgone
      exact absurd hgone hdirectory

theorem transaction_deliver {tree : FileTree} (h : tree.Sound) (path : Path) (code : String)
    (check : Option Check) : Transaction tree path code (deliver tree path code check) := by
  have hway := madeWay_makeDirectories tree path.parent
  unfold deliver
  split
  · rename_i error made heq
    rw [heq] at hway
    exact .of_error hway.grown hway.sound error
  · rename_i directory made heq
    rw [heq] at hway
    have hup : ".." ∉ directory := hway.eq_place directory rfl ▸ h.up_not_mem_place path.parent
    split
    · exact .of_error hway.grown hway.sound _
    · rename_i temporary hlocate
      obtain ⟨hnil, hnames, hfree, hparent⟩ := free_of_locate_temporaryPath hup hlocate
      have hplaced : (made.put temporary (.file code)).get? temporary = some (.file code) :=
        get?_put_self _ hnil _
      have hwritten : (made.put temporary (.file code)).Sound :=
        (hway.sound h).put hparent hnames fun hdirectory => by
          rw [hfree] at hdirectory
          cases hdirectory
      have hfile : (made.put temporary (.file code)).get? temporary ≠ some .directory := by
        rw [hplaced]
        exact nofun
      dsimp only
      split
      · rename_i after hdone
        obtain ⟨-, -, hmove⟩ := bind_eq_ok.mp hdone
        exact {
          sound := fun _ => sound_moveFile hwritten hfile hmove
          failed := fun _ hfailed => nomatch hfailed
          done := fun _ => written_of_moveFile hway.grown hnil hfree hmove }
      · rename_i error hfailed
        have hgrown : Grown tree ((made.put temporary (.file code)).erase temporary) path.parent := by
          refine hway.grown.congr rfl fun location => ?_
          by_cases hsame : location = temporary
          · rw [hsame, get?_erase_self _ hnil, hfree]
          · rw [get?_erase_of_ne _ hsame, get?_put_of_ne _ hsame]
        exact .of_error hgrown (fun _ => hwritten.erase hfile) error

/-- Code that its check accepts is delivered where every step on the way can be taken. -/
theorem deliver_of_moved {tree made after : FileTree} {path : Path} {code : String}
    {check : Option Check} {directory temporary : Location}
    (hmade : tree.makeDirectories path.parent = (.ok directory, made))
    (hlocate : made.locate (temporaryPath made directory path.name) = .ok temporary)
    (hcheck : runCheck check code = .ok ())
    (hmove : (made.put temporary (.file code)).moveFile temporary path = .ok after) :
    deliver tree path code check = (.report (.wrote path.text), after) := by
  have hdone : (runCheck check code >>= fun _ =>
      (made.put temporary (.file code)).moveFile temporary path) = .ok after :=
    bind_eq_ok.mpr ⟨(), hcheck, hmove⟩
  rw [deliver, hmade]
  dsimp only
  rw [hlocate]
  dsimp only
  rw [hdone]

theorem runCheck_of_deliver {tree : FileTree} {path : Path} {code : String} {check : Option Check}
    (hdone : (deliver tree path code check).1.outcome = .ok ()) : runCheck check code = .ok () := by
  unfold deliver at hdone
  split at hdone
  · cases hdone
  · split at hdone
    · cases hdone
    · dsimp only at hdone
      split at hdone
      · rename_i after hwritten
        obtain ⟨_, hcheck, _⟩ := bind_eq_ok.mp hwritten
        exact hcheck
      · cases hdone

/-! ## Free paths -/

/-- Something stands at the place of a path, but the path does not find it, since a directory is
missing that it passes through and leaves again. -/
def Obscured (tree : FileTree) (path : Path) : Prop :=
  tree.find? path = none ∧ tree.get? (tree.place path) ≠ none

theorem isTaken_of_locate {tree : FileTree} {path : Path} {location : Location}
    (h : tree.locate path = .ok location) :
    tree.isTaken path = .ok (tree.get? location).isSome := by
  rw [isTaken, h]

theorem find?_eq_none_of_requireFree {tree : FileTree} {path : Path}
    (h : requireFree tree path = .ok ()) : tree.find? path = none := by
  rw [find?]
  cases hlocate : tree.locate path with
  | error fault => rfl
  | ok location =>
    rw [requireFree, isTaken_of_locate hlocate] at h
    cases hget : tree.get? location with
    | none => exact hget
    | some entry =>
      rw [hget] at h
      cases h

theorem requireFree_of_find? {tree : FileTree} {path : Path} {entry : Entry}
    (h : tree.find? path = some entry) :
    requireFree tree path = .error (.outputExists path.text) := by
  rw [find?] at h
  split at h
  · rename_i location hlocate
    rw [requireFree, isTaken_of_locate hlocate, h]
    rfl
  · cases h

theorem transaction_deliverNew {tree : FileTree} (h : tree.Sound) (path : Path) (code : String)
    (check : Option Check) : Transaction tree path code (deliverNew tree path code check) := by
  unfold deliverNew
  split
  · exact .of_error (Grown.refl _ _) id _
  · exact transaction_deliver h path code check

/-- A path without steps up is never obscured where writing to it succeeds. -/
theorem Written.not_obscured {before after : FileTree} (h : before.Sound) {path : Path}
    {code : String} (hwritten : Written before after path code) (hup : ".." ∉ path.steps) :
    ¬ Obscured before path := by
  rintro ⟨hnone, hsome⟩
  have hfound := hwritten.found
  rw [find?] at hfound
  split at hfound
  · rename_i location hlocate
    rw [h.find?_eq_get?_place hup hlocate] at hnone
    exact hsome hnone
  · cases hfound

/-- What is only written to a free path replaces nothing, if it finds what stands at its place. -/
theorem kept_of_deliverNew {tree : FileTree} (h : tree.Sound) {path : Path}
    (hclear : ¬ Obscured tree path) (code : String) (check : Option Check) (location : Location)
    (hsome : tree.get? location ≠ none) :
    (deliverNew tree path code check).2.get? location = tree.get? location := by
  have htransaction := transaction_deliverNew h path code check
  cases houtcome : (deliverNew tree path code check).1.outcome with
  | error error => exact ((htransaction.failed error houtcome).keptOrMade location).kept hsome
  | ok done =>
    have hfree : tree.find? path = none := by
      unfold deliverNew at houtcome
      split at houtcome
      · cases houtcome
      · rename_i hrequire
        exact find?_eq_none_of_requireFree hrequire
    -- nothing is found, so nothing stands at the place either
    have hne : location ≠ tree.place path := by
      rintro rfl
      exact hclear ⟨hfree, hsome⟩
    exact ((htransaction.done houtcome).elsewhere location hne).kept hsome

theorem kept_of_deliverNew_of_no_up {tree : FileTree} (h : tree.Sound) {path : Path}
    (hup : ".." ∉ path.steps) (code : String) (check : Option Check) (location : Location)
    (hsome : tree.get? location ≠ none) :
    (deliverNew tree path code check).2.get? location = tree.get? location := by
  have htransaction := transaction_deliverNew h path code check
  cases houtcome : (deliverNew tree path code check).1.outcome with
  | error error => exact ((htransaction.failed error houtcome).keptOrMade location).kept hsome
  | ok done =>
    have hclear := (htransaction.done houtcome).not_obscured h hup
    exact kept_of_deliverNew h hclear code check location hsome

/-! ## Calls one after another -/

/-- A call of the writer: code for a path, checked or not, and whether the path must be free. -/
structure Call where
  path : Path
  code : String
  check : Option Check := some validate
  onlyNew : Bool := false

namespace Call

/-- Carries out a call. -/
def perform (call : Call) (tree : FileTree) : Traced Unit × FileTree :=
  if call.onlyNew then deliverNew tree call.path call.code call.check
  else deliver tree call.path call.code call.check

/-- The tree that calls leave one after another. -/
def performAll (calls : List Call) (tree : FileTree) : FileTree :=
  calls.foldl (fun tree call => (call.perform tree).2) tree

/-- What a call does to a tree. A failed one leaves every file as it was, a successful one writes its
code, which passed the check, and leaves every other file as it was. Whatever stood anywhere before
stays as it was if the path must be free, unless the path leaves a missing directory again. -/
structure Atomic (call : Call) (before : FileTree) : Prop where
  failed : ∀ error, (call.perform before).1.outcome = .error error →
    Grown before (call.perform before).2 call.path.parent
  done : (call.perform before).1.outcome = .ok () →
    Written before (call.perform before).2 call.path call.code
  checked : (call.perform before).1.outcome = .ok () → runCheck call.check call.code = .ok ()
  kept : call.onlyNew = true → ¬ Obscured before call.path → ∀ location,
    before.get? location ≠ none →
      (call.perform before).2.get? location = before.get? location
  kept_of_no_up : call.onlyNew = true → ".." ∉ call.path.steps → ∀ location,
    before.get? location ≠ none →
      (call.perform before).2.get? location = before.get? location

theorem transaction_perform {tree : FileTree} (h : tree.Sound) (call : Call) :
    Transaction tree call.path call.code (call.perform tree) := by
  unfold perform
  split
  · exact transaction_deliverNew h _ _ _
  · exact transaction_deliver h _ _ _

/-- Calls keep a tree sound. -/
theorem sound_performAll {tree : FileTree} (h : tree.Sound) (calls : List Call) :
    (performAll calls tree).Sound := by
  induction calls generalizing tree with
  | nil => exact h
  | cons call rest ih => exact ih ((transaction_perform h call).sound h)

theorem checked_perform {tree : FileTree} {call : Call}
    (hdone : (call.perform tree).1.outcome = .ok ()) : runCheck call.check call.code = .ok () := by
  unfold perform deliverNew at hdone
  split at hdone
  · split at hdone
    · cases hdone
    · exact runCheck_of_deliver hdone
  · exact runCheck_of_deliver hdone

/-- However many calls were made on a sound tree, the next one is a transaction. -/
theorem atomic_performAll {tree : FileTree} (h : tree.Sound) (calls : List Call) (call : Call) :
    (performAll calls tree).Sound ∧ call.Atomic (performAll calls tree) := by
  have hsound := sound_performAll h calls
  generalize performAll calls tree = before at hsound
  have htransaction := transaction_perform hsound call
  refine ⟨hsound, htransaction.failed, htransaction.done, checked_perform, ?_, ?_⟩
  · intro hnew hclear
    rw [perform, if_pos hnew]
    exact kept_of_deliverNew hsound hclear call.code call.check
  · intro hnew hup
    rw [perform, if_pos hnew]
    exact kept_of_deliverNew_of_no_up hsound hup call.code call.check

theorem atomic_afterOverwriting : oneFile.Sound ∧
    (performAll [⟨⟨false, ["b"]⟩, "mid", none, false⟩] oneFile).Sound ∧
    Atomic ⟨⟨false, ["a", "c"]⟩, "new", some validate, true⟩
      (performAll [⟨⟨false, ["b"]⟩, "mid", none, false⟩] oneFile) :=
  ⟨sound_oneFile, atomic_performAll sound_oneFile _ _⟩

/-- A path through a missing directory and back out of it replaces the file that stands at its
place, although it must be free. -/
theorem not_kept_throughMissingDirectory :
    oneFile.Sound ∧ oneFile.get? ["b"] = some (.file "old") ∧
      (perform ⟨⟨false, ["a", "..", "b"]⟩, "new", some fun _ => .ok (), true⟩ oneFile).1.outcome
        = .ok () ∧
      (perform ⟨⟨false, ["a", "..", "b"]⟩, "new", some fun _ => .ok (), true⟩ oneFile).2.get? ["b"]
        = some (.file "new") := by
  refine ⟨sound_oneFile, rfl, ?_, ?_⟩
  · rfl
  · rfl

end Call

end SchemaForge.Output
