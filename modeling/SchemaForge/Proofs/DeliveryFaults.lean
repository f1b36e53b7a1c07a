import SchemaForge.Output.Delivery

/-! # What delivery refuses

Delivery fails on paths and on files that exist, but it refuses code only where the check refuses
it.
-/

namespace SchemaForge.Output

/-- An outcome that is no refusal of code. -/
def Unrefused {α : Type} (outcome : Except Error α) : Prop :=
  ∀ fault, outcome ≠ .error (.invalidOutput fault)

theorem unrefused_ok {α : Type} (value : α) : Unrefused (.ok value : Except Error α) := by
  intro fault h
  cases h

theorem unrefused_file {α : Type} (fault : FileFault) (path : String) :
    Unrefused (.error (.file fault path) : Except Error α) := by
  intro refusal h
  cases h

/-- What an outcome without a value would have been does not matter. -/
theorem Unrefused.error {α β : Type} {error : Error}
    (h : Unrefused (.error error : Except Error α)) :
    Unrefused (.error error : Except Error β) := by
  intro fault heq
  cases heq
  exact h fault rfl

theorem Unrefused.bind {α β : Type} {first : Except Error α} {next : α → Except Error β}
    (hfirst : Unrefused first) (hnext : ∀ value, Unrefused (next value)) :
    Unrefused (first >>= next) := by
  cases first with
  | error error => exact hfirst.error
  | ok value => exact hnext value

theorem unrefused_mapError {α : Type} (outcome : Except FileFault α) (path : String) :
    Unrefused (outcome.mapError fun fault => Error.file fault path) := by
  cases outcome with
  | error fault => exact unrefused_file fault path
  | ok value => exact unrefused_ok value

theorem unrefused_ensureDirectory (tree : FileTree) (path : Path) (location : Location) :
    Unrefused (tree.ensureDirectory path location).1 := by
  unfold FileTree.ensureDirectory
  split
  · exact unrefused_ok _
  · exact unrefused_ok _
  · exact unrefused_file _ _

theorem unrefused_makeDirectoriesUp (tree : FileTree) (absolute : Bool) (steps : List String) :
    Unrefused (tree.makeDirectoriesUp absolute steps).1 := by
  induction steps with
  | nil => exact unrefused_ok _
  | cons last above ih =>
    rw [FileTree.makeDirectoriesUp]
    split
    · exact unrefused_ensureDirectory tree _ _
    · split
      · rename_i error after heq
        rw [heq] at ih
        exact ih
      · split
        · exact unrefused_ensureDirectory _ _ _
        · exact unrefused_file _ _
    · exact unrefused_file _ _

theorem unrefused_moveFile (tree : FileTree) (source : Location) (path : Path) :
    Unrefused (tree.moveFile source path) := by
  refine (unrefused_mapError _ _).bind fun target => ?_
  dsimp only
  split
  · exact unrefused_file _ _
  · split
    · exact unrefused_file _ _
    · exact unrefused_ok _
    · exact unrefused_file _ _

theorem unrefused_requireFree (tree : FileTree) (path : Path) :
    Unrefused (requireFree tree path) := by
  refine Unrefused.bind ?_ fun taken => ?_
  · unfold FileTree.isTaken
    split
    · exact unrefused_ok _
    · exact unrefused_file _ _
    · exact unrefused_ok _
  · split
    · intro fault h
      cases h
    · exact unrefused_ok _

theorem unrefused_writeFile (tree : FileTree) (path : Path) (text : String) :
    Unrefused (tree.writeFile path text).1 := by
  unfold FileTree.writeFile
  split
  · exact unrefused_file _ _
  · split
    · exact unrefused_file _ _
    · exact unrefused_ok _

/-- Code that its check accepts is not refused. -/
theorem unrefused_deliver {check : Option Check} {code : String} (hcheck : runCheck check code = .ok ())
    (tree : FileTree) (path : Path) : Unrefused (deliver tree path code check).1.outcome := by
  unfold deliver
  have hmade := unrefused_makeDirectoriesUp tree path.parent.absolute path.parent.steps.reverse
  split
  · rename_i error made heq
    rw [FileTree.makeDirectories] at heq
    rw [heq] at hmade
    exact hmade.error
  · rename_i directory made heq
    split
    · exact unrefused_file _ _
    · rename_i temporary hlocate
      -- the check passes, so what is left is the fate of the temporary file
      have hmoved : Unrefused (runCheck check code >>= fun _ =>
          (made.put temporary (.file code)).moveFile temporary path) := by
        rw [hcheck]
        exact unrefused_moveFile _ _ _
      dsimp only
      split
      · exact unrefused_ok _
      · rename_i error hfailed
        rw [hfailed] at hmoved
        exact hmoved.error

/-- A refusal of the check is what delivery fails with, once there is a place to write to. -/
theorem outcome_deliver_of_refused {tree made : FileTree} {path : Path} {code : String}
    {check : Option Check} {directory temporary : Location} {error : Error}
    (hmade : tree.makeDirectories path.parent = (.ok directory, made))
    (hlocate : made.locate (temporaryPath made directory path.name) = .ok temporary)
    (hcheck : runCheck check code = .error error) :
    (deliver tree path code check).1.outcome = .error error := by
  rw [deliver, hmade]
  dsimp only
  rw [hlocate, hcheck]
  rfl

theorem deliverNew_of_free {tree : FileTree} {path : Path} (hfree : requireFree tree path = .ok ())
    (code : String) (check : Option Check) :
    deliverNew tree path code check = deliver tree path code check := by
  rw [deliverNew, hfree]

/-- With default options an existing output is an error, and code is checked. -/
theorem deliverAs_default (tree : FileTree) (path : Path) (code : String) :
    deliverAs tree {} path code = deliverNew tree path code (some validate) := rfl

/-- However it is written, code that validation accepts is not refused. -/
theorem unrefused_deliverAs {code : String} (h : validate code = .ok ()) (tree : FileTree)
    (settings : OutputSettings) (path : Path) :
    Unrefused (deliverAs tree settings path code).1.outcome := by
  have hcheck : runCheck (if settings.validateBeforeWrite.isOn then some validate else none) code
      = .ok () := by
    split
    · rw [runCheck, h]
      rfl
    · rfl
  have hfree := unrefused_requireFree tree path
  have hdeliver := unrefused_deliver hcheck tree path
  unfold deliverAs
  split
  · dsimp only
    split
    · unfold deliverNew
      split
      · rename_i error hrequire
        rw [hrequire] at hfree
        exact hfree.error
      · exact hdeliver
    · exact hdeliver
  · split
    · rename_i error hrequire
      split at hrequire
      · rw [hrequire] at hfree
        exact hfree.error
      · cases hrequire
    · exact unrefused_writeFile tree path code

end SchemaForge.Output
