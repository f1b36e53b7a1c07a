import SchemaForge.Proofs.DeliveryFaults
import SchemaForge.Proofs.KeptOutputs
import SchemaForge.Proofs.RunTransactions

/-! # Checked outputs

Where output options ask for a check, delivery through a temporary file lets no text pass that
validation refuses: the refusal is told and no file changes, unless no text could be written to the
path at all. Delivery in place does not check and writes such a text.
-/

namespace SchemaForge

namespace Output

/-! ## Refused texts -/

/-- A delivery fails for the text, and with the refusal, unless it fails alike for every text. -/
def Refuses (delivery : String → Except Error Unit) (code : String) (refusal : Error) : Prop :=
  ∃ error, delivery code = .error error ∧
    (error = refusal ∨ ∀ other, delivery other = .error error)

theorem Refuses.of_forall {delivery : String → Except Error Unit} {error : Error}
    (h : ∀ other, delivery other = .error error) (code : String) (refusal : Error) :
    Refuses delivery code refusal :=
  ⟨error, h code, .inr h⟩

section Check

variable {code : String} {check : Option Check} {refusal : Error}

theorem refuses_deliver (hcheck : runCheck check code = .error refusal) (tree : FileTree)
    (path : Path) :
    Refuses (fun other => (deliver tree path other check).1.outcome) code refusal := by
  rcases hmade : tree.makeDirectories path.parent with ⟨error | directory, made⟩
  · have hfails : ∀ other, (deliver tree path other check).1.outcome = .error error := by
      intro other
      rw [deliver, hmade]
      rfl
    exact .of_forall hfails code refusal
  · cases hlocate : made.locate (temporaryPath made directory path.name) with
    | error fault =>
      have hfails : ∀ other, (deliver tree path other check).1.outcome
          = .error (.file fault path.text) := by
        intro other
        rw [deliver, hmade]
        dsimp only
        rw [hlocate]
        rfl
      exact .of_forall hfails code refusal
    | ok temporary =>
      exact ⟨refusal, outcome_deliver_of_refused hmade hlocate hcheck, .inl rfl⟩

theorem refuses_deliverNew (hcheck : runCheck check code = .error refusal) (tree : FileTree)
    (path : Path) :
    Refuses (fun other => (deliverNew tree path other check).1.outcome) code refusal := by
  cases hrequire : requireFree tree path with
  | error error =>
    have hfails : ∀ other, (deliverNew tree path other check).1.outcome = .error error := by
      intro other
      rw [deliverNew, hrequire]
      rfl
    exact .of_forall hfails code refusal
  | ok free =>
    simp only [deliverNew_of_free hrequire]
    exact refuses_deliver hcheck tree path

end Check

section Options

variable {output : OutputSettings} (hatomic : output.atomicWrite.isOn = true)
  (hasked : output.validateBeforeWrite.isOn = true) (tree : FileTree) (path : Path)

include hatomic hasked

theorem deliverAs_of_asked (code : String) :
    deliverAs tree output path code =
      if keepsExisting output then deliverNew tree path code (some validate)
      else deliver tree path code (some validate) := by
  rw [deliverAs, if_pos hatomic]
  simp only [hasked, if_true]

/-- In both modes, what validation refuses is refused. -/
theorem refuses_deliverAs {code : String} {fault : OutputFault}
    (hfault : validate code = .error fault) :
    Refuses (fun other => (deliverAs tree output path other).1.outcome) code
      (.invalidOutput fault) := by
  have hcheck : runCheck (some validate) code = .error (.invalidOutput fault) := by
    rw [runCheck, hfault]
    rfl
  simp only [deliverAs_of_asked hatomic hasked]
  split
  · exact refuses_deliverNew hcheck tree path
  · exact refuses_deliver hcheck tree path

/-- In both modes, what is delivered is accepted. -/
theorem validate_of_deliverAs {code : String}
    (hdone : (deliverAs tree output path code).1.outcome = .ok ()) : validate code = .ok () := by
  cases hvalid : validate code with
  | ok accepted => rfl
  | error fault =>
    obtain ⟨error, hfailed, -⟩ := refuses_deliverAs hatomic hasked tree path hvalid
    cases hdone.symm.trans hfailed

end Options

end Output

namespace Request

open Output FileTree

/-- Generation to a file with a check of the text. What it writes is accepted, and a text that is
refused is not written: at most directories were made, and the error is the refusal, unless no text
can be delivered to the path. -/
structure Checked (request : Request) (session : Formatter.Session) (before : FileTree)
    (path : Path) : Prop where
  accepted : ∀ code, (request.generateTo session before path).1.outcome = .ok code →
    validate code = .ok () ∧
      (request.generateTo session before path).2.find? path = some (.file code)
  refused : ∀ output code fault, request.settings.output.get "atomic_write" = .ok output →
    (request.generate session).1.outcome = .ok code → validate code = .error fault →
      Grown before (request.generateTo session before path).2 path.parent ∧
      ∃ error, (request.generateTo session before path).1.outcome = .error error ∧
        (error = .invalidOutput fault ∨
          ∀ other, (deliverAs before output path other).1.outcome = .error error)

/-- Where a check is asked for and delivery goes through a temporary file, every text that is
generated is checked before it is written, whatever it is generated from and whether an existing
output is kept or not. -/
theorem checked_generateTo {request : Request} {output : OutputSettings}
    (hget : request.settings.output.get "atomic_write" = .ok output)
    (hasked : output.validateBeforeWrite.isOn = true) (hatomic : output.atomicWrite.isOn = true)
    {tree : FileTree} (hsound : tree.Sound) (session : Formatter.Session) (path : Path) :
    request.Checked session tree path := by
  have htransaction := fileTransaction_generateTo hsound request session path
  constructor
  · intro code hdone
    obtain ⟨hcode, hwritten⟩ := htransaction.done code hdone
    rw [generateTo_of_ok hcode hget] at hdone
    obtain ⟨_, hdelivered, -⟩ := map_eq_ok.mp hdone
    exact ⟨validate_of_deliverAs hatomic hasked tree path hdelivered, hwritten.found⟩
  · intro other code fault hother hcode hfault
    obtain rfl : output = other := Except.ok.inj (hget.symm.trans hother)
    obtain ⟨error, hfailed, hcause⟩ := refuses_deliverAs hatomic hasked tree path hfault
    have hresult : (request.generateTo session tree path).1.outcome = .error error := by
      rw [generateTo_of_ok hcode hget]
      dsimp only at hfailed ⊢
      rw [hfailed]
      rfl
    exact ⟨htransaction.failed error hresult, error, hresult, hcause⟩

/-- The source text for a document that declares nothing. -/
def nothingDeclared : String :=
  Rust.Style.sourceText [Rust.Style.announcement, Rust.Style.serdeImport]

theorem generate_nothing : (generate ⟨.obj [], none, {}⟩ {}).1.outcome = .ok nothingDeclared := by
  cbv

theorem validate_nothingDeclared : validate nothingDeclared = .error .noDeclarations := by
  apply validate_eq_noDeclarations (Rust.toList_sourceText (by decide) (by decide))
  case hended =>
    repeat apply ended_cons
    exact ended_nil
  case hnone => decide +kernel

theorem checked_nothingDeclared :
    ({} : Settings).output.get "atomic_write" = .ok {} ∧ oneFile.Sound ∧
      (generate ⟨.obj [], none, {}⟩ {}).1.outcome = .ok nothingDeclared ∧
      validate nothingDeclared = .error .noDeclarations ∧
      Checked ⟨.obj [], none, {}⟩ {} oneFile ⟨false, ["out.rs"]⟩ :=
  ⟨rfl, sound_oneFile, generate_nothing, validate_nothingDeclared,
    checked_generateTo rfl rfl rfl sound_oneFile {} _⟩

/-- What is written in place is not checked, although the options ask for it. -/
theorem not_checked_inPlace :
    inPlace.output.get "atomic_write" = .ok { atomicWrite := .bool false } ∧
      ({ atomicWrite := .bool false } : OutputSettings).validateBeforeWrite.isOn = true ∧
      (generateTo ⟨.obj [], none, inPlace⟩ {} {} ⟨false, ["out.rs"]⟩).1.outcome
        = .ok nothingDeclared ∧
      (generateTo ⟨.obj [], none, inPlace⟩ {} {} ⟨false, ["out.rs"]⟩).2.find? ⟨false, ["out.rs"]⟩
        = some (.file nothingDeclared) ∧
      validate nothingDeclared = .error .noDeclarations := by
  have hcode : (generate ⟨.obj [], none, inPlace⟩ {}).1.outcome = .ok nothingDeclared := by cbv
  have hresult := generateTo_of_ok hcode rfl {} ⟨false, ["out.rs"]⟩
  refine ⟨rfl, rfl, ?_, ?_, validate_nothingDeclared⟩
  · rw [hresult]
    rfl
  · rw [hresult]
    rfl

end Request

end SchemaForge
