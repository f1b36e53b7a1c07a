import SchemaForge.Generation
import SchemaForge.Output.Delivery

/-! # Generation to a file

Generates source text and delivers it to a file as the output options say. Nothing is delivered
where generation fails.
-/

namespace SchemaForge.Request

open Output

/-- The source text for a request, delivered to a path. -/
def generateTo (request : Request) (session : Formatter.Session) (tree : FileTree) (path : Path) :
    Traced String × FileTree :=
  let generated := (request.generate session).1
  match generated.outcome with
  | .error error => (⟨generated.events, .error error⟩, tree)
  | .ok code =>
    match request.settings.output.get "atomic_write" with
    | .error error => (⟨generated.events, .error error⟩, tree)
    | .ok output =>
      let (delivered, after) := deliverAs tree output path code
      (⟨generated.events ++ delivered.events, delivered.outcome.map fun _ => code⟩, after)

variable {request : Request} {session : Formatter.Session} {code : String}

theorem generateTo_of_error {error : Error}
    (h : (request.generate session).1.outcome = .error error) (tree : FileTree) (path : Path) :
    request.generateTo session tree path
      = (⟨(request.generate session).1.events, .error error⟩, tree) := by
  rw [generateTo]
  simp only [h]

theorem generateTo_of_no_options {error : Error}
    (h : (request.generate session).1.outcome = .ok code)
    (hget : request.settings.output.get "atomic_write" = .error error) (tree : FileTree)
    (path : Path) :
    request.generateTo session tree path
      = (⟨(request.generate session).1.events, .error error⟩, tree) := by
  rw [generateTo]
  simp only [h, hget]

theorem generateTo_of_ok {output : OutputSettings}
    (h : (request.generate session).1.outcome = .ok code)
    (hget : request.settings.output.get "atomic_write" = .ok output) (tree : FileTree)
    (path : Path) :
    request.generateTo session tree path
      = (⟨(request.generate session).1.events ++ (deliverAs tree output path code).1.events,
          (deliverAs tree output path code).1.outcome.map fun _ => code⟩,
        (deliverAs tree output path code).2) := by
  rw [generateTo]
  simp only [h, hget]

end SchemaForge.Request
