import SchemaForge.Error

/-! # Traces

The events that a generation reports while it runs, and computations that report them. What a
computation yields does not depend on what was reported before it, and what was reported before a
failure stays reported.
-/

namespace SchemaForge

/-- Something that a generation reports. -/
inductive Event where
  | fieldRenamed (key struct name : String)
  | variantRenamed (text enum name : String)
  | oneOrManyDetected (location : String)
  | expanded (sourceName kind : String)
  | boxed (holder target : String)
  | rendered (count : Nat)
  | generated (count : Nat) (oneOrMany : Bool)
  | running (words : List String)
  | wrote (path : String)
deriving DecidableEq

namespace Event

/-- The part of the generator that an event comes from. -/
def origin : Event → String
  | fieldRenamed .. | variantRenamed .. | oneOrManyDetected .. | expanded .. => "analyzer.expander"
  | boxed .. => "analyzer.cycles"
  | rendered .. => "backends.rust_backend"
  | generated .. => "generator"
  | running .. => "formatters.rustfmt_formatter"
  | wrote .. => "writer.atomic_writer"

/-- The wording of an event. -/
def message : Event → String
  | fieldRenamed key struct name => s!"Field {Text.quote key} of {struct} renamed to {name}"
  | variantRenamed text enum name => s!"Variant {Text.quote text} of {enum} renamed to {name}"
  | oneOrManyDetected location => s!"Detected one-or-many pattern at {location}"
  | expanded sourceName kind => s!"Expanded {sourceName} into {kind}"
  | boxed holder target => s!"Boxed reference {holder} -> {target} to break a cycle"
  | rendered count => s!"Rendered {count} declarations"
  | generated count oneOrMany =>
    s!"Generated {count} declarations (one-or-many helper: {(Json.bool oneOrMany).shown})"
  | running words => "Running " ++ " ".intercalate words
  | wrote path => s!"Wrote {path}"

/-- The line that reports an event. -/
def line (event : Event) : String :=
  s!"DEBUG:json_schema_to_rust.pipeline.{event.origin}:{event.message}\n"

/-- Tells whether an event is the detection of the one-or-many pattern. -/
def isOneOrMany : Event → Bool
  | oneOrManyDetected _ => true
  | _ => false

end Event

/-- The outcome of a computation with the events it reported. -/
structure Traced (α : Type) where
  events : List Event
  outcome : Except Error α

namespace Traced

variable {α β : Type}

/-- Goes on with the value of a computation, if it has one. -/
def andThen (first : Traced α) (next : α → Traced β) : Traced β :=
  match first.outcome with
  | .error error => ⟨first.events, .error error⟩
  | .ok value => ⟨first.events ++ (next value).events, (next value).outcome⟩

instance : Monad Traced where
  pure value := ⟨[], .ok value⟩
  bind := andThen

/-- Reports an event. -/
def report (event : Event) : Traced Unit := ⟨[event], .ok ()⟩

/-- Reports an event if a condition holds. -/
def reportIf (condition : Bool) (event : Event) : Traced Unit :=
  ⟨if condition then [event] else [], .ok ()⟩

/-- A computation that reports nothing. -/
def quietly (outcome : Except Error α) : Traced α := ⟨[], outcome⟩

@[simp] theorem outcome_pure (value : α) : (pure value : Traced α).outcome = .ok value := rfl

@[simp] theorem events_pure (value : α) : (pure value : Traced α).events = [] := rfl

/-- The outcome of a sequence is a sequence of outcomes. -/
theorem outcome_bind (first : Traced α) (next : α → Traced β) :
    (first >>= next).outcome = first.outcome.bind fun value => (next value).outcome := by
  show (andThen first next).outcome = _
  unfold andThen
  cases first.outcome <;> rfl

end Traced

end SchemaForge
