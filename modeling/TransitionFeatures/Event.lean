import TransitionFeatures.Evaluation.Outcome
import TransitionFeatures.Text.Quoted

/-!
# Events

Compiling templates and running them report what happened as events.  An event is
its cause; its level, message and fields are functions of that.
-/

namespace TransitionFeatures

/-- The importance of an event. -/
inductive Level
  | warn
  | debug
  | trace
  deriving DecidableEq

/-- The name of a level in reports. -/
def Level.name : Level → String
  | warn => "WARN"
  | debug => "DEBUG"
  | trace => "TRACE"

/-- Something that happened while templates were compiled or run. -/
inductive Event
  /-- A template set was compiled. -/
  | compiled (templates elements : Nat)
  /-- A template set was refused because of some descriptors. -/
  | rejected (descriptors : List String)
  /-- A template had no values on the state. -/
  | skipped (template : String) (reason : SkipReason)
  deriving DecidableEq

namespace Event

/-- The level at which an event is reported. -/
def level : Event → Level
  | compiled .. => .debug
  | rejected .. => .warn
  | skipped .. => .trace

/-- The text of an event. -/
def message : Event → String
  | compiled .. => "compiled feature templates"
  | rejected .. => "rejected feature templates"
  | skipped .. => "feature skipped"

/-- The names and texts of what an event carries besides its message, for what can be
printed beyond ASCII. -/
def fields (printable : Char → Bool) : Event → List (String × String)
  | compiled templates elements =>
    [("templates", toString templates), ("elements", toString elements)]
  | rejected descriptors =>
    [("count", toString descriptors.length),
      ("descriptors", Text.Quoted.quoteList printable descriptors)]
  | skipped template reason =>
    [("template", template), ("reason", reason.description)]

end Event

/-- A result with the events on the way to it, the earliest first. -/
structure Logged (α : Type) where
  result : α
  events : List Event

/-- Go on from a result without further events. -/
def Logged.andThen {ε α β : Type} (logged : Logged (Except ε α)) (next : α → Except ε β) :
    Logged (Except ε β) :=
  { result := logged.result.bind next, events := logged.events }

end TransitionFeatures
