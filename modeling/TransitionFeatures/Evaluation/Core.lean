import TransitionFeatures.Evaluation.Reading

/-!
# Evaluating templates

The elements of a template are read from left to right.  An element with
properties contributes the value of each of them.  A bare element contributes
nothing by itself, but one bare element right after another contributes an
indicator: whether the focus of the first is a parent of the focus of the second.
Reading properties breaks such a chain.

The first step that fails decides the outcome, so a template has all its values
or none.  `Template.evaluate` evaluates one template by itself.
-/

namespace TransitionFeatures

/-- Whether one focus is a parent of another.  Actions have no relatives. -/
def Focus.isParentOf (graph : Graph) : Focus → Focus → Except Fault Bool
  | .node parent, .node child => do
    return (← graph.parents child).contains parent
  | _, _ => .ok false

/-- The value of an indicator. -/
def indicatorText (related : Bool) : String :=
  if related then "1" else "0"

/-- The indicator at a bare element, given the focus of the element before it if
that was bare as well. -/
def indicators (graph : Graph) (previous : Option Focus) (focus : Focus) :
    Except Fault (List String) :=
  match previous with
  | none => .ok []
  | some other => do
    return [indicatorText (← other.isParentOf graph focus)]

variable {m : Type → Type} [Monad m] [DerivedData m]

namespace Element

/-- The values of an element and the focus that it leaves to the next one. -/
def read (element : Element) (state : State) (previous : Option Focus) :
    ExceptT Halt m (List String × Option Focus) := do
  let focus ← element.focus state
  if element.isBare then
    return (← Halt.lookUp (indicators state.graph previous focus), some focus)
  else
    return (← element.properties.mapM (Property.read state focus), none)

/-- The values of elements in a row. -/
def readAll (state : State) (previous : Option Focus) :
    List Element → ExceptT Halt m (List String)
  | [] => return []
  | element :: rest => do
    let (values, left) ← element.read state previous
    return values ++ (← readAll state left rest)

@[simp]
theorem readAll_nil (state : State) (previous : Option Focus) :
    (readAll state previous [] : ExceptT Halt m (List String)) = pure [] :=
  rfl

theorem readAll_cons (state : State) (previous : Option Focus) (element : Element)
    (rest : List Element) :
    (readAll state previous (element :: rest) : ExceptT Halt m (List String)) = do
      let (values, left) ← element.read state previous
      return values ++ (← readAll state left rest) :=
  rfl

end Element

namespace Template

/-- The values of a template on a state, with access to derived data left open. -/
def read (template : Template) (state : State) : ExceptT Halt m (List String) :=
  Element.readAll state none template.elements

/-- The values of a template on a state, every walk made anew. -/
def evaluate (template : Template) (state : State) : Except Halt (List String) :=
  Id.run (template.read state).run

end Template

end TransitionFeatures
