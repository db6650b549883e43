import Mathlib.Logic.Basic
import TransitionFeatures.Evaluation.Core
import TransitionFeatures.Proofs.Results

/-!
# Evaluation with every walk made anew

Without a table there is no context to hand on, so what a template reads is a plain
result.  This module names the results for properties, elements and rows of elements
and writes each of them out in terms of those it is made from.
-/

namespace TransitionFeatures

open DerivedData

/-- A row of readings without a table. -/
theorem DerivedData.run_mapM {ε α β : Type} (read : β → ExceptT ε Id α) (items : List β) :
    Id.run (items.mapM read).run = items.mapM fun item => Id.run (read item).run := by
  induction items with
  | nil => rfl
  | cons first rest inductionHypothesis =>
    rw [List.mapM_cons, List.mapM_cons, run_bind]
    simp only [run_bind, inductionHypothesis]
    rfl

/-- The value of a property at a node that is known, undefined or not. -/
def Property.knownValue? (state : State) (id : NodeId) (node : Node) (property : Property) :
    Except Fault (Option String) :=
  Id.run (property.atKnownNode state id node).run

/-- The value of a property at a node, undefined or not. -/
def Property.nodeValue? (state : State) (id : NodeId) (property : Property) :
    Except Fault (Option String) :=
  Id.run (property.atNode state id).run

/-- The value that a property contributes at a focus. -/
def Property.value (state : State) (focus : Focus) (property : Property) :
    Except Halt String :=
  Id.run (property.read state focus).run

/-- The values of an element and the focus that it leaves to the next one. -/
def Element.values (element : Element) (state : State) (previous : Option Focus) :
    Except Halt (List String × Option Focus) :=
  Id.run (element.read state previous).run

/-- The values of elements in a row. -/
def Element.allValues (state : State) (previous : Option Focus) (elements : List Element) :
    Except Halt (List String) :=
  Id.run (Element.readAll state previous elements).run

theorem Template.evaluate_eq_allValues (template : Template) (state : State) :
    template.evaluate state = Element.allValues state none template.elements :=
  rfl

/-- A property without a value skips the template. -/
def Property.orSkip (property : Property) : Option String → Except Halt String
  | some value => .ok value
  | none => .error (.skip (.undefined property))

namespace Property

variable (state : State) (property : Property)

theorem nodeValue?_eq (id : NodeId) :
    property.nodeValue? state id =
      (state.graph.node id).bind fun node => property.knownValue? state id node := by
  unfold nodeValue? atNode
  rw [run_bind, run_liftM]
  rfl

theorem value_node (id : NodeId) :
    property.value state (.node id) =
      (Halt.lookUp (property.nodeValue? state id)).bind property.orSkip := by
  unfold value read
  rw [run_bind]
  apply congrArg₂ Except.bind rfl
  funext value?
  cases value? <;> rfl

theorem value_action (action : Action) :
    property.value state (.action action) =
      ((property.atAction action).mapError Halt.error).bind property.orSkip := by
  unfold value read
  rw [run_bind]
  apply congrArg₂ Except.bind rfl
  funext value?
  cases value? <;> rfl

end Property

/-! ## What a value depends on -/

/-- The separators are decided by the graph and the two stack tops. -/
theorem State.separators?_congr {m : Type → Type} [Monad m] [DerivedData m]
    {first second : State} (graphEq : first.graph = second.graph)
    (topsEq : first.stack.reverse.take 2 = second.stack.reverse.take 2) :
    (first.separators? : ExceptT Fault m _) = second.separators? := by
  unfold separators?
  rw [graphEq]
  generalize first.stack.reverse = entries at topsEq
  generalize second.stack.reverse = otherEntries at topsEq
  match entries, otherEntries with
  | [], [] | [_], [_] => rfl
  | _ :: _ :: _, _ :: _ :: _ =>
    cases topsEq
    rfl
  | [], _ :: _ | _ :: _, [] | [_], _ :: _ :: _ | _ :: _ :: _, [_] => cases topsEq

/-- With fewer than two stack entries there are no separators. -/
theorem State.separators?_of_length_lt {m : Type → Type} [Monad m] [DerivedData m]
    {state : State} (short : state.stack.length < 2) :
    (state.separators? : ExceptT Fault m _) = pure none := by
  rw [← List.length_reverse] at short
  unfold separators?
  generalize state.stack.reverse = entries at short
  match entries with
  | [] | [_] => rfl
  | _ :: _ :: rest => exact absurd short (Nat.not_lt_of_le (Nat.le_add_left 2 rest.length))

namespace Property

/-- The value of a property at a node is decided by the graph, and for the separators by the two
stack tops. -/
theorem nodeValue?_congr {first second : State} (graphEq : first.graph = second.graph)
    {property : Property}
    (topsEq : property.isSeparator = true →
      first.stack.reverse.take 2 = second.stack.reverse.take 2) (id : NodeId) :
    property.nodeValue? first id = property.nodeValue? second id := by
  rw [nodeValue?_eq, nodeValue?_eq, graphEq]
  apply congrArg
  funext node
  unfold knownValue? atKnownNode
  cases property with
  | separator | separatorCount =>
    dsimp only
    rw [State.separators?_congr graphEq (topsEq rfl)]
  | parentCount | childCount => rfl
  | _ =>
    dsimp only
    rw [graphEq]

theorem nodeValue?_of_node {state : State} {id : NodeId} {node : Node}
    (found : state.graph.node id = .ok node) (property : Property) :
    property.nodeValue? state id = property.knownValue? state id node := by
  rw [nodeValue?_eq, found]
  rfl

theorem value_of_node {state : State} {id : NodeId} {node : Node}
    (found : state.graph.node id = .ok node) (property : Property) :
    property.value state (.node id) =
      (Halt.lookUp (property.knownValue? state id node)).bind property.orSkip := by
  rw [value_node, nodeValue?_of_node found]

/-- Nothing lies between the tops of a stack that does not have two. -/
theorem nodeValue?_of_length_lt {state : State} {property : Property}
    (separator : property.isSeparator = true) (short : state.stack.length < 2) (id : NodeId) :
    property.nodeValue? state id = (state.graph.node id).map fun _ => none := by
  have nothing : ∀ node, property.knownValue? state id node = .ok none := by
    intro node
    unfold knownValue? atKnownNode
    cases property with
    | separator | separatorCount =>
      dsimp only
      rw [State.separators?_of_length_lt short]
      rfl
    | _ => cases separator
  rw [nodeValue?_eq]
  simp only [nothing]
  cases state.graph.node id <;> rfl

end Property

namespace Element

variable (state : State) (previous : Option Focus)

/-- A bare element contributes its indicator and leaves its focus; an element with
properties contributes their values and leaves none. -/
theorem values_eq (element : Element) :
    element.values state previous =
      (element.focus state).bind fun focus =>
        if element.isBare then
          (Halt.lookUp (indicators state.graph previous focus)).map fun values =>
            (values, some focus)
        else
          (element.properties.mapM (Property.value state focus)).map fun values =>
            (values, none) := by
  unfold values read
  rw [run_bind, run_liftM]
  apply congrArg₂ Except.bind rfl
  funext focus
  by_cases bare : element.isBare = true
  · rw [if_pos bare, if_pos bare, run_bind, run_liftM]
    cases Halt.lookUp (indicators state.graph previous focus) <;> rfl
  · rw [if_neg bare, if_neg bare, run_bind, run_mapM]
    change Except.bind (element.properties.mapM (Property.value state focus)) _ = _
    cases element.properties.mapM (Property.value state focus) <;> rfl

theorem allValues_cons (element : Element) (rest : List Element) :
    allValues state previous (element :: rest) =
      (element.values state previous).bind fun (values, left) =>
        (allValues state left rest).map (values ++ ·) := by
  unfold allValues
  rw [readAll_cons, run_bind]
  apply congrArg₂ Except.bind rfl
  funext (values, left)
  dsimp only
  rw [run_bind]
  generalize Id.run (readAll state left rest).run = later
  cases later <;> rfl

variable {state previous}

/-- A row with values has a focus for every element and a value for every property. -/
theorem exists_focus_of_values_eq_ok {element : Element} {result : List String × Option Focus}
    (evaluated : element.values state previous = .ok result) :
    ∃ focus, element.focus state = .ok focus ∧
      ∀ property ∈ element.properties, ∃ value, property.value state focus = .ok value := by
  rw [values_eq] at evaluated
  rcases bind_eq_ok_iff.mp evaluated with ⟨focus, focused, contributed⟩
  refine ⟨focus, focused, ?_⟩
  by_cases bare : element.isBare = true
  · rw [List.isEmpty_iff.mp bare]
    exact nofun
  · rw [if_neg bare] at contributed
    rcases map_eq_ok_iff.mp contributed with ⟨values, read, _⟩
    exact exists_mapM_eq_ok_iff.mp ⟨values, read⟩

theorem exists_values_of_allValues_eq_ok {elements : List Element} {values : List String}
    (evaluated : allValues state previous elements = .ok values) :
    ∀ element ∈ elements, ∃ before result, element.values state before = .ok result := by
  induction elements generalizing previous values with
  | nil => exact nofun
  | cons first rest inductionHypothesis =>
    rw [allValues_cons] at evaluated
    rcases bind_eq_ok_iff.mp evaluated with ⟨contribution, firstValues, restEvaluated⟩
    rcases map_eq_ok_iff.mp restEvaluated with ⟨later, restValues, _⟩
    exact List.forall_mem_cons.mpr
      ⟨⟨previous, contribution, firstValues⟩, inductionHypothesis restValues⟩

/-- An element ends as its focus and what it contributes there do. -/
theorem values_ends {element : Element} {property : Focus → Prop} {failure : Halt → Prop}
    (focusEnds : Ends property failure (element.focus state))
    (indicatorsEnd : ∀ focus, property focus →
      Ends (fun _ => True) failure (Halt.lookUp (indicators state.graph previous focus)))
    (valuesEnd : ∀ focus, property focus → ∀ read ∈ element.properties,
      Ends (fun _ => True) failure (read.value state focus)) :
    Ends (fun _ => True) failure (element.values state previous) := by
  rw [values_eq]
  apply focusEnds.bind
  intro focus holds
  by_cases bare : element.isBare = true
  · rw [if_pos bare]
    exact (indicatorsEnd focus holds).map fun _ _ => trivial
  · rw [if_neg bare]
    exact (Ends.mapM (valuesEnd focus holds)).map fun _ _ => trivial

/-- Elements in a row end as the single ones do. -/
theorem allValues_ends {elements : List Element} {failure : Halt → Prop}
    (ends : ∀ element ∈ elements, ∀ previous,
      Ends (fun _ => True) failure (element.values state previous)) :
    Ends (fun _ => True) failure (allValues state previous elements) := by
  induction elements generalizing previous with
  | nil => trivial
  | cons element rest inductionHypothesis =>
    rw [List.forall_mem_cons] at ends
    rw [allValues_cons]
    apply (ends.1 previous).bind
    rintro ⟨values, left⟩ _
    exact (inductionHypothesis ends.2).map fun _ _ => trivial

end Element

end TransitionFeatures
