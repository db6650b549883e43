import TransitionFeatures.Evaluation.Focus

/-!
# What an element looks at

The source of an element decides what kind of focus it has: an element of the
actions looks at an action and every other one at a node.  An index is compared with
the length of the source and with nothing else.
-/

namespace TransitionFeatures

/-- How many entries a source has on a state. -/
def State.sourceLength (state : State) : Source → Nat
  | .stack => state.stack.length
  | .buffer => state.buffer.length
  | .actions => state.actions.length

namespace Element

variable {element : Element} {state : State}

/-- Nothing is selected at an index, however large, that is not below the length of the
source. -/
theorem select?_eq_none_iff :
    element.select? state = none ↔ state.sourceLength element.source ≤ element.index := by
  unfold select? State.sourceLength
  cases element.source <;> simp

theorem focus_of_sourceLength_le (beyond : state.sourceLength element.source ≤ element.index) :
    element.focus state = .error (.skip (.outOfRange element.source element.index)) := by
  unfold focus
  rw [select?_eq_none_iff.mpr beyond]

/-- Only the actions are a source of actions. -/
theorem source_eq_actions_of_select? {action : Action}
    (selected : element.select? state = some (.action action)) :
    element.source = .actions := by
  unfold select? at selected
  split at selected
  · simp at selected
  · simp at selected
  · assumption

theorem source_ne_actions_of_select? {id : NodeId}
    (selected : element.select? state = some (.node id)) : element.source ≠ .actions := by
  unfold select? at selected
  split at selected
  · simp_all
  · simp_all
  · simp at selected

/-- The focus is what is selected, a node after the walk from it. -/
theorem focus_eq_ok_iff {focus : Focus} :
    element.focus state = .ok focus ↔
      (∃ start id, element.select? state = some (.node start) ∧
        Navigation.walk state.graph start element.navigation = .ok id ∧
          focus = .node id) ∨
      ∃ action, element.select? state = some (.action action) ∧
        element.navigation = [] ∧ focus = .action action := by
  unfold Element.focus
  split
  · rename_i nothing
    simp [nothing]
  · rename_i start selected
    cases reached : Navigation.walk state.graph start element.navigation with
    | error halt => simp [selected, reached, Except.map]
    | ok id => simp [selected, reached, Except.map, eq_comm]
  · rename_i action selected
    cases steps : element.navigation with
    | nil => simp [selected, eq_comm]
    | cons step rest => simp [selected]

theorem source_eq_actions_of_focus_eq_action {action : Action}
    (focused : element.focus state = .ok (.action action)) : element.source = .actions := by
  rcases focus_eq_ok_iff.mp focused with ⟨_, _, _, _, nodeFocus⟩ | ⟨_, selected, _⟩
  · cases nodeFocus
  · exact source_eq_actions_of_select? selected

theorem source_ne_actions_of_focus_eq_node {id : NodeId}
    (focused : element.focus state = .ok (.node id)) : element.source ≠ .actions := by
  rcases focus_eq_ok_iff.mp focused with ⟨_, _, selected, _⟩ | ⟨_, _, _, actionFocus⟩
  · exact source_ne_actions_of_select? selected
  · cases actionFocus

end Element

end TransitionFeatures
