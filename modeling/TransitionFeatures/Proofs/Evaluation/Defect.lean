import TransitionFeatures.Proofs.Evaluation.Anew
import TransitionFeatures.Proofs.Evaluation.Focus

/-!
# Defective elements

Actions have no relatives and no properties but their kind and their tag.  An element of
the actions that asks for more is defective, and its error can be read off the element:
`Element.defect?`.  Whether an evaluation gets as far as a defective element depends on the
state, but if it ends in an error that is no fault of the graph, the error is that of the
first such element: `Template.evaluate_accountedBy`.
-/

namespace TransitionFeatures

/-! ## Defects -/

/-- The error of an action that is asked for a property, if it never has it. -/
def Property.actionDefect? : Property → Option EvalError
  | text | edgeTag => none
  | property => some (.unknownProperty .actions property)

theorem Property.actionDefect?_eq_none_iff {property : Property} :
    property.actionDefect? = none ↔ property = .text ∨ property = .edgeTag := by
  cases property <;> simp [actionDefect?]

namespace Element

/-- An element of the actions with navigation or with a property that is neither the kind
nor the tag. -/
def Defective (element : Element) : Prop :=
  element.source = .actions ∧
    (element.navigation ≠ [] ∨
      ∃ property ∈ element.properties, property ≠ .text ∧ property ≠ .edgeTag)

instance (element : Element) : Decidable element.Defective :=
  inferInstanceAs (Decidable (element.source = .actions ∧
    (element.navigation ≠ [] ∨
      ∃ property ∈ element.properties, property ≠ .text ∧ property ≠ .edgeTag)))

/-- The error of a defective element: its first step, or without steps its first property
that actions do not have. -/
def defect? (element : Element) : Option EvalError :=
  match element.source, element.navigation with
  | .actions, step :: _ => some (.actionNavigation step)
  | .actions, [] => element.properties.findSome? Property.actionDefect?
  | _, _ => none

theorem defect?_of_source_ne_actions {element : Element} (other : element.source ≠ .actions) :
    element.defect? = none := by
  unfold defect?
  split
  · exact absurd ‹_› other
  · exact absurd ‹_› other
  · rfl

theorem defect?_of_navigation_eq_nil {element : Element} (actions : element.source = .actions)
    (still : element.navigation = []) :
    element.defect? = element.properties.findSome? Property.actionDefect? := by
  simp only [defect?, actions, still]

theorem defect?_of_navigation_eq_cons {element : Element} {step : Navigation}
    {steps : List Navigation} (actions : element.source = .actions)
    (moving : element.navigation = step :: steps) :
    element.defect? = some (.actionNavigation step) := by
  simp only [defect?, actions, moving]

theorem defect?_eq_none_iff {element : Element} :
    element.defect? = none ↔ ¬ element.Defective := by
  by_cases actions : element.source = .actions
  · cases moves : element.navigation with
    | nil =>
      rw [defect?_of_navigation_eq_nil actions moves, List.findSome?_eq_none_iff]
      simp only [Property.actionDefect?_eq_none_iff, Defective, actions, moves, ne_eq,
        not_true_eq_false, true_and, false_or, not_exists, not_and, not_not]
      constructor
      · intro provided property member notText
        exact (provided property member).resolve_left notText
      · intro provided property member
        exact or_iff_not_imp_left.mpr (provided property member)
    | cons step steps =>
      rw [defect?_of_navigation_eq_cons actions moves]
      simp [Defective, actions, moves]
  · rw [defect?_of_source_ne_actions actions]
    simp [Defective, actions]

end Element

/-- The error of the first defective element of a template. -/
def Template.defect? (template : Template) : Option EvalError :=
  template.elements.findSome? Element.defect?

/-! ## Accounting for errors -/

/-- An evaluation that has values had no defect to meet, and one that ends in an error met
the defect or a fault of the graph. -/
def AccountedBy {α : Type} (defect? : Option EvalError) : Except Halt α → Prop
  | .ok _ => defect? = none
  | .error (.skip _) => True
  | .error (.error error) => (∃ cause, error = .fault cause) ∨ defect? = some error

theorem findSome?_cons_eq_or {α β : Type} (find? : α → Option β) (first : α) (rest : List α) :
    (first :: rest).findSome? find? = (find? first).or (rest.findSome? find?) := by
  rw [List.findSome?_cons]
  cases find? first <;> rfl

namespace AccountedBy

variable {α β : Type} {defect? otherDefect? : Option EvalError}

theorem lookUp (found : Except Fault α) : AccountedBy none (Halt.lookUp found) := by
  cases found with
  | ok value => rfl
  | error cause => exact Or.inl ⟨cause, rfl⟩

theorem bind {result : Except Halt α} {later : α → Except Halt β}
    (accounted : AccountedBy defect? result)
    (laterAccounted : ∀ value, result = .ok value → AccountedBy otherDefect? (later value)) :
    AccountedBy (defect?.or otherDefect?) (result.bind later) := by
  cases result with
  | ok value =>
    rw [show defect? = none from accounted, Option.none_or]
    exact laterAccounted value rfl
  | error halt =>
    cases halt with
    | skip reason => trivial
    | error error =>
      rcases accounted with faulty | met
      · exact Or.inl faulty
      · exact Or.inr (by rw [met, Option.some_or])

theorem map {change : α → β} {result : Except Halt α}
    (accounted : AccountedBy defect? result) : AccountedBy defect? (result.map change) := by
  rcases result with (reason | error) | value <;> exact accounted

theorem mapM {read : α → Except Halt β} {defectOf? : α → Option EvalError} {items : List α}
    (accounted : ∀ item ∈ items, AccountedBy (defectOf? item) (read item)) :
    AccountedBy (items.findSome? defectOf?) (items.mapM read) := by
  induction items with
  | nil => rfl
  | cons first rest inductionHypothesis =>
    rw [List.forall_mem_cons] at accounted
    rw [List.mapM_cons, findSome?_cons_eq_or]
    apply accounted.1.bind
    intro value _
    exact (inductionHypothesis accounted.2).map

end AccountedBy

/-! ## Evaluations -/

namespace Navigation

/-- A step from a node is possible, or not, but never an error of the template. -/
theorem move_accountedBy (graph : Graph) (id : NodeId) (step : Navigation) :
    AccountedBy none (move graph id step) := by
  have settled : ∀ (found : Except Fault (List NodeId))
      (choose : List NodeId → Except SkipReason NodeId),
      AccountedBy none ((Halt.lookUp found).bind fun nodes => (choose nodes).mapError .skip) := by
    intro found choose
    apply (AccountedBy.lookUp found).bind
    intro nodes _
    cases choose nodes with
    | ok next => rfl
    | error reason => trivial
  cases step with
  | leftmostChild => exact settled (graph.children id) (stepDown id .leftmostChild)
  | rightmostChild => exact settled (graph.children id) (stepDown id .rightmostChild)
  | onlyChild => exact settled (graph.children id) (stepDown id .onlyChild)
  | parent => exact settled (graph.parents id) stepUp

theorem walk_accountedBy (graph : Graph) (id : NodeId) (steps : List Navigation) :
    AccountedBy none (walk graph id steps) := by
  induction steps generalizing id with
  | nil => rfl
  | cons step rest inductionHypothesis =>
    rw [walk_cons]
    exact (move_accountedBy graph id step).bind fun next _ => inductionHypothesis next

end Navigation

namespace Property

variable (state : State) (property : Property)

theorem orSkip_accountedBy (value? : Option String) :
    AccountedBy none (property.orSkip value?) := by
  cases value? with
  | none => trivial
  | some value => rfl

theorem value_node_accountedBy (id : NodeId) :
    AccountedBy none (property.value state (.node id)) := by
  rw [value_node]
  apply (AccountedBy.lookUp _).bind
  exact fun value? _ => property.orSkip_accountedBy value?

theorem value_action_accountedBy (action : Action) :
    AccountedBy property.actionDefect? (property.value state (.action action)) := by
  rw [value_action]
  cases property with
  | text => rfl
  | edgeTag => exact orSkip_accountedBy .edgeTag action.tag?
  | _ => exact Or.inr rfl

end Property

namespace Element

variable (state : State) (previous : Option Focus)

/-- On the way to its focus an element meets no error but a step from an action. -/
theorem focus_eq_error {element : Element} {error : EvalError}
    (failed : element.focus state = .error (.error error)) :
    (∃ cause, error = .fault cause) ∨ element.defect? = some error := by
  unfold focus at failed
  split at failed
  · cases failed
  · rename_i start _
    have accounted := Navigation.walk_accountedBy state.graph start element.navigation
    cases walked : Navigation.walk state.graph start element.navigation with
    | ok id =>
      rw [walked] at failed
      cases failed
    | error halt =>
      rw [walked] at failed accounted
      cases failed
      exact Or.inl (accounted.resolve_right nofun)
  · rename_i action selected
    have actions := source_eq_actions_of_select? selected
    split at failed
    · cases failed
    · rename_i step steps moving
      cases failed
      exact Or.inr (defect?_of_navigation_eq_cons actions moving)

theorem values_accountedBy (element : Element) :
    AccountedBy element.defect? (element.values state previous) := by
  rw [values_eq]
  cases focused : element.focus state with
  | error halt =>
    cases halt with
    | skip reason => trivial
    | error error => exact focus_eq_error state focused
  | ok focus =>
    change AccountedBy element.defect? (if element.isBare then _ else _)
    have propertyDefects : AccountedBy element.defect?
        (element.properties.mapM (Property.value state focus)) := by
      cases focus with
      | node id =>
        have noDefect : element.defect? = element.properties.findSome? fun _ => none := by
          rw [defect?_of_source_ne_actions (source_ne_actions_of_focus_eq_node focused)]
          exact (List.findSome?_eq_none_iff.mpr fun _ _ => rfl).symm
        rw [noDefect]
        apply AccountedBy.mapM
        exact fun property _ => property.value_node_accountedBy state id
      | action action =>
        rcases focus_eq_ok_iff.mp focused with ⟨_, _, _, _, wrong⟩ | ⟨_, selected, still, _⟩
        · cases wrong
        · rw [defect?_of_navigation_eq_nil (source_eq_actions_of_select? selected) still]
          apply AccountedBy.mapM
          exact fun property _ => property.value_action_accountedBy state action
    by_cases bare : element.isBare = true
    · rw [if_pos bare]
      have empty : element.properties = [] := List.isEmpty_iff.mp bare
      rw [empty] at propertyDefects
      have noDefect : element.defect? = none := propertyDefects
      rw [noDefect]
      exact (AccountedBy.lookUp _).map
    · rw [if_neg bare]
      exact propertyDefects.map

theorem allValues_accountedBy (elements : List Element) :
    AccountedBy (elements.findSome? defect?) (allValues state previous elements) := by
  induction elements generalizing previous with
  | nil => rfl
  | cons element rest inductionHypothesis =>
    rw [allValues_cons, findSome?_cons_eq_or]
    apply (element.values_accountedBy state previous).bind
    intro contribution _
    exact (inductionHypothesis contribution.2).map

end Element

/-- An error that is no fault of the graph is that of the first defective element, and a
template with values has none. -/
theorem Template.evaluate_accountedBy (template : Template) (state : State) :
    AccountedBy template.defect? (template.evaluate state) :=
  Element.allValues_accountedBy state none template.elements

end TransitionFeatures
