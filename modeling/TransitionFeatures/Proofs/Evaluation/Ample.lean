import TransitionFeatures.Proofs.Evaluation.Defect
import TransitionFeatures.Proofs.Evaluation.Faults
import TransitionFeatures.Template.Descriptor

/-!
# A state with everything

On an ample state every template gets to its end or to its first defect.  The graph has a
punctuation mark between two words, and a remote edge leads from each word to itself: it
makes the word its own only child and only parent, so that every walk is possible, and it
closes no cycle of primary edges.  The stack, the buffer and the actions are as long as a
template requires, with the two words on top of the stack.

With this state the errors of a template are seen to be a matter of the template alone:
`Template.evaluate_errors`.
-/

namespace TransitionFeatures

open DerivedData

/-! ## The state -/

/-- Two words around a punctuation mark, each of them its own only relative. -/
def ampleSteps : List BuildStep :=
  [.terminal "here" "RB", .punctuation "," ",", .terminal "there" "RB",
    .remote EdgeTag.adverbial 0 0, .remote EdgeTag.adverbial 2 2]

/-- The punctuation mark. -/
def ampleMark : Node where
  content := .token ⟨",", ",", true, 1⟩
  outgoing := []
  incoming := []

/-- The graph that `ampleSteps` makes. -/
def ampleGraph : Graph where
  nodes := #[
    { content := .token ⟨"here", "RB", false, 0⟩, outgoing := [0], incoming := [0] },
    ampleMark,
    { content := .token ⟨"there", "RB", false, 2⟩, outgoing := [1], incoming := [1] }]
  edges := #[⟨"D", 0, 0, true⟩, ⟨"D", 2, 2, true⟩]
  terminals := #[0, 1, 2]

theorem build_ampleSteps : Graph.build ampleSteps = .ok ampleGraph :=
  rfl

/-- An action that has a tag. -/
def ampleAction : Action where
  kind := "NODE"
  tag? := some EdgeTag.center

/-- The state in which every source has an entry at a given index. -/
def State.ample (size : Nat) : State where
  graph := ampleGraph
  stack := List.replicate (size + 1) 0 ++ [2]
  buffer := List.replicate (size + 1) 0
  actions := List.replicate (size + 1) ampleAction

theorem ampleGraph_acyclic : ampleGraph.Acyclic := by
  apply Graph.acyclic_of_child_lt_parent
  decide

theorem ample_admissible (size : Nat) : (State.ample size).Admissible where
  built := ⟨ampleSteps, build_ampleSteps⟩
  stack_lt := by
    intro id member
    change id < 3
    rcases List.mem_append.mp member with below | top
    · rw [List.eq_of_mem_replicate below]
      decide
    · rw [List.mem_singleton.mp top]
      decide
  buffer_lt := by
    intro id member
    change id < 3
    rw [List.eq_of_mem_replicate member]
    decide

theorem reverse_stack_ample (size : Nat) :
    (State.ample size).stack.reverse = 2 :: 0 :: List.replicate size 0 := by
  change (List.replicate (size + 1) 0 ++ [2]).reverse = _
  rw [List.reverse_append, List.reverse_replicate, List.replicate_succ]
  rfl

/-! ## Evaluations that are decided -/

/-- A halt at a defect: no skip, and no fault of the graph. -/
def Halt.IsDefect : Halt → Prop
  | .skip _ => False
  | .error refusal => ∀ cause, refusal ≠ .fault cause

/-- An evaluation that has values with a property or meets a defect, without being skipped
and without a fault of the graph. -/
def Decided {α : Type} (property : α → Prop) : Except Halt α → Prop :=
  Ends property Halt.IsDefect

/-- A decided evaluation has values if there is no defect, and ends in the defect if there
is one. -/
theorem Decided.eq_of_accountedBy {α : Type} {property : α → Prop} {result : Except Halt α}
    {defect? : Option EvalError}
    (decided : Decided property result) (accounted : AccountedBy defect? result) :
    (defect? = none → ∃ value, result = .ok value) ∧
      ∀ defect, defect? = some defect → result = .error (.error defect) := by
  rcases result with (reason | error) | value
  · exact absurd decided id
  · have met : defect? = some error :=
      accounted.resolve_left fun ⟨cause, faulty⟩ => decided cause faulty
    subst met
    constructor
    · exact nofun
    · rintro defect ⟨⟩
      rfl
  · have noDefect : defect? = none := accounted
    subst noDefect
    constructor
    · exact fun _ => ⟨value, rfl⟩
    · exact nofun

/-! ## Evaluation on an ample state -/

/-- A focus on one of the two words or on an action that has a tag. -/
def Focus.Ample : Focus → Prop
  | .node id => id = 0 ∨ id = 2
  | .action taken => taken = ampleAction

/-- Every step from a word leads back to it. -/
theorem move_ample {id : NodeId} (word : id = 0 ∨ id = 2) (step : Navigation) :
    Navigation.move ampleGraph id step = .ok id := by
  rcases word with rfl | rfl
  · cases step <;> rfl
  · cases step <;> rfl

theorem walk_ample {id : NodeId} (word : id = 0 ∨ id = 2) (steps : List Navigation) :
    Navigation.walk ampleGraph id steps = .ok id := by
  induction steps with
  | nil => rfl
  | cons step rest inductionHypothesis =>
    rw [Navigation.walk_cons, move_ample word step]
    exact inductionHypothesis

/-- The punctuation mark stands between the two words on top of the stack. -/
theorem separators?_ample (size : Nat) :
    Id.run ((State.ample size).separators? : ExceptT Fault Id _).run =
      .ok (some [ampleMark]) := by
  unfold State.separators?
  rw [reverse_stack_ample]
  rfl

/-- A word has a value for every property. -/
theorem exists_nodeValue?_ample (size : Nat) {id : NodeId} (word : id = 0 ∨ id = 2)
    (property : Property) :
    ∃ value, property.nodeValue? (State.ample size) id = .ok (some value) := by
  have looked : ∃ node, (State.ample size).graph.node id = .ok node := by
    rcases word with rfl | rfl <;> exact ⟨_, rfl⟩
  rcases looked with ⟨node, looked⟩
  cases property with
  | separator =>
    refine ⟨",", ?_⟩
    rw [Property.nodeValue?_of_node looked, Property.knownValue?, Property.atKnownNode, run_bind,
      separators?_ample]
    rfl
  | separatorCount =>
    refine ⟨toString [ampleMark].length, ?_⟩
    rw [Property.nodeValue?_of_node looked, Property.knownValue?, Property.atKnownNode, run_bind,
      separators?_ample]
    rfl
  | _ => rcases word with rfl | rfl <;> exact ⟨_, rfl⟩

theorem value_ample_decided (size : Nat) {focus : Focus} (ample : focus.Ample)
    (property : Property) :
    Decided (fun _ => True) (property.value (State.ample size) focus) := by
  cases focus with
  | node id =>
    rcases exists_nodeValue?_ample size ample property with ⟨value, found⟩
    rw [Property.value_node, found]
    trivial
  | action action =>
    rw [Property.value_action, show action = ampleAction from ample]
    cases property with
    | text => trivial
    | edgeTag => trivial
    | _ => exact nofun

namespace Element

variable {element : Element} {size : Nat}

theorem exists_select?_ample (small : element.index ≤ size) :
    ∃ focus, element.select? (State.ample size) = some focus ∧ focus.Ample := by
  have reached : element.index < size + 1 := Nat.lt_succ_of_le small
  unfold select?
  cases element.source with
  | stack =>
    rw [reverse_stack_ample, ← List.replicate_succ]
    cases place : element.index with
    | zero => exact ⟨.node 2, rfl, Or.inr rfl⟩
    | succ below =>
      have entry : (List.replicate (size + 1) 0)[below]? = some 0 := by
        rw [List.getElem?_replicate, if_pos (by omega)]
      refine ⟨.node 0, ?_, Or.inl rfl⟩
      simp [entry]
  | buffer =>
    refine ⟨.node 0, ?_, Or.inl rfl⟩
    simp [State.ample, reached]
  | actions =>
    refine ⟨.action ampleAction, ?_, rfl⟩
    simp [State.ample, reached]

theorem focus_ample_decided (small : element.index ≤ size) :
    Decided Focus.Ample (element.focus (State.ample size)) := by
  rcases exists_select?_ample small with ⟨selected, selectedEq, ample⟩
  unfold focus
  rw [selectedEq]
  cases selected with
  | node start =>
    change Decided _ ((Navigation.walk ampleGraph start element.navigation).map Focus.node)
    rw [walk_ample ample]
    exact ample
  | action action =>
    cases element.navigation with
    | nil => exact ample
    | cons step steps => exact nofun

theorem indicators_ample_decided (previous : Option Focus) {focus : Focus}
    (ample : focus.Ample) :
    Decided (fun _ => True) (Halt.lookUp (indicators ampleGraph previous focus)) := by
  match previous, focus with
  | none, _ => trivial
  | some (.action _), _ => trivial
  | some (.node _), .action _ => trivial
  | some (.node parent), .node child =>
    rcases ample with rfl | rfl <;> trivial

theorem values_ample_decided (small : element.index ≤ size) (previous : Option Focus) :
    Decided (fun _ => True) (element.values (State.ample size) previous) := by
  apply values_ends (focus_ample_decided small)
  · intro focus ample
    exact indicators_ample_decided previous ample
  · intro focus ample property _
    exact value_ample_decided size ample property

theorem exists_forall_index_le (elements : List Element) :
    ∃ size, ∀ element ∈ elements, element.index ≤ size := by
  induction elements with
  | nil => exact ⟨0, nofun⟩
  | cons element rest inductionHypothesis =>
    rcases inductionHypothesis with ⟨size, small⟩
    refine ⟨max element.index size, List.forall_mem_cons.mpr ⟨Nat.le_max_left _ _, ?_⟩⟩
    exact fun other member => Nat.le_trans (small other member) (Nat.le_max_right _ _)

end Element

/-- An error that is not about the template.  Where states can be made it is a descent
around a cycle of primary edges, which does not come to an end. -/
def State.GraphFault (state : State) (error : EvalError) : Prop :=
  (∃ cause, error = .fault cause) ∧
    (state.Admissible → error = .fault .endless ∧ ¬ state.graph.Acyclic)

namespace Template

/-- Some ample state decides a template. -/
theorem exists_evaluate_ample (template : Template) :
    ∃ size,
      (template.defect? = none → ∃ values, template.evaluate (State.ample size) = .ok values) ∧
      ∀ defect, template.defect? = some defect →
        template.evaluate (State.ample size) = .error (.error defect) := by
  rcases Element.exists_forall_index_le template.elements with ⟨size, small⟩
  have decided : Decided (fun _ => True) (template.evaluate (State.ample size)) := by
    apply Element.allValues_ends
    intro element member previous
    exact Element.values_ample_decided (small element member) previous
  exact ⟨size, decided.eq_of_accountedBy (template.evaluate_accountedBy _)⟩

theorem defect?_eq_none_iff {template : Template} :
    template.defect? = none ↔ ∀ element ∈ template.elements, ¬ element.Defective := by
  rw [defect?, List.findSome?_eq_none_iff]
  simp only [Element.defect?_eq_none_iff]

/-- An error is the defect of the template or a fault of the graph. -/
theorem eq_defect_or_graphFault {template : Template} {state : State} {error : EvalError}
    (failed : template.evaluate state = .error (.error error)) :
    template.defect? = some error ∨ state.GraphFault error := by
  have accounted := template.evaluate_accountedBy state
  rw [failed] at accounted
  rcases accounted with ⟨cause, rfl⟩ | met
  · refine Or.inr ⟨⟨cause, rfl⟩, ?_⟩
    intro admissible
    have sound := admissible.evaluate_faultsOnlyIf template
    rw [failed] at sound
    exact ⟨congrArg EvalError.fault sound.1, sound.2⟩
  · exact Or.inl met

/-- Errors are a property of the template.  Without a defective element there are none but
faults of the graph, and some state gives all values; with one, some state gives an error,
and no state gives another one than the first defective element determines. -/
theorem evaluate_errors (template : Template) :
    ((∀ element ∈ template.elements, ¬ element.Defective) →
      (∀ (state : State) (error : EvalError),
        template.evaluate state = .error (.error error) → state.GraphFault error) ∧
      ∃ state : State, state.Admissible ∧ state.graph.Acyclic ∧
        ∃ values, template.evaluate state = .ok values) ∧
    ∀ before element after, template.elements = before ++ element :: after →
      (∀ earlier ∈ before, ¬ earlier.Defective) → element.Defective →
        ∃ defect, element.defect? = some defect ∧
          (∃ state : State, state.Admissible ∧ state.graph.Acyclic ∧
            template.evaluate state = .error (.error defect)) ∧
          ∀ (state : State) (error : EvalError),
            template.evaluate state = .error (.error error) →
              error = defect ∨ state.GraphFault error := by
  rcases template.exists_evaluate_ample with ⟨size, present, refused⟩
  have admissible := ample_admissible size
  constructor
  · intro sound
    have noDefect := defect?_eq_none_iff.mpr sound
    constructor
    · intro state error failed
      apply (eq_defect_or_graphFault failed).resolve_left
      rw [noDefect]
      exact nofun
    · exact ⟨_, admissible, ampleGraph_acyclic, present noDefect⟩
  · intro before element after split sound defective
    rcases Option.ne_none_iff_exists'.mp fun none =>
      Element.defect?_eq_none_iff.mp none defective with ⟨defect, elementDefect⟩
    have firstDefect : template.defect? = some defect := by
      apply List.findSome?_eq_some_iff.mpr
      refine ⟨before, element, after, split, elementDefect, ?_⟩
      exact fun earlier member => Element.defect?_eq_none_iff.mpr (sound earlier member)
    refine ⟨defect, elementDefect, ⟨_, admissible, ampleGraph_acyclic, refused _ firstDefect⟩, ?_⟩
    intro state error failed
    apply (eq_defect_or_graphFault failed).imp_left
    intro met
    rw [firstDefect] at met
    exact (Option.some.inj met).symm

/-- A template without a defect, and one in which the second of three elements is the first
defective one. -/
theorem evaluate_errors_examples :
    (∃ template, parse? "s0lpuwb1a0e" = some template ∧
      (∀ element ∈ template.elements, ¬ element.Defective) ∧
      ∃ state : State, state.Admissible ∧ state.graph.Acyclic ∧
        ∃ values, template.evaluate state = .ok values) ∧
    ∃ template, parse? "s0xa1wta0lw" = some template ∧
      (∃ before element after, template.elements = before ++ element :: after ∧
        (∀ earlier ∈ before, ¬ earlier.Defective) ∧ element.Defective) ∧
      ∃ state : State, state.Admissible ∧ state.graph.Acyclic ∧
        template.evaluate state = .error (.error (.unknownProperty .actions .partOfSpeech)) := by
  constructor
  · let template : Template :=
      { name := "s0lpuwb1a0e"
        elements := [⟨.stack, 0, [.leftmostChild, .parent, .onlyChild], [.text]⟩,
          ⟨.buffer, 1, [], []⟩, ⟨.actions, 0, [], [.edgeTag]⟩] }
    have sound : ∀ element ∈ template.elements, ¬ element.Defective := by decide
    exact ⟨template, by decide +kernel, sound, ((evaluate_errors template).1 sound).2⟩
  · let first : Element := ⟨.stack, 0, [], [.gapType]⟩
    let second : Element := ⟨.actions, 1, [], [.text, .partOfSpeech]⟩
    let third : Element := ⟨.actions, 0, [.leftmostChild], [.text]⟩
    let template : Template := { name := "s0xa1wta0lw", elements := [first, second, third] }
    have sound : ∀ earlier ∈ [first], ¬ earlier.Defective := by decide
    have defective : second.Defective := by decide
    rcases (evaluate_errors template).2 [first] second [third] rfl sound defective with
      ⟨defect, found, refused, _⟩
    cases found
    exact ⟨template, by decide +kernel, ⟨[first], second, [third], rfl, sound, defective⟩,
      refused⟩

end Template

end TransitionFeatures
