import TransitionFeatures.Proofs.Evaluation.Faults
import TransitionFeatures.Proofs.Evaluation.Focus

/-!
# How a focus is found

An element counts off an entry of its source and walks from there, one step after the other.
`Navigation.Leads` says what one step from a node comes to, in terms of the edges of the table that
enter and leave the node, and `Navigation.Path` chains such steps up to the first that is not
possible.  In every graph that is built, with cycles or without, walks are these paths:
`walk_eq_iff`.  `Element.focus_found` states how each element finds its focus on each state.
-/

namespace TransitionFeatures

namespace Navigation

/-! ## One step -/

/-- What a step from a node comes to: the node that it leads to, or the reason why it is not
possible.  Edges of both kinds count, in creation order. -/
inductive Leads (graph : Graph) (id : NodeId) : Navigation → Except SkipReason NodeId → Prop
  | toParent {first : Edge} {later : List Edge} (entering : graph.edgesInto id = first :: later) :
      Leads graph id .parent (.ok first.parent)
  | noParent (entering : graph.edgesInto id = []) : Leads graph id .parent (.error .noParent)
  | noChildren {step : Navigation} (down : step ≠ .parent) (leaving : graph.edgesFrom id = []) :
      Leads graph id step (.error .noChildren)
  | toOnlyChild {only : Edge} (leaving : graph.edgesFrom id = [only]) :
      Leads graph id .onlyChild (.ok only.child)
  | stay {step : Navigation} {only : Edge}
      (sideways : step = .leftmostChild ∨ step = .rightmostChild)
      (leaving : graph.edgesFrom id = [only]) : Leads graph id step (.ok id)
  | toLeftmost {first : Edge} {later : List Edge} (several : later ≠ [])
      (leaving : graph.edgesFrom id = first :: later) :
      Leads graph id .leftmostChild (.ok first.child)
  | toRightmost {earlier : List Edge} {last : Edge} (several : earlier ≠ [])
      (leaving : graph.edgesFrom id = earlier ++ [last]) :
      Leads graph id .rightmostChild (.ok last.child)
  | ambiguous (several : 2 ≤ (graph.edgesFrom id).length) :
      Leads graph id .onlyChild (.error .ambiguousOnlyChild)

theorem stepDown_rightmostChild (id last : NodeId) {earlier : List NodeId}
    (several : earlier ≠ []) : stepDown id .rightmostChild (earlier ++ [last]) = .ok last := by
  match earlier with
  | [_] => rfl
  | _ :: _ :: _ => simp [stepDown]

/-- There is an answer for every step from every node. -/
theorem exists_leads (graph : Graph) (id : NodeId) (step : Navigation) :
    ∃ result, Leads graph id step result := by
  cases step with
  | parent =>
    cases entering : graph.edgesInto id with
    | nil => exact ⟨_, .noParent entering⟩
    | cons first later => exact ⟨_, .toParent entering⟩
  | leftmostChild =>
    match leaving : graph.edgesFrom id with
    | [] => exact ⟨_, .noChildren nofun leaving⟩
    | [only] => exact ⟨_, .stay (Or.inl rfl) leaving⟩
    | first :: second :: rest => exact ⟨_, .toLeftmost (List.cons_ne_nil second rest) leaving⟩
  | rightmostChild =>
    rcases List.eq_nil_or_concat (graph.edgesFrom id) with leaving | ⟨earlier, last, leaving⟩
    · exact ⟨_, .noChildren nofun leaving⟩
    · rw [List.concat_eq_append] at leaving
      by_cases single : earlier = []
      · rw [single] at leaving
        exact ⟨_, .stay (Or.inr rfl) leaving⟩
      · exact ⟨_, .toRightmost single leaving⟩
  | onlyChild =>
    match leaving : graph.edgesFrom id with
    | [] => exact ⟨_, .noChildren nofun leaving⟩
    | [only] => exact ⟨_, .toOnlyChild leaving⟩
    | first :: second :: rest => exact ⟨_, .ambiguous (by simp [leaving])⟩

section WellFormed

variable {graph : Graph} (wellFormed : graph.WellFormed) {id : NodeId}
  (known : id < graph.nodes.size)

include wellFormed known

/-- A step other than the one to the parent goes by the edges that leave the node. -/
theorem move_of_ne_parent (step : Navigation) (down : step ≠ .parent) :
    move graph id step =
      (stepDown id step ((graph.edgesFrom id).map Edge.child)).mapError Halt.skip := by
  have asked := wellFormed.children_eq_ok known
  cases step with
  | parent => exact absurd rfl down
  | leftmostChild | rightmostChild | onlyChild =>
    simp only [move, asked, Halt.lookUp_ok]
    rfl

theorem move_parent :
    move graph id .parent =
      (stepUp ((graph.edgesInto id).map Edge.parent)).mapError Halt.skip := by
  simp only [move, wellFormed.parents_eq_ok known, Halt.lookUp_ok]
  rfl

theorem Leads.move_eq {step : Navigation} {result : Except SkipReason NodeId}
    (leads : Leads graph id step result) : move graph id step = result.mapError Halt.skip := by
  cases leads with
  | toParent entering | noParent entering =>
    rw [move_parent wellFormed known, entering]
    rfl
  | noChildren down leaving =>
    rw [move_of_ne_parent wellFormed known _ down, leaving]
    rfl
  | toOnlyChild leaving =>
    rw [move_of_ne_parent wellFormed known .onlyChild nofun, leaving]
    rfl
  | stay sideways leaving =>
    rcases sideways with rfl | rfl
    · rw [move_of_ne_parent wellFormed known .leftmostChild nofun, leaving]
      rfl
    · rw [move_of_ne_parent wellFormed known .rightmostChild nofun, leaving]
      rfl
  | @toLeftmost first later several leaving =>
    rw [move_of_ne_parent wellFormed known .leftmostChild nofun, leaving]
    cases later with
    | nil => exact absurd rfl several
    | cons second rest => rfl
  | @toRightmost earlier last several leaving =>
    have severalChildren : earlier.map Edge.child ≠ [] := by simpa using several
    rw [move_of_ne_parent wellFormed known .rightmostChild nofun, leaving, List.map_append,
      List.map_singleton, stepDown_rightmostChild id last.child severalChildren]
  | ambiguous several =>
    rw [move_of_ne_parent wellFormed known .onlyChild nofun]
    match leaving : graph.edgesFrom id with
    | [] | [_] => simp [leaving] at several
    | _ :: _ :: _ => rfl

/-- A step comes to what the edges at the node say, and to nothing else. -/
theorem move_eq_iff {step : Navigation} {outcome : Except Halt NodeId} :
    move graph id step = outcome ↔
      ∃ result, Leads graph id step result ∧ outcome = result.mapError Halt.skip := by
  constructor
  · rintro rfl
    rcases exists_leads graph id step with ⟨result, leads⟩
    exact ⟨result, leads, leads.move_eq wellFormed known⟩
  · rintro ⟨result, leads, rfl⟩
    exact leads.move_eq wellFormed known

end WellFormed

/-! ## Steps in a row -/

/-- Steps taken one at a time lead to a node, unless one is not possible: the first that is not
ends the path, for its reason. -/
inductive Path (graph : Graph) : NodeId → List Navigation → Except SkipReason NodeId → Prop
  | arrived (id : NodeId) : Path graph id [] (.ok id)
  | onward {id next : NodeId} {step : Navigation} {steps : List Navigation}
      {result : Except SkipReason NodeId} (leads : Leads graph id step (.ok next))
      (rest : Path graph next steps result) : Path graph id (step :: steps) result
  | ended {id : NodeId} {step : Navigation} {reason : SkipReason}
      (leads : Leads graph id step (.error reason)) (steps : List Navigation) :
      Path graph id (step :: steps) (.error reason)

section WellFormed

variable {graph : Graph} (wellFormed : graph.WellFormed)

include wellFormed

theorem Leads.lt_size {id next : NodeId} {step : Navigation} (known : id < graph.nodes.size)
    (leads : Leads graph id step (.ok next)) : next < graph.nodes.size := by
  have ends : FaultsOnlyIf False (· < graph.nodes.size) (move graph id step) :=
    move_faultsOnlyIf wellFormed known step
  rw [leads.move_eq wellFormed known] at ends
  exact ends

theorem exists_path {id : NodeId} (known : id < graph.nodes.size) (steps : List Navigation) :
    ∃ result, Path graph id steps result := by
  induction steps generalizing id with
  | nil => exact ⟨_, .arrived id⟩
  | cons step rest inductionHypothesis =>
    rcases exists_leads graph id step with ⟨reason | next, leads⟩
    · exact ⟨_, .ended leads rest⟩
    · rcases inductionHypothesis (leads.lt_size wellFormed known) with ⟨result, path⟩
      exact ⟨result, .onward leads path⟩

theorem Path.walk_eq {id : NodeId} (known : id < graph.nodes.size) {steps : List Navigation}
    {result : Except SkipReason NodeId} (path : Path graph id steps result) :
    walk graph id steps = result.mapError Halt.skip := by
  induction path with
  | arrived id => rfl
  | onward leads _ inductionHypothesis =>
    rw [walk_cons, leads.move_eq wellFormed known]
    exact inductionHypothesis (leads.lt_size wellFormed known)
  | ended leads steps =>
    rw [walk_cons, leads.move_eq wellFormed known]
    rfl

/-- A walk is the path of its steps. -/
theorem walk_eq_iff {id : NodeId} (known : id < graph.nodes.size) {steps : List Navigation}
    {outcome : Except Halt NodeId} :
    walk graph id steps = outcome ↔
      ∃ result, Path graph id steps result ∧ outcome = result.mapError Halt.skip := by
  constructor
  · rintro rfl
    rcases exists_path wellFormed known steps with ⟨result, path⟩
    exact ⟨result, path, path.walk_eq wellFormed known⟩
  · rintro ⟨result, path, rfl⟩
    exact path.walk_eq wellFormed known

end WellFormed

/-- A walk fails as the first of its steps that is not possible where those before it lead. -/
theorem walk_eq_error_iff {graph : Graph} {id : NodeId} {steps : List Navigation} {halt : Halt} :
    walk graph id steps = .error halt ↔
      ∃ before step after reached, steps = before ++ step :: after ∧
        walk graph id before = .ok reached ∧ move graph reached step = .error halt := by
  constructor
  · intro failed
    induction steps generalizing id with
    | nil => cases failed
    | cons step rest inductionHypothesis =>
      rw [walk_cons] at failed
      cases moved : move graph id step with
      | error other =>
        rw [moved] at failed
        cases failed
        exact ⟨[], step, rest, id, rfl, rfl, moved⟩
      | ok next =>
        rw [moved] at failed
        rcases inductionHypothesis failed with
          ⟨before, last, after, reached, rfl, walked, refused⟩
        refine ⟨step :: before, last, after, reached, rfl, ?_, refused⟩
        rw [walk_cons, moved]
        exact walked
  · rintro ⟨before, step, after, reached, rfl, walked, refused⟩
    rw [walk_append, walked]
    simp only [Except.bind, walk_cons, refused]

/-- No step is out of range. -/
theorem not_path_outOfRange {graph : Graph} {id : NodeId} {steps : List Navigation}
    {source : Source} {index : Nat} :
    ¬ Path graph id steps (.error (.outOfRange source index)) := by
  intro path
  generalize failed : (.error (.outOfRange source index) : Except SkipReason NodeId) = result
    at path
  induction path with
  | arrived id => cases failed
  | onward _ _ inductionHypothesis => exact inductionHypothesis failed
  | ended leads _ =>
    cases failed
    cases leads

/-- How walks from a node go. -/
structure GoesStepwise (graph : Graph) (id : NodeId) : Prop where
  /-- One step goes by the edges at the node. -/
  move_iff : ∀ step outcome, move graph id step = outcome ↔
    ∃ result, Leads graph id step result ∧ outcome = result.mapError Halt.skip
  noParent_iff : ∀ step, move graph id step = .error (.skip .noParent) ↔
    step = .parent ∧ graph.edgesInto id = []
  noChildren_iff : ∀ step, move graph id step = .error (.skip .noChildren) ↔
    step ≠ .parent ∧ graph.edgesFrom id = []
  ambiguous_iff : ∀ step, move graph id step = .error (.skip .ambiguousOnlyChild) ↔
    step = .onlyChild ∧ 2 ≤ (graph.edgesFrom id).length
  /-- Several steps go one after the other. -/
  walk_iff : ∀ steps outcome, walk graph id steps = outcome ↔
    ∃ result, Path graph id steps result ∧ outcome = result.mapError Halt.skip
  append : ∀ first second, walk graph id (first ++ second) =
    (walk graph id first).bind fun next => walk graph next second
  error_iff : ∀ steps halt, walk graph id steps = .error halt ↔
    ∃ before step after reached, steps = before ++ step :: after ∧
      walk graph id before = .ok reached ∧ move graph reached step = .error halt

theorem goesStepwise {graph : Graph} (wellFormed : graph.WellFormed) {id : NodeId}
    (known : id < graph.nodes.size) : GoesStepwise graph id := by
  have refused : ∀ step reason, move graph id step = .error (.skip reason) ↔
      Leads graph id step (.error reason) := by
    intro step reason
    constructor
    · intro moved
      rcases (move_eq_iff wellFormed known).mp moved with ⟨other | next, leads, equal⟩
      · cases equal
        exact leads
      · cases equal
    · exact fun leads => leads.move_eq wellFormed known
  constructor
  case move_iff => exact fun _ _ => move_eq_iff wellFormed known
  case walk_iff => exact fun _ _ => walk_eq_iff wellFormed known
  case append => exact walk_append graph id
  case error_iff => exact fun _ _ => walk_eq_error_iff
  case noParent_iff =>
    intro step
    rw [refused]
    constructor
    · intro leads
      cases leads with
      | noParent entering => exact ⟨rfl, entering⟩
    · rintro ⟨rfl, entering⟩
      exact .noParent entering
  case noChildren_iff =>
    intro step
    rw [refused]
    constructor
    · intro leads
      cases leads with
      | noChildren down leaving => exact ⟨down, leaving⟩
    · rintro ⟨down, leaving⟩
      exact .noChildren down leaving
  case ambiguous_iff =>
    intro step
    rw [refused]
    constructor
    · intro leads
      cases leads with
      | ambiguous several => exact ⟨rfl, several⟩
    · rintro ⟨rfl, several⟩
      exact .ambiguous several

end Navigation

/-! ## From the source to the focus -/

namespace Element

/-- How an element finds its focus on a state. -/
structure FindsFocus (element : Element) (state : State) : Prop where
  /-- The entry is out of range if and only if the source is not longer than the index. -/
  outOfRange_iff : ∀ source index,
    element.focus state = .error (.skip (.outOfRange source index)) ↔
      source = element.source ∧ index = element.index ∧
        state.sourceLength element.source ≤ element.index
  /-- The stack and the actions are counted from the end, the buffer from the front. -/
  from_stack : element.source = .stack → element.index < state.stack.length →
    ∃ id, state.stack[state.stack.length - 1 - element.index]? = some id ∧
      element.select? state = some (.node id)
  from_buffer : element.source = .buffer → element.index < state.buffer.length →
    ∃ id, state.buffer[element.index]? = some id ∧ element.select? state = some (.node id)
  from_actions : element.source = .actions → element.index < state.actions.length →
    ∃ action, state.actions[state.actions.length - 1 - element.index]? = some action ∧
      element.select? state = some (.action action) ∧
      (element.navigation = [] → element.focus state = .ok (.action action))
  /-- From a node the path of the steps leads to the focus. -/
  at_node : ∀ id, element.select? state = some (.node id) → ∀ outcome,
    element.focus state = outcome ↔ ∃ result,
      Navigation.Path state.graph id element.navigation result ∧
        outcome = (result.map Focus.node).mapError Halt.skip

variable {state : State}

/-- From a node the path of the steps leads to the focus, and nothing else does. -/
theorem focus_eq_iff_path (admissible : state.Admissible) {element : Element} {id : NodeId}
    (selected : element.select? state = some (.node id)) {outcome : Except Halt Focus} :
    element.focus state = outcome ↔ ∃ result,
      Navigation.Path state.graph id element.navigation result ∧
        outcome = (result.map Focus.node).mapError Halt.skip := by
  have known := admissible.select?_known selected id rfl
  have arrives : ∀ result, Navigation.Path state.graph id element.navigation result →
      element.focus state = (result.map Focus.node).mapError Halt.skip := by
    intro result path
    rw [focus, selected]
    simp only [path.walk_eq admissible.wellFormed known]
    cases result <;> rfl
  constructor
  · rintro rfl
    rcases Navigation.exists_path admissible.wellFormed known element.navigation with
      ⟨result, path⟩
    exact ⟨result, path, arrives result path⟩
  · rintro ⟨result, path, rfl⟩
    exact arrives result path

/-- Only what is selected can be out of range. -/
theorem focus_eq_outOfRange_iff (admissible : state.Admissible) {element : Element}
    {source : Source} {index : Nat} :
    element.focus state = .error (.skip (.outOfRange source index)) ↔
      source = element.source ∧ index = element.index ∧
        state.sourceLength element.source ≤ element.index := by
  constructor
  · intro failed
    cases selected : element.select? state with
    | none =>
      have beyond := select?_eq_none_iff.mp selected
      rw [focus_of_sourceLength_le beyond] at failed
      cases failed
      exact ⟨rfl, rfl, beyond⟩
    | some start =>
      cases start with
      | node id =>
        rcases (focus_eq_iff_path admissible selected).mp failed with
          ⟨reason | reached, path, equal⟩
        · cases equal
          exact absurd path Navigation.not_path_outOfRange
        · cases equal
      | action action =>
        rw [focus, selected] at failed
        cases steps : element.navigation with
        | nil => simp [steps] at failed
        | cons step rest => simp [steps] at failed
  · rintro ⟨rfl, rfl, beyond⟩
    exact focus_of_sourceLength_le beyond

/-- On every state that can be made, with cycles in its graph or without, every element finds its
focus by counting off an entry of its source and walking from there, and walks go stepwise from
every node. -/
theorem focus_found (admissible : state.Admissible) (element : Element) :
    element.FindsFocus state ∧
      ∀ id < state.graph.nodes.size, Navigation.GoesStepwise state.graph id := by
  refine ⟨?_, fun id known => Navigation.goesStepwise admissible.wellFormed known⟩
  constructor
  case outOfRange_iff => exact fun _ _ => focus_eq_outOfRange_iff admissible
  case from_stack =>
    intro own bound
    have place : state.stack.length - 1 - element.index < state.stack.length := by omega
    refine ⟨_, List.getElem?_eq_getElem place, ?_⟩
    simp [select?, own, bound]
  case from_buffer =>
    intro own bound
    refine ⟨_, List.getElem?_eq_getElem bound, ?_⟩
    simp [select?, own, bound]
  case from_actions =>
    intro own bound
    have place : state.actions.length - 1 - element.index < state.actions.length := by omega
    have selected : element.select? state =
        some (.action state.actions[state.actions.length - 1 - element.index]) := by
      simp [select?, own, bound]
    refine ⟨_, List.getElem?_eq_getElem place, selected, fun still => ?_⟩
    simp only [focus, selected, still]
  case at_node => exact fun _ selected _ => focus_eq_iff_path admissible selected

/-- Two units that govern each other, and a word that is a remote child of the first. -/
def entangledSteps : List BuildStep :=
  [.unit, .unit, .terminal "yes" "UH", .edge EdgeTag.parallelScene 0 1,
    .edge EdgeTag.participant 1 0, .remote EdgeTag.participant 0 2]

/-- The first of the two units is the stack top and the word comes next. -/
def entangled : State where
  graph :=
    { nodes := #[
        { content := .unit false, outgoing := [0, 2], incoming := [1] },
        { content := .unit false, outgoing := [1], incoming := [0] },
        { content := .token ⟨"yes", "UH", false, 0⟩, outgoing := [], incoming := [2] }]
      edges := #[⟨"H", 0, 1, false⟩, ⟨"A", 1, 0, false⟩, ⟨"A", 0, 2, true⟩]
      terminals := #[2] }
  stack := [1, 0]
  buffer := [2]
  actions := [{ kind := "SHIFT", tag? := none }]

/-- The way leads down the remote edge, up again, around the cycle and then to an only child where
there are two; the largest index is out of range. -/
theorem focus_found_entangled :
    let around : Element :=
      ⟨.stack, 0, [.rightmostChild, .parent, .leftmostChild, .onlyChild, .onlyChild], []⟩
    let farthest : Element := ⟨.actions, 18446744073709551615, [], [.text]⟩
    entangled.Admissible ∧
      around.focus entangled = .error (.skip .ambiguousOnlyChild) ∧
      Navigation.Path entangled.graph 0 around.navigation (.error .ambiguousOnlyChild) ∧
      Navigation.walk entangled.graph 0 [.rightmostChild, .parent] = .ok 0 ∧
      (∃ result, Navigation.Leads entangled.graph 0 .onlyChild result ∧
        .error (.skip .ambiguousOnlyChild) = result.mapError Halt.skip) ∧
      farthest.focus entangled = .error (.skip (.outOfRange .actions 18446744073709551615)) := by
  intro around farthest
  have admissible : entangled.Admissible :=
    { built := ⟨entangledSteps, rfl⟩
      stack_lt := by decide
      buffer_lt := by decide }
  have ambiguous : around.focus entangled = .error (.skip .ambiguousOnlyChild) := rfl
  obtain ⟨found, stepwise⟩ := focus_found admissible around
  obtain ⟨reason | reached, path, equal⟩ := (found.at_node 0 rfl _).mp ambiguous
  · cases equal
    exact ⟨admissible, ambiguous, path, rfl,
      ((stepwise 0 (by decide)).move_iff .onlyChild _).mp rfl,
      ((focus_found admissible farthest).1.outOfRange_iff _ _).mpr ⟨rfl, rfl, by decide⟩⟩
  · cases equal

end Element

end TransitionFeatures
