import TransitionFeatures.Proofs.Evaluation.Anew
import TransitionFeatures.Proofs.Graph.Descent

/-!
# Evaluation without faults

An admissible state is one that can be made: its graph was built and its stack and
buffer hold nodes of that graph.  Whatever is evaluated on such a state looks up
known nodes and edges only, and subtracts only positions that ascend.  The one fault
that can occur is a walk without end, and only if the graph has a cycle:
`Template.evaluate_faultsOnlyIf`.
-/

namespace TransitionFeatures

open DerivedData

/-- A state whose graph was built and whose stack and buffer hold nodes of the graph. -/
structure State.Admissible (state : State) : Prop where
  built : ∃ steps, Graph.build steps = .ok state.graph
  stack_lt : ∀ id ∈ state.stack, id < state.graph.nodes.size
  buffer_lt : ∀ id ∈ state.buffer, id < state.graph.nodes.size

theorem State.Admissible.wellFormed {state : State} (admissible : state.Admissible) :
    state.graph.WellFormed := by
  obtain ⟨steps, built⟩ := admissible.built
  exact Graph.wellFormed_of_build built

/-! ## Evaluations that may be cut off -/

/-- A halt is a skip or a refusal, or a cut as endless. -/
def Halt.FaultOnlyIf (cut : Prop) : Halt → Prop
  | .error (.fault cause) => cause = .endless ∧ cut
  | _ => True

/-- An evaluation that has values with a property, or is skipped or refused, or is cut
off as endless. -/
def FaultsOnlyIf {α : Type} (cut : Prop) (property : α → Prop) : Except Halt α → Prop :=
  Ends property (Halt.FaultOnlyIf cut)

namespace FaultsOnlyIf

variable {α : Type} {cut : Prop} {property : α → Prop}

theorem lookUp {found : Except Fault α} (ends : EndsUnless cut property found) :
    FaultsOnlyIf cut property (Halt.lookUp found) := by
  cases found with
  | ok value => exact ends
  | error cause => exact ends

/-- An evaluation that is not cut off meets no fault. -/
theorem ne_fault {result : Except Halt α} (sound : FaultsOnlyIf cut property result)
    (uncut : ¬ cut) (cause : Fault) : result ≠ .error (.error (.fault cause)) := by
  rintro rfl
  exact uncut sound.2

end FaultsOnlyIf

/-! ## Focus -/

namespace Navigation

theorem mem_of_stepUp_eq_ok {parents : List NodeId} {next : NodeId}
    (step : stepUp parents = .ok next) : next ∈ parents := by
  cases parents with
  | nil => cases step
  | cons first rest =>
    cases step
    exact List.mem_cons_self

/-- A step down leads to a child or stays. -/
theorem eq_or_mem_of_stepDown_eq_ok {id : NodeId} {step : Navigation}
    {children : List NodeId} {next : NodeId} (moved : stepDown id step children = .ok next) :
    next = id ∨ next ∈ children := by
  match children, step with
  | [], _ => cases moved
  | [child], .onlyChild =>
    cases moved
    exact Or.inr List.mem_cons_self
  | [child], .leftmostChild | [child], .rightmostChild | [child], .parent =>
    cases moved
    exact Or.inl rfl
  | first :: second :: rest, .leftmostChild =>
    cases moved
    exact Or.inr List.mem_cons_self
  | first :: second :: rest, .rightmostChild =>
    cases moved
    exact Or.inr (List.mem_cons_of_mem first (List.getLast_mem _))
  | first :: second :: rest, .onlyChild | first :: second :: rest, .parent => cases moved

variable {graph : Graph} (wellFormed : graph.WellFormed) {cut : Prop}

include wellFormed

/-- A step from a known node leads to a known node. -/
theorem move_faultsOnlyIf {id : NodeId} (known : id < graph.nodes.size) (step : Navigation) :
    FaultsOnlyIf cut (· < graph.nodes.size) (move graph id step) := by
  have down : FaultsOnlyIf cut (· < graph.nodes.size)
      ((Halt.lookUp (graph.children id)).bind fun children =>
        (stepDown id step children).mapError Halt.skip) := by
    rw [wellFormed.children_eq_ok known, Halt.lookUp_ok]
    change FaultsOnlyIf _ _ ((stepDown id step _).mapError Halt.skip)
    cases moved : stepDown id step ((graph.edgesFrom id).map Edge.child) with
    | error reason => trivial
    | ok next =>
      rcases eq_or_mem_of_stepDown_eq_ok moved with rfl | child
      · exact known
      · obtain ⟨edge, member, rfl⟩ := List.mem_map.mp child
        exact wellFormed.child_lt_of_mem_edgesFrom member
  cases step with
  | leftmostChild | rightmostChild | onlyChild => exact down
  | parent =>
    change FaultsOnlyIf _ _ ((Halt.lookUp (graph.parents id)).bind fun parents =>
      (stepUp parents).mapError Halt.skip)
    rw [wellFormed.parents_eq_ok known, Halt.lookUp_ok]
    change FaultsOnlyIf _ _ ((stepUp _).mapError Halt.skip)
    cases moved : stepUp ((graph.edgesInto id).map Edge.parent) with
    | error reason => trivial
    | ok next =>
      obtain ⟨edge, member, rfl⟩ := List.mem_map.mp (mem_of_stepUp_eq_ok moved)
      exact wellFormed.parent_lt_of_mem_edgesInto member

theorem walk_faultsOnlyIf {id : NodeId} (known : id < graph.nodes.size)
    (steps : List Navigation) :
    FaultsOnlyIf cut (· < graph.nodes.size) (walk graph id steps) := by
  induction steps generalizing id with
  | nil => exact known
  | cons step rest inductionHypothesis =>
    rw [walk_cons]
    exact (move_faultsOnlyIf wellFormed known step).bind fun next nextKnown =>
      inductionHypothesis nextKnown

end Navigation

/-- A focus that is known to a graph. -/
def Focus.Known (graph : Graph) (focus : Focus) : Prop :=
  ∀ id, focus = .node id → id < graph.nodes.size

namespace State.Admissible

variable {state : State} (admissible : state.Admissible)

include admissible

theorem select?_known {element : Element} {focus : Focus}
    (selected : element.select? state = some focus) : focus.Known state.graph := by
  rintro id rfl
  unfold Element.select? at selected
  split at selected
  · obtain ⟨entry, found, same⟩ := Option.map_eq_some_iff.mp selected
    cases same
    exact admissible.stack_lt _ (List.mem_reverse.mp (List.mem_of_getElem? found))
  · obtain ⟨entry, found, same⟩ := Option.map_eq_some_iff.mp selected
    cases same
    exact admissible.buffer_lt _ (List.mem_of_getElem? found)
  · simp at selected

theorem focus_faultsOnlyIf {cut : Prop} (element : Element) :
    FaultsOnlyIf cut (Focus.Known state.graph) (element.focus state) := by
  unfold Element.focus
  split
  · trivial
  · rename_i start selected
    have known := admissible.select?_known selected start rfl
    refine (Navigation.walk_faultsOnlyIf admissible.wellFormed known _).map ?_
    rintro id idKnown _ ⟨⟩
    exact idKnown
  · split
    · exact nofun
    · trivial

end State.Admissible

/-! ## Derived data -/

/-- Ascending positions can be tested for gaps. -/
theorem Positions.exists_hasGaps_eq_ok {positions : List Nat}
    (ascending : Positions.Ascending positions) :
    ∃ gapped, Positions.hasGaps positions = .ok gapped := by
  rcases Positions.exists_gapLengths_of_ascending ascending with ⟨lengths, measured⟩
  rw [Positions.hasGaps, measured]
  exact ⟨_, rfl⟩

namespace Graph.WellFormed

variable {graph : Graph} (wellFormed : graph.WellFormed) {id : NodeId}

include wellFormed

theorem terminal_lt {position : Nat} (entry : graph.terminals[position]? = some id) :
    id < graph.nodes.size := by
  obtain ⟨node, found, _⟩ := wellFormed.terminals_iff.mp entry
  exact (Array.getElem?_eq_some_iff.mp found).1

theorem exists_punctuationBetween_eq_ok (first second : Nat) :
    ∃ marks, graph.punctuationBetween first second = .ok marks := by
  have found : ∀ terminal ∈ (graph.terminalsBetween? (min first second)
      (max first second)).getD [], ∃ node, graph.node terminal = .ok node := by
    intro terminal member
    unfold terminalsBetween? at member
    split at member
    · rw [Option.getD_some, Array.mem_toList_iff] at member
      obtain ⟨place, bound, rfl⟩ := Array.mem_extract_iff_getElem.mp member
      exact exists_node_of_lt (wellFormed.terminal_lt (Array.getElem?_eq_getElem _))
    · simp at member
  obtain ⟨nodes, looked⟩ := exists_mapM_eq_ok_iff.mpr found
  refine ⟨nodes.filter Node.isPunctuation, ?_⟩
  simp only [punctuationBetween, looked, bind, Except.bind, pure, Except.pure]

variable (known : id < graph.nodes.size)

include known

theorem headNode?_endsUnless :
    EndsUnless (¬ graph.Acyclic) (fun _ => True) (Id.run (graph.headNode? id).run) := by
  rw [headNode?, run_bind]
  apply (wellFormed.head_endsUnless known).bind
  intro head? isHead
  cases head? with
  | none => trivial
  | some head =>
    obtain ⟨node, found, _⟩ := isHead head rfl
    rw [run_bind, run_liftM, found]
    trivial

theorem headPosition?_endsUnless :
    EndsUnless (¬ graph.Acyclic) (fun _ => True) (Id.run (graph.headPosition? id).run) := by
  rw [headPosition?, run_bind]
  exact (wellFormed.headNode?_endsUnless known).bind fun _ _ => trivial

theorem isGappedUnit_endsUnless :
    EndsUnless (¬ graph.Acyclic) (fun _ => True) (Id.run (graph.isGappedUnit id).run) := by
  obtain ⟨node, found⟩ := exists_node_of_lt known
  rw [isGappedUnit, run_bind, run_liftM, found]
  simp only [Except.bind]
  split
  · trivial
  · rw [run_bind]
    apply (wellFormed.yield_endsUnless known).bind
    intro positions ascending
    rcases Positions.exists_hasGaps_eq_ok ascending with ⟨gapped, tested⟩
    rw [run_liftM, tested]
    trivial

theorem gapLengthSum_endsUnless :
    EndsUnless (¬ graph.Acyclic) (fun _ => True) (Id.run (graph.gapLengthSum id).run) := by
  rw [gapLengthSum, run_bind]
  apply (wellFormed.yield_endsUnless known).bind
  intro positions ascending
  rcases Positions.exists_gapLengths_of_ascending ascending with ⟨lengths, measured⟩
  rw [run_liftM, Positions.gapLengthSum, measured]
  trivial

omit known in
theorem anyM_isGappedUnit_endsUnless {ids : List NodeId}
    (allKnown : ∀ id ∈ ids, id < graph.nodes.size) :
    EndsUnless (¬ graph.Acyclic) (fun _ => True)
      (Id.run (ids.anyM graph.isGappedUnit : ExceptT Fault Id Bool).run) := by
  induction ids with
  | nil => trivial
  | cons first rest inductionHypothesis =>
    rw [List.anyM_cons, run_bind]
    apply (wellFormed.isGappedUnit_endsUnless (allKnown first List.mem_cons_self)).bind
    intro gapped _
    cases gapped with
    | true => trivial
    | false =>
      exact inductionHypothesis fun id member =>
        allKnown id (List.mem_cons_of_mem first member)

theorem gapType_endsUnless :
    EndsUnless (¬ graph.Acyclic) (fun _ => True) (Id.run (graph.gapType id).run) := by
  obtain ⟨node, found⟩ := exists_node_of_lt known
  rw [gapType, run_bind, run_liftM, found]
  simp only [Except.bind]
  split
  · trivial
  · rw [run_bind]
    apply (wellFormed.yield_endsUnless known).bind
    intro positions ascending
    rcases Positions.exists_hasGaps_eq_ok ascending with ⟨gapped, tested⟩
    rw [run_bind, run_liftM, tested]
    simp only [Except.bind]
    split
    · trivial
    · have childrenKnown : ∀ child ∈ (graph.edgesFrom id).map Edge.child,
          child < graph.nodes.size := by
        intro child member
        obtain ⟨edge, edgeMember, rfl⟩ := List.mem_map.mp member
        exact wellFormed.child_lt_of_mem_edgesFrom edgeMember
      rw [run_bind, run_liftM, wellFormed.children_eq_ok known]
      simp only [Except.bind]
      rw [run_bind]
      apply (wellFormed.anyM_isGappedUnit_endsUnless childrenKnown).bind
      intro gappedBelow _
      split <;> trivial

end Graph.WellFormed

/-! ## Readings -/

namespace State.Admissible

variable {state : State} (admissible : state.Admissible)

include admissible

/-- The two topmost stack entries are nodes of the graph. -/
theorem tops_lt {top second : NodeId} {deeper : List NodeId}
    (entries : state.stack.reverse = top :: second :: deeper) :
    top < state.graph.nodes.size ∧ second < state.graph.nodes.size := by
  have known : ∀ id ∈ top :: second :: deeper, id < state.graph.nodes.size := by
    intro id member
    rw [← entries] at member
    exact admissible.stack_lt id (List.mem_reverse.mp member)
  rw [List.forall_mem_cons, List.forall_mem_cons] at known
  exact ⟨known.1, known.2.1⟩

theorem separators?_endsUnless :
    EndsUnless (¬ state.graph.Acyclic) (fun _ => True) (Id.run state.separators?.run) := by
  unfold State.separators?
  split
  · rename_i top second deeper entries
    obtain ⟨topKnown, secondKnown⟩ := admissible.tops_lt entries
    rw [run_bind]
    apply (admissible.wellFormed.headPosition?_endsUnless topKnown).bind
    intro first? _
    cases first? with
    | none => trivial
    | some first =>
      dsimp only
      rw [run_bind]
      apply (admissible.wellFormed.headPosition?_endsUnless secondKnown).bind
      intro other? _
      cases other? with
      | none => trivial
      | some other =>
        obtain ⟨marks, found⟩ :=
          admissible.wellFormed.exists_punctuationBetween_eq_ok first other
        dsimp only
        rw [run_bind, run_liftM, found]
        trivial
  · trivial

/-- Every property of a known node can be asked for. -/
theorem nodeValue?_endsUnless {id : NodeId} (known : id < state.graph.nodes.size)
    (property : Property) :
    EndsUnless (¬ state.graph.Acyclic) (fun _ => True) (property.nodeValue? state id) := by
  have wellFormed := admissible.wellFormed
  obtain ⟨node, found⟩ := Graph.exists_node_of_lt known
  rw [Property.nodeValue?_of_node found, Property.knownValue?]
  cases property with
  | text | partOfSpeech =>
    rw [Property.atKnownNode, run_bind]
    exact (wellFormed.headNode?_endsUnless known).bind fun _ _ => trivial
  | edgeTag =>
    rw [Property.atKnownNode, run_bind, run_liftM, wellFormed.firstInEdge?_eq_ok known]
    trivial
  | separator =>
    rw [Property.atKnownNode, run_bind]
    apply admissible.separators?_endsUnless.bind
    intro separators? _
    split <;> trivial
  | separatorCount =>
    rw [Property.atKnownNode, run_bind]
    exact admissible.separators?_endsUnless.bind fun _ _ => trivial
  | gapType =>
    rw [Property.atKnownNode, run_bind]
    exact (wellFormed.gapType_endsUnless known).bind fun _ _ => trivial
  | gapLengthSum =>
    rw [Property.atKnownNode, run_bind]
    exact (wellFormed.gapLengthSum_endsUnless known).bind fun _ _ => trivial
  | parentCount | childCount => trivial
  | implicitCount =>
    obtain ⟨nodes, children⟩ := wellFormed.exists_childNodes_eq_ok known
    rw [Property.atKnownNode, run_bind, run_liftM, children]
    trivial
  | remoteCount =>
    rw [Property.atKnownNode, run_bind, run_liftM, wellFormed.outEdges_eq_ok known]
    trivial

theorem value_faultsOnlyIf {focus : Focus} (known : focus.Known state.graph)
    (property : Property) :
    FaultsOnlyIf (¬ state.graph.Acyclic) (fun _ => True) (property.value state focus) := by
  cases focus with
  | node id =>
    rw [Property.value_node]
    apply (FaultsOnlyIf.lookUp (admissible.nodeValue?_endsUnless (known id rfl) property)).bind
    intro value? _
    cases value? <;> trivial
  | action action =>
    rw [Property.value_action]
    cases read : property.atAction action with
    | ok value? => cases value? <;> trivial
    | error error =>
      cases property <;> cases read <;> trivial

/-- Whether a known focus is related to another one is always found. -/
theorem exists_indicators_eq_ok (previous : Option Focus) {focus : Focus}
    (known : focus.Known state.graph) :
    ∃ values, indicators state.graph previous focus = .ok values := by
  match previous, focus with
  | none, _ => exact ⟨[], rfl⟩
  | some (.action _), _ => exact ⟨["0"], rfl⟩
  | some (.node _), .action _ => exact ⟨["0"], rfl⟩
  | some (.node parent), .node child =>
    have found := admissible.wellFormed.parents_eq_ok (known child rfl)
    simp [indicators, Focus.isParentOf, found, bind, Except.bind, pure, Except.pure]

theorem indicators_faultsOnlyIf {cut : Prop} {previous : Option Focus} {focus : Focus}
    (known : focus.Known state.graph) :
    FaultsOnlyIf cut (fun _ => True)
      (Halt.lookUp (indicators state.graph previous focus)) := by
  rcases admissible.exists_indicators_eq_ok previous known with ⟨values, found⟩
  rw [found]
  trivial

theorem values_faultsOnlyIf (element : Element) (previous : Option Focus) :
    FaultsOnlyIf (¬ state.graph.Acyclic) (fun _ => True) (element.values state previous) := by
  apply Element.values_ends (admissible.focus_faultsOnlyIf element)
  · intro focus known
    exact admissible.indicators_faultsOnlyIf known
  · intro focus known property _
    exact admissible.value_faultsOnlyIf known property

/-- On an admissible state the only fault is a walk around a cycle. -/
theorem evaluate_faultsOnlyIf (template : Template) :
    FaultsOnlyIf (¬ state.graph.Acyclic) (fun _ => True) (template.evaluate state) := by
  apply Element.allValues_ends
  exact fun element _ previous => admissible.values_faultsOnlyIf element previous

end State.Admissible

end TransitionFeatures
