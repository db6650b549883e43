import Mathlib.Algebra.BigOperators.Group.Finset.Basic
import Std.Data.String.ToNat
import TransitionFeatures.Proofs.Evaluation.Walk
import TransitionFeatures.Proofs.Graph.Consistency

/-!
# What is read off edges

Four properties count edges at a node, one reads the tag of the first edge into it, and steps go
along its edges.  Each looks at one of the two lists of edges that the node stores.  Every edge is
stored once at each of its ends, also if the ends are the same node or an edge is repeated, so the
counts add up over all nodes to the numbers of edges that were added.  Edges are stored in the order
in which they were made, so what is read off the first edge into a node stays as it is when the
graph grows.  `State.edge_readings_agree` states all this for every graph that is built.
-/

namespace TransitionFeatures

/-! ## Additions of edges -/

namespace BuildStep

/-- Whether an addition is that of an edge, primary or remote. -/
def addsEdge : BuildStep → Bool
  | edge .. | remote .. => true
  | terminal .. | punctuation .. | unit | implicit => false

/-- Whether an addition is that of a remote edge. -/
def addsRemote : BuildStep → Bool
  | remote .. => true
  | terminal .. | punctuation .. | unit | implicit | edge .. => false

theorem isSome_edge? (step : BuildStep) : step.edge?.isSome = step.addsEdge := by
  cases step <;> rfl

theorem remote_edge? (step : BuildStep) :
    (step.edge?.map Edge.remote).getD false = step.addsRemote := by
  cases step <;> rfl

end BuildStep

namespace Graph

theorem length_edges_of_build {steps : List BuildStep} {graph : Graph}
    (built : build steps = .ok graph) :
    graph.edges.toList.length = steps.countP BuildStep.addsEdge := by
  rw [edges_toList_of_build built, List.length_filterMap_eq_countP]
  exact List.countP_congr fun step _ => by rw [step.isSome_edge?]

theorem countP_remote_of_build {steps : List BuildStep} {graph : Graph}
    (built : build steps = .ok graph) :
    graph.edges.toList.countP Edge.remote = steps.countP BuildStep.addsRemote := by
  rw [edges_toList_of_build built, List.countP_filterMap]
  exact List.countP_congr fun step _ => by rw [step.remote_edge?]

/-! ## Sums over the nodes -/

/-- Every edge that passes a test is counted once among those with the same end. -/
theorem sum_countP_filter_eq_countP {edges : List Edge} {ending : Edge → NodeId} {bound : Nat}
    (known : ∀ edge ∈ edges, ending edge < bound) (test : Edge → Bool) :
    ∑ id ∈ Finset.range bound, (edges.filter fun edge => ending edge = id).countP test =
      edges.countP test := by
  let ends : Multiset NodeId := ↑((edges.filter test).map ending)
  have endsKnown : ∀ id ∈ ends, id ∈ Finset.range bound := by
    intro id member
    obtain ⟨edge, edgeMember, rfl⟩ := List.mem_map.mp (Multiset.mem_coe.mp member)
    exact Finset.mem_range.mpr (known edge (List.mem_filter.mp edgeMember).1)
  have countedAt : ∀ id, (edges.filter fun edge => ending edge = id).countP test =
      ends.count id := by
    intro id
    rw [Multiset.coe_count, List.count_eq_countP, List.countP_map, List.countP_filter,
      List.countP_filter]
    exact List.countP_congr fun edge _ => by simp [and_comm]
  calc
    ∑ id ∈ Finset.range bound, (edges.filter fun edge => ending edge = id).countP test =
        ∑ id ∈ Finset.range bound, ends.count id :=
      Finset.sum_congr rfl fun id _ => countedAt id
    _ = ends.card := Multiset.sum_count_eq_card endsKnown
    _ = edges.countP test := by
      rw [Multiset.coe_card, List.length_map, List.countP_eq_length_filter]

namespace WellFormed

variable {graph : Graph} (wellFormed : graph.WellFormed)

include wellFormed

theorem sum_countP_edgesFrom (test : Edge → Bool) :
    ∑ id ∈ Finset.range graph.nodes.size, (graph.edgesFrom id).countP test =
      graph.edges.toList.countP test :=
  sum_countP_filter_eq_countP
    (fun edge member => wellFormed.parent_lt edge (Array.mem_toList_iff.mp member)) test

theorem sum_length_edgesFrom :
    ∑ id ∈ Finset.range graph.nodes.size, (graph.edgesFrom id).length =
      graph.edges.toList.length := by
  simpa only [List.countP_true] using wellFormed.sum_countP_edgesFrom fun _ => true

theorem sum_length_edgesInto :
    ∑ id ∈ Finset.range graph.nodes.size, (graph.edgesInto id).length =
      graph.edges.toList.length := by
  have counted : ∑ id ∈ Finset.range graph.nodes.size,
      (graph.edgesInto id).countP (fun _ => true) = graph.edges.toList.countP fun _ => true :=
    sum_countP_filter_eq_countP
      (fun edge member => wellFormed.child_lt edge (Array.mem_toList_iff.mp member)) _
  simpa only [List.countP_true] using counted

end WellFormed

/-! ## The first edge into a node -/

/-- An edge enters a node, and no edge that was made before it does. -/
structure EntersFirst (graph : Graph) (id : NodeId) (number : EdgeId) (edge : Edge) : Prop where
  found : graph.edge number = .ok edge
  enters : edge.child = id
  first : ∀ {other otherEdge}, graph.edge other = .ok otherEdge → otherEdge.child = id →
    number ≤ other

theorem head?_edgesInto_eq_some_iff {graph : Graph} {id : NodeId} {edge : Edge} :
    (graph.edgesInto id).head? = some edge ↔ ∃ number, graph.EntersFirst id number edge := by
  rw [edgesInto, List.head?_filter, List.find?_eq_some_iff_getElem]
  constructor
  · rintro ⟨enters, number, bound, entry, earlier⟩
    refine ⟨number, ?_, of_decide_eq_true enters, fun {other otherEdge} found otherEnters => ?_⟩
    · rw [edge_eq_ok_iff, ← Array.getElem?_toList, List.getElem?_eq_getElem bound, entry]
    · by_contra before
      have refused := earlier other (Nat.lt_of_not_le before)
      rw [edge_eq_ok_iff, ← Array.getElem?_toList] at found
      obtain ⟨_, otherEntry⟩ := List.getElem?_eq_some_iff.mp found
      rw [otherEntry] at refused
      simp [otherEnters] at refused
  · rintro ⟨number, found, enters, first⟩
    have entry := edge_eq_ok_iff.mp found
    rw [← Array.getElem?_toList] at entry
    obtain ⟨bound, entry⟩ := List.getElem?_eq_some_iff.mp entry
    refine ⟨decide_eq_true enters, number, bound, entry, fun other before => ?_⟩
    rw [Bool.not_eq_true', decide_eq_false_iff_not]
    intro otherEnters
    have otherFound : graph.edge other = .ok graph.edges.toList[other] := by
      rw [edge_eq_ok_iff, ← Array.getElem?_toList, List.getElem?_eq_getElem]
    exact Nat.not_le_of_lt before (first otherFound otherEnters)

/-- An edge that is the first into a node stays the first: later ones come after it. -/
theorem KeptIn.entersFirst {graph later : Graph} (kept : graph.KeptIn later) {id : NodeId}
    {number : EdgeId} {edge : Edge} (first : graph.EntersFirst id number edge) :
    later.EntersFirst id number edge where
  found := kept.edge first.found
  enters := first.enters
  first {other otherEdge} found enters := by
    by_contra before
    have bound := (Array.getElem?_eq_some_iff.mp (edge_eq_ok_iff.mp first.found)).1
    have early : other < graph.edges.size := (Nat.lt_of_not_le before).trans bound
    have there : graph.edge other = .ok graph.edges[other] :=
      edge_eq_ok_iff.mpr (Array.getElem?_eq_getElem early)
    cases (kept.edge there).symm.trans found
    exact before (first.first there enters)

end Graph

/-! ## Readings at a node -/

namespace Property

variable {state : State} (wellFormed : state.graph.WellFormed) {id : NodeId}
  (known : id < state.graph.nodes.size)

include wellFormed known

theorem value_parentCount :
    parentCount.value state (.node id) = .ok (toString (state.graph.edgesInto id).length) := by
  obtain ⟨node, found⟩ := Graph.exists_node_of_lt known
  have entering := wellFormed.inEdges_eq_ok known
  simp only [Graph.inEdges, found, bind, Except.bind] at entering
  rw [length_eq_of_mapM_eq_ok entering, value_of_node found]
  rfl

theorem value_childCount :
    childCount.value state (.node id) = .ok (toString (state.graph.edgesFrom id).length) := by
  obtain ⟨node, found⟩ := Graph.exists_node_of_lt known
  have leaving := wellFormed.outEdges_eq_ok known
  simp only [Graph.outEdges, found, bind, Except.bind] at leaving
  rw [length_eq_of_mapM_eq_ok leaving, value_of_node found]
  rfl

/-- The nodes at the lower ends are counted as often as edges lead to them. -/
theorem value_implicitCount :
    implicitCount.value state (.node id) =
      .ok (toString ((state.graph.edgesFrom id).countP fun edge =>
        state.graph.nodes[edge.child]?.any Node.isImplicit)) := by
  obtain ⟨node, nodeFound⟩ := Graph.exists_node_of_lt known
  obtain ⟨nodes, found⟩ := wellFormed.exists_childNodes_eq_ok known
  have looked := found
  rw [Graph.childNodes, wellFormed.children_eq_ok known] at looked
  have counted : nodes.countP Node.isImplicit =
      (state.graph.edgesFrom id).countP fun edge =>
        state.graph.nodes[edge.child]?.any Node.isImplicit := by
    have sifted := @length_filter_of_mapM_eq_ok _ _ _ _ Node.isImplicit
      (fun child => state.graph.nodes[child]?.any Node.isImplicit) _ _ looked
      fun child node childFound => by rw [Graph.node_eq_ok_iff.mp childFound, Option.any_some]
    rwa [← List.countP_eq_length_filter, ← List.countP_eq_length_filter, List.countP_map] at sifted
  rw [← counted, value_of_node nodeFound, knownValue?, atKnownNode, DerivedData.run_bind,
    DerivedData.run_liftM, found]
  rfl

theorem value_remoteCount :
    remoteCount.value state (.node id) =
      .ok (toString ((state.graph.edgesFrom id).countP Edge.remote)) := by
  obtain ⟨node, found⟩ := Graph.exists_node_of_lt known
  rw [value_of_node found, knownValue?, atKnownNode, DerivedData.run_bind, DerivedData.run_liftM,
    wellFormed.outEdges_eq_ok known]
  rfl

theorem value_edgeTag :
    edgeTag.value state (.node id) =
      edgeTag.orSkip ((state.graph.edgesInto id).head?.map Edge.tag) := by
  obtain ⟨node, found⟩ := Graph.exists_node_of_lt known
  rw [value_of_node found, knownValue?, atKnownNode, DerivedData.run_bind, DerivedData.run_liftM,
    wellFormed.firstInEdge?_eq_ok known]
  rfl

theorem value_parentCount_eq_zero_iff :
    parentCount.value state (.node id) = .ok "0" ↔ state.graph.edgesInto id = [] := by
  rw [value_parentCount wellFormed known, Except.ok.injEq, ← List.length_eq_zero_iff]
  exact @Nat.repr_inj _ 0

theorem value_childCount_eq_iff {count : Nat} :
    childCount.value state (.node id) = .ok (toString count) ↔
      (state.graph.edgesFrom id).length = count := by
  rw [value_childCount wellFormed known, Except.ok.injEq]
  exact Nat.repr_inj

end Property

/-- How what is read off the edges at a node goes together, and what of it stays. -/
structure State.EdgesAgree (state : State) (id : NodeId) : Prop where
  edgeTag_error_iff : ∀ halt, Property.edgeTag.value state (.node id) = .error halt ↔
    halt = .skip (.undefined .edgeTag) ∧ Property.parentCount.value state (.node id) = .ok "0"
  parent_error_iff : ∀ halt, Navigation.move state.graph id .parent = .error halt ↔
    halt = .skip .noParent ∧ Property.parentCount.value state (.node id) = .ok "0"
  noChildren_iff : ∀ step, step ≠ .parent →
    (Navigation.move state.graph id step = .error (.skip .noChildren) ↔
      Property.childCount.value state (.node id) = .ok "0")
  onlyChild_iff : (∃ child, Navigation.move state.graph id .onlyChild = .ok child) ↔
    Property.childCount.value state (.node id) = .ok "1"
  /-- The tag and the step to the parent are those of the same edge. -/
  read_first : Property.parentCount.value state (.node id) ≠ .ok "0" →
    ∃ number edge, state.graph.EntersFirst id number edge ∧
      Property.edgeTag.value state (.node id) = .ok edge.tag ∧
      Navigation.move state.graph id .parent = .ok edge.parent
  /-- Later additions change neither of them. -/
  lasting : ∀ steps later, state.graph.extendAll steps = .ok later.graph →
    (∀ tag, Property.edgeTag.value state (.node id) = .ok tag →
      Property.edgeTag.value later (.node id) = .ok tag) ∧
    ∀ parent, Navigation.move state.graph id .parent = .ok parent →
      Navigation.move later.graph id .parent = .ok parent

namespace Graph.EntersFirst

variable {state : State} (wellFormed : state.graph.WellFormed) {id : NodeId}
  (known : id < state.graph.nodes.size) {number : EdgeId} {edge : Edge}
  (first : state.graph.EntersFirst id number edge)

include wellFormed known first

theorem value_edgeTag : Property.edgeTag.value state (.node id) = .ok edge.tag := by
  rw [Property.value_edgeTag wellFormed known, head?_edgesInto_eq_some_iff.mpr ⟨number, first⟩]
  rfl

theorem move_parent : Navigation.move state.graph id .parent = .ok edge.parent := by
  obtain ⟨later, entering⟩ :=
    List.head?_eq_some_iff.mp (head?_edgesInto_eq_some_iff.mpr ⟨number, first⟩)
  exact (Navigation.Leads.toParent entering).move_eq wellFormed known

end Graph.EntersFirst

namespace State

open TransitionFeatures.Graph

section WellFormed

variable {state : State} (wellFormed : state.graph.WellFormed) {id : NodeId}
  (known : id < state.graph.nodes.size)

include wellFormed known

/-- Either no edge enters a node, and neither a tag nor a parent is found, or one is the first and
both are found at it. -/
theorem reads_nothing_or_first :
    (Property.parentCount.value state (.node id) = .ok "0" ∧
      Property.edgeTag.value state (.node id) = .error (.skip (.undefined .edgeTag)) ∧
      Navigation.move state.graph id .parent = .error (.skip .noParent)) ∨
    Property.parentCount.value state (.node id) ≠ .ok "0" ∧
      ∃ number edge, state.graph.EntersFirst id number edge ∧
        Property.edgeTag.value state (.node id) = .ok edge.tag ∧
        Navigation.move state.graph id .parent = .ok edge.parent := by
  rw [ne_eq, Property.value_parentCount_eq_zero_iff wellFormed known]
  cases entering : state.graph.edgesInto id with
  | nil =>
    refine Or.inl ⟨rfl, ?_, (Navigation.Leads.noParent entering).move_eq wellFormed known⟩
    rw [Property.value_edgeTag wellFormed known, entering]
    rfl
  | cons edge later =>
    obtain ⟨number, first⟩ :=
      head?_edgesInto_eq_some_iff.mp (List.head?_eq_some_iff.mpr ⟨later, entering⟩)
    exact Or.inr ⟨List.cons_ne_nil edge later, number, edge, first,
      first.value_edgeTag wellFormed known, first.move_parent wellFormed known⟩

theorem exists_onlyChild_iff :
    (∃ child, Navigation.move state.graph id .onlyChild = .ok child) ↔
      (state.graph.edgesFrom id).length = 1 := by
  rw [Navigation.move_of_ne_parent wellFormed known .onlyChild nofun]
  match state.graph.edgesFrom id with
  | [] => simp [Navigation.stepDown, Except.mapError]
  | [only] => simp [Navigation.stepDown, Except.mapError]
  | _ :: _ :: _ => simp [Navigation.stepDown, Except.mapError]

theorem edgesAgree : state.EdgesAgree id := by
  have atParent := reads_nothing_or_first wellFormed known
  constructor
  case edgeTag_error_iff =>
    intro halt
    rcases atParent with ⟨nothing, undefined, _⟩ | ⟨something, _, _, _, read, _⟩
    · simp [undefined, nothing, eq_comm]
    · simp [read, something]
  case parent_error_iff =>
    intro halt
    rcases atParent with ⟨nothing, _, failed⟩ | ⟨something, _, _, _, _, moved⟩
    · simp [failed, nothing, eq_comm]
    · simp [moved, something]
  case noChildren_iff =>
    intro step down
    have stepwise := Navigation.goesStepwise wellFormed known
    rw [stepwise.noChildren_iff, and_iff_right down, ← List.length_eq_zero_iff]
    exact (Property.value_childCount_eq_iff wellFormed known).symm
  case onlyChild_iff =>
    rw [exists_onlyChild_iff wellFormed known]
    exact (Property.value_childCount_eq_iff wellFormed known).symm
  case read_first =>
    intro something
    rcases atParent with ⟨nothing, _⟩ | ⟨_, first⟩
    · exact absurd nothing something
    · exact first
  case lasting =>
    intro steps later extended
    have kept := KeptIn.extendAll extended
    have laterWellFormed := wellFormed.extendAll extended
    have laterKnown : id < later.graph.nodes.size := by
      obtain ⟨node, found⟩ := exists_node_of_lt known
      exact exists_node_iff.mp ((kept.node found).imp fun _ => And.left)
    rcases atParent with ⟨_, undefined, failed⟩ | ⟨_, number, edge, first, read, moved⟩
    · rw [undefined, failed]
      exact ⟨nofun, nofun⟩
    · rw [read, moved]
      have stays := kept.entersFirst first
      constructor
      · rintro tag ⟨⟩
        exact stays.value_edgeTag laterWellFormed laterKnown
      · rintro parent ⟨⟩
        exact stays.move_parent laterWellFormed laterKnown

end WellFormed

/-- On every state over a graph that is built, with loops, repeated edges and cycles or without, the
numbers read as parent and child counts add up over all nodes to the number of additions of edges,
and those read as remote counts to the number of additions of remote edges.  Implicit and remote
children of a node are no more than its children.  Its tag and its parent are those of the first
edge into it, which they stay, and are missing together if and only if no parents are counted; steps
to a child fail for want of children if and only if none are counted, and the one to the only child
succeeds if and only if one is. -/
theorem edge_readings_agree {steps : List BuildStep} {state : State}
    (built : build steps = .ok state.graph) :
    (∃ parents children implicits remotes : NodeId → Nat,
      (∀ id < state.graph.nodes.size,
        Property.parentCount.value state (.node id) = .ok (toString (parents id)) ∧
        Property.childCount.value state (.node id) = .ok (toString (children id)) ∧
        Property.implicitCount.value state (.node id) = .ok (toString (implicits id)) ∧
        Property.remoteCount.value state (.node id) = .ok (toString (remotes id)) ∧
        implicits id ≤ children id ∧ remotes id ≤ children id) ∧
      ∑ id ∈ Finset.range state.graph.nodes.size, parents id =
        steps.countP BuildStep.addsEdge ∧
      ∑ id ∈ Finset.range state.graph.nodes.size, children id =
        steps.countP BuildStep.addsEdge ∧
      ∑ id ∈ Finset.range state.graph.nodes.size, remotes id =
        steps.countP BuildStep.addsRemote) ∧
    ∀ id < state.graph.nodes.size, state.EdgesAgree id := by
  have wellFormed := wellFormed_of_build built
  refine ⟨⟨fun id => (state.graph.edgesInto id).length, fun id => (state.graph.edgesFrom id).length,
    fun id => (state.graph.edgesFrom id).countP fun edge =>
      state.graph.nodes[edge.child]?.any Node.isImplicit,
    fun id => (state.graph.edgesFrom id).countP Edge.remote, ?_, ?_, ?_, ?_⟩,
    fun id known => edgesAgree wellFormed known⟩
  · intro id known
    exact ⟨Property.value_parentCount wellFormed known, Property.value_childCount wellFormed known,
      Property.value_implicitCount wellFormed known, Property.value_remoteCount wellFormed known,
      List.countP_le_length, List.countP_le_length⟩
  · rw [wellFormed.sum_length_edgesInto, length_edges_of_build built]
  · rw [wellFormed.sum_length_edgesFrom, length_edges_of_build built]
  · rw [wellFormed.sum_countP_edgesFrom, countP_remote_of_build built]

/-- How "so" is annotated under a unit that is its own parent and governs the word by two edges
alike, with an implicit unit that governs it by a remote one, and a unit that is left alone. -/
def loopSteps : List BuildStep :=
  [.unit, .terminal "so" "RB", .implicit, .unit, .edge EdgeTag.parallelScene 0 0,
    .edge EdgeTag.center 0 1, .edge EdgeTag.center 0 1, .edge EdgeTag.participant 0 2,
    .remote EdgeTag.adverbial 2 1]

/-- The five edges are counted once at each end, and one of them as remote.  The unit at the loop
stays its own parent when it gets another, and the unit that is left alone has none. -/
theorem edge_readings_agree_loop :
    ∃ graph, build loopSteps = .ok graph ∧
      (∃ parents children remotes : NodeId → Nat,
        (∀ id < 4,
          Property.parentCount.value (.fresh graph) (.node id) = .ok (toString (parents id)) ∧
          Property.childCount.value (.fresh graph) (.node id) = .ok (toString (children id)) ∧
          Property.remoteCount.value (.fresh graph) (.node id) = .ok (toString (remotes id))) ∧
        ∑ id ∈ Finset.range 4, parents id = 5 ∧ ∑ id ∈ Finset.range 4, children id = 5 ∧
        ∑ id ∈ Finset.range 4, remotes id = 1) ∧
      Navigation.move graph 3 .parent = .error (.skip .noParent) ∧
      ∃ later, graph.extendAll [.edge EdgeTag.process 2 0] = .ok later ∧
        Property.edgeTag.value (.fresh later) (.node 0) = .ok EdgeTag.parallelScene ∧
        Navigation.move later 0 .parent = .ok 0 := by
  obtain ⟨graph, built, size, alone, tag, parent, later, extended⟩ : ∃ graph,
      build loopSteps = .ok graph ∧ graph.nodes.size = 4 ∧
        Property.parentCount.value (.fresh graph) (.node 3) = .ok "0" ∧
        Property.edgeTag.value (.fresh graph) (.node 0) = .ok EdgeTag.parallelScene ∧
        Navigation.move graph 0 .parent = .ok 0 ∧
        ∃ later, graph.extendAll [.edge EdgeTag.process 2 0] = .ok later :=
    ⟨_, rfl, rfl, rfl, rfl, rfl, _, rfl⟩
  have builtState : build loopSteps = .ok (State.fresh graph).graph := built
  obtain ⟨⟨parents, children, _, remotes, read, parentSum, childSum, remoteSum⟩, agree⟩ :=
    edge_readings_agree builtState
  have sizeState : (State.fresh graph).graph.nodes.size = 4 := size
  rw [sizeState] at read parentSum childSum remoteSum agree
  have kept := (agree 0 (by decide)).lasting _ (.fresh later) extended
  refine ⟨graph, built, ⟨parents, children, remotes, fun id known => ?_, parentSum, childSum,
    remoteSum⟩, ((agree 3 (by decide)).parent_error_iff _).mpr ⟨rfl, alone⟩, later, extended,
    kept.1 _ tag, kept.2 _ parent⟩
  obtain ⟨atParents, atChildren, _, atRemotes, _⟩ := read id known
  exact ⟨atParents, atChildren, atRemotes⟩

end State

end TransitionFeatures
