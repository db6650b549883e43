import TransitionFeatures.Proofs.Evaluation.SeparatorReading
import TransitionFeatures.Proofs.Graph.Attach
import TransitionFeatures.Proofs.Graph.GapType

/-!
# What a remote edge changes

Heads, yields and what is read off them are found along primary edges, so a remote edge makes no
difference to them, not even one that closes a cycle.  Only the gap type looks at children by edges
of both kinds: a unit without gaps of its own becomes a source if the new edge leads from it to the
first unit with gaps below it.  `Graph.remote_edge_unseen` states both.
-/

namespace TransitionFeatures

open DerivedData

/-! ## Separators -/

/-- What is read off the separators is decided by what these nodes hold. -/
theorem Property.ofSeparators_congr {marks? otherMarks? : Option (List Node)}
    (same : otherMarks?.map (List.map Node.content) = marks?.map (List.map Node.content))
    (property : Property) : property.ofSeparators otherMarks? = property.ofSeparators marks? := by
  cases marks? with
  | none =>
    rw [Option.map_none, Option.map_eq_none_iff] at same
    rw [same]
  | some marks =>
    obtain ⟨otherMarks, rfl, contents⟩ := Option.map_eq_some_iff.mp same
    have length : otherMarks.length = marks.length := by
      simpa using congrArg List.length contents
    cases property with
    | separatorCount => simp [ofSeparators, length]
    | separator =>
      cases marks with
      | nil =>
        rw [List.map_nil, List.map_eq_nil_iff] at contents
        rw [contents]
      | cons mark rest =>
        obtain ⟨other, otherRest, rfl, content, restContents⟩ := List.map_eq_cons_iff.mp contents
        cases rest with
        | nil =>
          obtain rfl := List.map_eq_nil_iff.mp restContents
          simp only [ofSeparators, Node.text?, Node.token?, content]
        | cons second later =>
          obtain ⟨_, _, rfl, _⟩ := List.map_eq_cons_iff.mp restContents
          rfl
    | _ => rfl

/-- Two states have separators that hold the same, and the same is read off them. -/
structure State.SameSeparators (state other : State) : Prop where
  found : ∃ marks? otherMarks?, Id.run state.separators?.run = .ok marks? ∧
    Id.run other.separators?.run = .ok otherMarks? ∧
      otherMarks?.map (List.map Node.content) = marks?.map (List.map Node.content)
  read : ∀ property : Property, property.isSeparator = true → ∀ id,
    property.value other (.node id) = property.value state (.node id)

theorem State.SameSeparators.of_found {state other : State}
    (alike : ∀ id, ∃ change, other.graph.node id = (state.graph.node id).map change)
    {marks? otherMarks? : Option (List Node)}
    (found : Id.run state.separators?.run = .ok marks?)
    (otherFound : Id.run other.separators?.run = .ok otherMarks?)
    (same : otherMarks?.map (List.map Node.content) = marks?.map (List.map Node.content)) :
    state.SameSeparators other where
  found := ⟨marks?, otherMarks?, found, otherFound, same⟩
  read property separator id := by
    obtain ⟨change, looked⟩ := alike id
    rw [Property.value_of_separators? separator found,
      Property.value_of_separators? separator otherFound, Property.ofSeparators_congr same, looked]
    cases state.graph.node id <;> rfl

namespace Graph

variable {graph : Graph} {edge : Edge}

/-- The marks between two positions hold what they held. -/
theorem exists_punctuationBetween_attach {first second : Nat} {marks : List Node}
    (found : graph.punctuationBetween first second = .ok marks) :
    ∃ otherMarks, (graph.attach edge).punctuationBetween first second = .ok otherMarks ∧
      otherMarks.map Node.content = marks.map Node.content := by
  obtain ⟨nodes, looked, rfl⟩ := punctuationBetween_eq_ok_iff.mp found
  have kept : ∀ id node, graph.node id = .ok node →
      ∃ other, (graph.attach edge).node id = .ok other ∧ other.content = node.content := by
    intro id node found
    obtain ⟨other, otherFound, content, _⟩ := (KeptIn.attach graph edge).node found
    exact ⟨other, otherFound, content⟩
  obtain ⟨others, othersLooked, same⟩ := exists_mapM_eq_ok_of_alike kept looked
  refine ⟨_, punctuationBetween_eq_ok_iff.mpr ⟨others, othersLooked, rfl⟩, ?_⟩
  -- Whether a node is a mark is decided by what it holds.
  have sifted : ∀ nodes : List Node, (nodes.filter Node.isPunctuation).map Node.content =
      (nodes.map Node.content).filter fun content => (Node.isolated content).isPunctuation := by
    intro nodes
    rw [List.filter_map]
    rfl
  rw [sifted, sifted, same]

end Graph

namespace State.Admissible

variable {state : State} (admissible : state.Admissible) {edge : Edge}

include admissible

/-- The heads of the stack tops stand where they stood. -/
theorem topPositions_attach_iff
    (sameHead : ∀ id < state.graph.nodes.size,
      (state.graph.attach edge).head id = state.graph.head id)
    {first second : Nat} :
    ({ state with graph := state.graph.attach edge } : State).TopPositions first second ↔
      state.TopPositions first second := by
  have sameHeads : ∀ head other,
      ({ state with graph := state.graph.attach edge } : State).TopHeads head other ↔
        state.TopHeads head other := by
    intro head other
    unfold TopHeads
    refine exists_congr fun top => exists_congr fun second => exists_congr fun deeper =>
      and_congr_right fun entries => ?_
    obtain ⟨topKnown, secondKnown⟩ := admissible.tops_lt entries
    rw [sameHead top topKnown, sameHead second secondKnown]
  unfold TopPositions
  simp only [sameHeads, Graph.attach_terminals]

variable (acyclic : state.graph.Acyclic)

include acyclic

/-- Separators hold what they held if no head has moved. -/
theorem sameSeparators_attach (grown : (state.graph.attach edge).Acyclic)
    (otherAdmissible : ({ state with graph := state.graph.attach edge } : State).Admissible)
    (sameHead : ∀ id < state.graph.nodes.size,
      (state.graph.attach edge).head id = state.graph.head id) :
    state.SameSeparators { state with graph := state.graph.attach edge } := by
  have samePositions := @topPositions_attach_iff state admissible edge sameHead
  have alike : ∀ id, ∃ change,
      (state.graph.attach edge).node id = (state.graph.node id).map change :=
    fun id => ⟨_, Graph.node_attach state.graph edge id⟩
  by_cases places : ∃ first second, state.TopPositions first second
  · obtain ⟨first, second, places⟩ := places
    obtain ⟨marks, found⟩ := admissible.wellFormed.exists_punctuationBetween_eq_ok first second
    obtain ⟨otherMarks, otherFound, same⟩ :=
      @Graph.exists_punctuationBetween_attach state.graph edge first second marks found
    refine @SameSeparators.of_found state _ alike (some marks) (some otherMarks) ?_ ?_ ?_
    · rw [admissible.run_separators?_of_topPositions places, found]
      rfl
    · rw [otherAdmissible.run_separators?_of_topPositions (samePositions.mpr places), otherFound]
      rfl
    · exact congrArg some same
  · simp only [not_exists] at places
    apply SameSeparators.of_found alike
      (admissible.run_separators?_of_not_topPositions acyclic places)
      (otherAdmissible.run_separators?_of_not_topPositions grown ?_) rfl
    intro first second otherPlaces
    exact places first second (samePositions.mp otherPlaces)

end State.Admissible

/-! ## Gaps -/

theorem GapType.eq_of_iff {gapType other : GapType} (samePass : other = .pass ↔ gapType = .pass)
    (sameSource : other = .source ↔ gapType = .source) : other = gapType := by
  cases gapType <;> cases other <;> simp_all

namespace Graph

/-- The new edge leads from a unit without gaps at it or right below it to a unit with gaps. -/
structure MakesSource (graph : Graph) (parent child : NodeId) : Prop where
  parent_unit : graph.IsUnit parent
  child_unit : graph.IsUnit child
  parent_whole : ¬ graph.Gapped parent
  below_whole : ¬ graph.GappedBelow parent
  child_gapped : graph.Gapped child

/-- Two graphs in which the same is found at a node along primary edges. -/
structure SameDerived (graph other : Graph) (id : NodeId) : Prop where
  head : graph.SameHead other id
  yield : ∃ positions, graph.yield id = .ok positions ∧ other.yield id = .ok positions
  gapLengthSum : ∃ sum, Id.run (graph.gapLengthSum id).run = .ok sum ∧
    Id.run (other.gapLengthSum id).run = .ok sum

namespace WellFormed

variable {graph : Graph} {edge : Edge} (wellFormed : graph.WellFormed)
  (parentKnown : edge.parent < graph.nodes.size) (childKnown : edge.child < graph.nodes.size)
  (remote : edge.remote = true)

include wellFormed parentKnown childKnown remote

theorem head_attach_of_remote {id : NodeId} (known : id < graph.nodes.size) :
    (graph.attach edge).head id = graph.head id := by
  have refused : ¬ graph.eligible edge = true := by simp [eligible, remote]
  refine @head_attach graph edge (· < graph.nodes.size) ?_ ?_ id known
  · intro id known _
    exact wellFormed.headEdge?_attach_eq_self parentKnown childKnown known fun both =>
      refused both.2
  · intro id best known _ chosen
    exact wellFormed.lt_size_of_headEdge? known chosen

theorem run_gapLengthSum_attach_of_remote {id : NodeId} (known : id < graph.nodes.size) :
    Id.run ((graph.attach edge).gapLengthSum id).run = Id.run (graph.gapLengthSum id).run := by
  rw [run_gapLengthSum, run_gapLengthSum,
    wellFormed.yield_attach_of_remote parentKnown childKnown remote known]

theorem gapped_attach_iff {id : NodeId} (known : id < graph.nodes.size) :
    (graph.attach edge).Gapped id ↔ graph.Gapped id := by
  unfold Gapped
  rw [wellFormed.run_gapLengthSum_attach_of_remote parentKnown childKnown remote known]

/-- Below a node there are the units with gaps that were there, and the new one. -/
theorem gappedBelow_attach_iff {id : NodeId} :
    (graph.attach edge).GappedBelow id ↔
      graph.GappedBelow id ∨
        edge.parent = id ∧ graph.IsUnit edge.child ∧ graph.Gapped edge.child := by
  have sameGaps : ∀ other ∈ graph.edges,
      ((graph.attach edge).Gapped other.child ↔ graph.Gapped other.child) := fun other member =>
    wellFormed.gapped_attach_iff parentKnown childKnown remote (wellFormed.child_lt other member)
  simp only [GappedBelow, attach_edges, Array.mem_push, isUnit_attach_iff, or_and_right,
    exists_or, exists_eq_left,
    wellFormed.gapped_attach_iff parentKnown childKnown remote childKnown]
  refine or_congr_left (exists_congr fun other => and_congr_right fun member => ?_)
  rw [sameGaps other member]

variable (acyclic : graph.Acyclic)

include acyclic

theorem sameDerived_attach_of_remote {id : NodeId} (known : id < graph.nodes.size) :
    graph.SameDerived (graph.attach edge) id := by
  obtain ⟨head?, headFound, _⟩ := wellFormed.exists_head_eq_ok acyclic known
  obtain ⟨positions, yieldFound, _, _, measured, _⟩ := wellFormed.exists_yield_gaps acyclic known
  exact {
    head := ⟨head?, headFound,
      (wellFormed.head_attach_of_remote parentKnown childKnown remote known).trans headFound⟩
    yield := ⟨positions, yieldFound,
      (wellFormed.yield_attach_of_remote parentKnown childKnown remote known).trans yieldFound⟩
    gapLengthSum := ⟨_, measured,
      (wellFormed.run_gapLengthSum_attach_of_remote parentKnown childKnown remote known).trans
        measured⟩ }

/-- The gap type of a node stays unless the new edge makes the node a source. -/
theorem exists_gapType_attach_of_remote {id : NodeId} (known : id < graph.nodes.size) :
    ∃ before after, Id.run (graph.gapType id).run = .ok before ∧
      Id.run ((graph.attach edge).gapType id).run = .ok after ∧
      (id = edge.parent ∧ graph.MakesSource edge.parent edge.child →
        before = .none ∧ after = .source) ∧
      (¬ (id = edge.parent ∧ graph.MakesSource edge.parent edge.child) → after = before) := by
  have grown := wellFormed.attach parentKnown childKnown
  have stillAcyclic := acyclic.attach_of_remote remote
  obtain ⟨before, found, passIff, sourceIff⟩ := wellFormed.exists_gapType_eq_ok acyclic known
  obtain ⟨after, afterFound, afterPassIff, afterSourceIff⟩ :=
    grown.exists_gapType_eq_ok stillAcyclic ((attach_size graph edge).symm ▸ known)
  rw [wellFormed.gapped_attach_iff parentKnown childKnown remote known] at afterPassIff
  rw [wellFormed.gapped_attach_iff parentKnown childKnown remote known,
    wellFormed.gappedBelow_attach_iff parentKnown childKnown remote,
    isUnit_attach_iff] at afterSourceIff
  refine ⟨before, after, found, afterFound, ?_, ?_⟩
  · rintro ⟨rfl, makes⟩
    constructor
    · rw [GapType.eq_none_iff, ne_eq, passIff, ne_eq, sourceIff]
      exact ⟨makes.parent_whole, fun source => makes.below_whole source.2.2⟩
    · exact afterSourceIff.mpr ⟨makes.parent_unit, makes.parent_whole,
        Or.inr ⟨rfl, makes.child_unit, makes.child_gapped⟩⟩
  · intro makesNone
    have sameSource : after = .source ↔ before = .source := by
      rw [afterSourceIff, sourceIff]
      refine and_congr_right fun unit => and_congr_right fun whole => or_iff_left_of_imp ?_
      rintro ⟨rfl, childUnit, childGapped⟩
      by_contra belowWhole
      exact makesNone ⟨rfl, unit, childUnit, whole, belowWhole, childGapped⟩
    exact GapType.eq_of_iff (afterPassIff.trans passIff.symm) sameSource

end WellFormed

/-- A remote edge can be added between any two nodes of a graph without cycles, which gets none
by it.  Every node keeps its head, its yield and the length of its gaps, and every state its
separators.  Every node also keeps its gap type, apart from the upper end of the new edge, which
turns from a node with no gaps to tell of into a source if the edge leads to the first unit with
gaps below it. -/
theorem remote_edge_unseen {steps : List BuildStep} {graph : Graph}
    (built : build steps = .ok graph) (acyclic : graph.Acyclic) (tag : String)
    {parent child : NodeId} (parentKnown : parent < graph.nodes.size)
    (childKnown : child < graph.nodes.size) :
    ∃ next, graph.addRemote tag parent child = .ok next ∧ next.Acyclic ∧
      (∀ id < graph.nodes.size, graph.SameDerived next id) ∧
      (∀ state : State, state.Admissible → state.graph = graph →
        state.SameSeparators { state with graph := next }) ∧
      ∀ id < graph.nodes.size, ∃ before after,
        Id.run (graph.gapType id).run = .ok before ∧ Id.run (next.gapType id).run = .ok after ∧
        (id = parent ∧ graph.MakesSource parent child → before = .none ∧ after = .source) ∧
        (¬ (id = parent ∧ graph.MakesSource parent child) → after = before) := by
  have wellFormed := wellFormed_of_build built
  let edge : Edge := { tag, parent, child, remote := true }
  have added : graph.addRemote tag parent child = .ok (graph.attach edge) :=
    connect_eq_ok_iff.mpr ⟨parentKnown, childKnown, rfl⟩
  have grown : (graph.attach edge).Acyclic := acyclic.attach_of_remote rfl
  refine ⟨graph.attach edge, added, grown, ?_, ?_, ?_⟩
  · intro id known
    exact wellFormed.sameDerived_attach_of_remote parentKnown childKnown rfl acyclic known
  · rintro state admissible rfl
    have rebuilt : build (steps ++ [.remote tag parent child]) = .ok (state.graph.attach edge) :=
      build_append_singleton_eq_ok_iff.mpr ⟨state.graph, built, added⟩
    have otherAdmissible : ({ state with graph := state.graph.attach edge } : State).Admissible :=
      { built := ⟨_, rebuilt⟩
        stack_lt := fun id member => (attach_size _ _).symm ▸ admissible.stack_lt id member
        buffer_lt := fun id member => (attach_size _ _).symm ▸ admissible.buffer_lt id member }
    exact admissible.sameSeparators_attach acyclic grown otherAdmissible fun _ known =>
      wellFormed.head_attach_of_remote parentKnown childKnown rfl known
  · intro id known
    exact wellFormed.exists_gapType_attach_of_remote parentKnown childKnown rfl acyclic known

/-- How "he presumably left" is annotated with a unit around another, before a remote edge leads
back up from the inner one. -/
def enclosedSteps : List BuildStep :=
  [.terminal "he" "PRP", .punctuation "," ",", .terminal "left" "VBD", .unit, .unit,
    .edge EdgeTag.process 3 2, .edge EdgeTag.participant 4 0, .edge EdgeTag.center 4 3]

/-- The remote edge closes a cycle.  The inner unit, which has no gaps, becomes a source by it, the
outer one passes its gap on as before, and the comma between their tokens is read as before. -/
theorem remote_edge_unseen_enclosed :
    ∃ graph next, build enclosedSteps = .ok graph ∧ graph.Acyclic ∧ 3 < graph.nodes.size ∧
      4 < graph.nodes.size ∧ graph.addRemote EdgeTag.participant 3 4 = .ok next ∧
      next.Acyclic ∧ next.head 4 = .ok (some 2) ∧ next.yield 4 = .ok [0, 2] ∧
      Id.run (graph.gapType 3).run = .ok .none ∧ Id.run (next.gapType 3).run = .ok .source ∧
      Id.run (next.gapType 4).run = .ok .pass ∧
      Property.separator.value { State.fresh next with stack := [0, 3] } (.node 1) = .ok "," := by
  obtain ⟨graph, built, size, head, yielded, inner, outer, typed, comma, only, token, units, down⟩ :
      ∃ graph, build enclosedSteps = .ok graph ∧ graph.nodes.size = 5 ∧
        graph.head 4 = .ok (some 2) ∧ graph.yield 4 = .ok [0, 2] ∧
        Id.run (graph.gapLengthSum 3).run = .ok 0 ∧ Id.run (graph.gapLengthSum 4).run = .ok 1 ∧
        Id.run (graph.gapType 4).run = .ok .pass ∧
        Property.separator.value { State.fresh graph with stack := [0, 3] } (.node 1) = .ok "," ∧
        (∀ edge ∈ graph.edges, edge.parent = 3 → edge.child = 2) ∧ graph.IsToken 2 ∧
        (graph.IsUnit 3 ∧ graph.IsUnit 4) ∧
        ∀ edge ∈ graph.edges, edge.remote = false → edge.child < edge.parent :=
    ⟨_, rfl, rfl, rfl, rfl, rfl, rfl, rfl, rfl, by decide, ⟨_, rfl, rfl⟩,
      ⟨⟨_, rfl, rfl⟩, ⟨_, rfl, rfl⟩⟩, by decide⟩
  have acyclic := acyclic_of_child_lt_parent down
  have innerKnown : 3 < graph.nodes.size := by rw [size]; decide
  have outerKnown : 4 < graph.nodes.size := by rw [size]; decide
  have makesSource : graph.MakesSource 3 4 := {
    parent_unit := units.1
    child_unit := units.2
    parent_whole := by
      rintro ⟨sum, measured, positive⟩
      cases inner.symm.trans measured
      exact Nat.lt_irrefl 0 positive
    below_whole := by
      rintro ⟨edge, member, leaves, unit, _⟩
      exact token.not_isUnit (only edge member leaves ▸ unit)
    child_gapped := ⟨1, outer, Nat.one_pos⟩ }
  obtain ⟨next, added, grown, derived, separators, types⟩ :=
    remote_edge_unseen built acyclic EdgeTag.participant innerKnown outerKnown
  obtain ⟨⟨_, headFound, nextHead⟩, ⟨_, yieldFound, nextYield⟩, _⟩ := derived 4 outerKnown
  cases headFound.symm.trans head
  cases yieldFound.symm.trans yielded
  obtain ⟨_, _, before, after, turns, _⟩ := types 3 innerKnown
  obtain ⟨rfl, rfl⟩ := turns ⟨rfl, makesSource⟩
  obtain ⟨_, _, passes, passesOn, _, stays⟩ := types 4 outerKnown
  cases passes.symm.trans typed
  cases stays fun both => absurd both.1 (by decide)
  have admissible : State.Admissible { State.fresh graph with stack := [0, 3] } :=
    { built := ⟨_, built⟩
      stack_lt := by
        change ∀ id ∈ [0, 3], id < graph.nodes.size
        rw [size]
        decide
      buffer_lt := nofun }
  refine ⟨graph, next, built, acyclic, innerKnown, outerKnown, added, grown, nextHead, nextYield,
    before, after, passesOn, ?_⟩
  exact ((separators _ admissible rfl).read .separator rfl 1).trans comma

end Graph

end TransitionFeatures
