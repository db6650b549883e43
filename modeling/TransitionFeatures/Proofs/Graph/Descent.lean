import Mathlib.Data.Finset.Card
import Mathlib.Data.Finset.Range
import Mathlib.Logic.Relation
import TransitionFeatures.Graph.Head
import TransitionFeatures.Graph.Yield
import TransitionFeatures.Proofs.Graph.Representation

/-!
# Descents along primary edges

Heads and yields are found by going down primary edges from units.  A graph is
acyclic if no such descent comes back to where it was.  The number of units below
a node then gets smaller with every step, so the bounds with which `Graph.head`
and `Graph.yield` start are never used up.

On any well-formed graph the two walks give a result or are endless, and they are
endless only around a cycle: `head_endsUnless` and `yield_endsUnless`.
-/

namespace TransitionFeatures

/-! ## Walks that may be cut off -/

/-- A walk gives a value with a property, unless it is cut off as endless. -/
def EndsUnless {α : Type} (cut : Prop) (property : α → Prop) : Except Fault α → Prop :=
  Ends property fun cause => cause = .endless ∧ cut

namespace EndsUnless

variable {α : Type} {cut : Prop} {property : α → Prop} {found : Except Fault α}

/-- A walk that cannot be cut off gives a value. -/
theorem exists_eq_ok (ends : EndsUnless cut property found) (uncut : ¬ cut) :
    ∃ value, found = .ok value ∧ property value := by
  cases found with
  | ok value => exact ⟨value, rfl, ends⟩
  | error cause => exact absurd ends.2 uncut

theorem mono {otherCut : Prop} (ends : EndsUnless cut property found)
    (implies : cut → otherCut) : EndsUnless otherCut property found :=
  Ends.mono ends fun _ => And.imp_right implies

end EndsUnless

/-- A node that holds a token has a position. -/
theorem Node.exists_position {node : Node} (terminal : node.isTerminal = true) :
    ∃ position, node.position? = some position := by
  rw [isTerminal_eq_isSome_position?] at terminal
  exact Option.isSome_iff_exists.mp terminal

namespace Graph

/-! ## Descents -/

/-- A node of the graph that holds no token. -/
def IsUnit (graph : Graph) (id : NodeId) : Prop :=
  ∃ node : Node, graph.nodes[id]? = some node ∧ node.isTerminal = false

/-- A node of the graph that holds a token. -/
def IsToken (graph : Graph) (id : NodeId) : Prop :=
  ∃ node : Node, graph.nodes[id]? = some node ∧ node.isTerminal = true

theorem IsToken.not_isUnit {graph : Graph} {id : NodeId} (token : graph.IsToken id) :
    ¬ graph.IsUnit id := by
  rintro ⟨node, entry, unit⟩
  obtain ⟨other, otherEntry, terminal⟩ := token
  rw [entry] at otherEntry
  cases otherEntry
  rw [unit] at terminal
  cases terminal

theorem isToken_or_isUnit {graph : Graph} {id : NodeId} (known : id < graph.nodes.size) :
    graph.IsToken id ∨ graph.IsUnit id := by
  have entry := Array.getElem?_eq_getElem known
  cases terminal : graph.nodes[id].isTerminal with
  | true => exact Or.inl ⟨_, entry, terminal⟩
  | false => exact Or.inr ⟨_, entry, terminal⟩

theorem IsToken.exists_node {graph : Graph} {id : NodeId} (token : graph.IsToken id) :
    ∃ node, graph.node id = .ok node ∧ node.isTerminal = true := by
  simpa only [node_eq_ok_iff, IsToken] using token

theorem IsToken.exists_position {graph : Graph} {id : NodeId} (token : graph.IsToken id) :
    ∃ node position, graph.node id = .ok node ∧ node.isTerminal = true ∧
      node.position? = some position := by
  obtain ⟨node, found, terminal⟩ := token.exists_node
  obtain ⟨position, place⟩ := Node.exists_position terminal
  exact ⟨node, position, found, terminal, place⟩

theorem IsUnit.exists_node {graph : Graph} {id : NodeId} (unit : graph.IsUnit id) :
    ∃ node, graph.node id = .ok node ∧ node.isTerminal = false := by
  simpa only [node_eq_ok_iff, IsUnit] using unit

theorem isToken_of_position? {graph : Graph} {id : NodeId} {node : Node}
    (found : graph.node id = .ok node) {position : Nat} (place : node.position? = some position) :
    graph.IsToken id := by
  refine ⟨node, node_eq_ok_iff.mp found, ?_⟩
  rw [Node.isTerminal_eq_isSome_position?, place, Option.isSome_some]

theorem isUnit_of_position? {graph : Graph} {id : NodeId} {node : Node}
    (found : graph.node id = .ok node) (noPlace : node.position? = none) : graph.IsUnit id := by
  refine ⟨node, node_eq_ok_iff.mp found, ?_⟩
  rw [Node.isTerminal_eq_isSome_position?, noPlace, Option.isSome_none]

/-- A primary edge leads from a unit to a node. -/
def Descends (graph : Graph) (upper lower : NodeId) : Prop :=
  graph.IsUnit upper ∧
    ∃ edge ∈ graph.edges, edge.remote = false ∧ edge.parent = upper ∧ edge.child = lower

theorem IsToken.not_descends {graph : Graph} {id lower : NodeId} (token : graph.IsToken id) :
    ¬ graph.Descends id lower :=
  fun step => token.not_isUnit step.1

/-- No descent comes back to where it was. -/
def Acyclic (graph : Graph) : Prop :=
  ∀ id, ¬ Relation.TransGen graph.Descends id id

/-- No descent that starts from a node comes back to where it was. -/
def AcyclicBelow (graph : Graph) (id : NodeId) : Prop :=
  ∀ lower, Relation.ReflTransGen graph.Descends id lower →
    ¬ Relation.TransGen graph.Descends lower lower

theorem Acyclic.below {graph : Graph} (acyclic : graph.Acyclic) (id : NodeId) :
    graph.AcyclicBelow id :=
  fun lower _ => acyclic lower

theorem AcyclicBelow.of_descends {graph : Graph} {upper lower : NodeId}
    (acyclic : graph.AcyclicBelow upper) (step : graph.Descends upper lower) :
    graph.AcyclicBelow lower :=
  fun deeper path => acyclic deeper (.head step path)

theorem descends_of_mem_edgesFrom {graph : Graph} {id : NodeId} {edge : Edge}
    (unit : graph.IsUnit id) (member : edge ∈ graph.edgesFrom id)
    (primary : edge.remote = false) : graph.Descends id edge.child :=
  ⟨unit, edge, (mem_edgesFrom.mp member).1, primary, (mem_edgesFrom.mp member).2, rfl⟩

/-- A graph whose units were all made after what they govern is acyclic. -/
theorem acyclic_of_child_lt_parent {graph : Graph}
    (later : ∀ edge ∈ graph.edges, edge.remote = false → edge.child < edge.parent) :
    graph.Acyclic := by
  have down : ∀ upper lower, Relation.TransGen graph.Descends upper lower → lower < upper := by
    intro upper lower path
    induction path with
    | single step =>
      obtain ⟨_, edge, member, primary, rfl, rfl⟩ := step
      exact later edge member primary
    | tail _ step inductionHypothesis =>
      obtain ⟨_, edge, member, primary, rfl, rfl⟩ := step
      exact Nat.lt_trans (later edge member primary) inductionHypothesis
  exact fun id path => Nat.lt_irrefl id (down id id path)

open Classical in
/-- The units that descents from a node pass, the node itself included. -/
noncomputable def unitsBelow (graph : Graph) (id : NodeId) : Finset NodeId :=
  (Finset.range graph.nodes.size).filter fun unit =>
    graph.IsUnit unit ∧ Relation.ReflTransGen graph.Descends id unit

theorem IsUnit.lt_size {graph : Graph} {id : NodeId} (unit : graph.IsUnit id) :
    id < graph.nodes.size := by
  obtain ⟨node, entry, _⟩ := unit
  exact (Array.getElem?_eq_some_iff.mp entry).1

theorem mem_unitsBelow {graph : Graph} {id unit : NodeId} :
    unit ∈ graph.unitsBelow id ↔
      graph.IsUnit unit ∧ Relation.ReflTransGen graph.Descends id unit := by
  simp only [unitsBelow, Finset.mem_filter, Finset.mem_range, and_iff_right_iff_imp]
  exact fun ⟨isUnit, _⟩ => isUnit.lt_size

theorem card_unitsBelow_le (graph : Graph) (id : NodeId) :
    (graph.unitsBelow id).card ≤ graph.nodes.size := by
  have subset : graph.unitsBelow id ⊆ Finset.range graph.nodes.size := fun _ member =>
    Finset.mem_range.mpr (mem_unitsBelow.mp member).1.lt_size
  calc
    (graph.unitsBelow id).card ≤ (Finset.range graph.nodes.size).card :=
      Finset.card_le_card subset
    _ = graph.nodes.size := Finset.card_range _

theorem IsUnit.card_unitsBelow_pos {graph : Graph} {id : NodeId}
    (unit : graph.IsUnit id) : 0 < (graph.unitsBelow id).card :=
  Finset.card_pos.mpr ⟨id, mem_unitsBelow.mpr ⟨unit, .refl⟩⟩

/-- A step down leaves a unit behind that is not below the next node. -/
theorem AcyclicBelow.card_unitsBelow_lt {graph : Graph} {upper lower : NodeId}
    (acyclic : graph.AcyclicBelow upper) (step : graph.Descends upper lower) :
    (graph.unitsBelow lower).card < (graph.unitsBelow upper).card := by
  apply Finset.card_lt_card
  rw [Finset.ssubset_iff_of_subset]
  · refine ⟨upper, mem_unitsBelow.mpr ⟨step.1, .refl⟩, fun member => ?_⟩
    have back := (mem_unitsBelow.mp member).2
    exact acyclic upper .refl (Relation.TransGen.head' step back)
  · intro unit member
    obtain ⟨isUnit, path⟩ := mem_unitsBelow.mp member
    exact mem_unitsBelow.mpr ⟨isUnit, Relation.ReflTransGen.head step path⟩

/-! ## Heads -/

/-- Whether heads are looked for along an edge, read off the table. -/
def eligible (graph : Graph) (edge : Edge) : Bool :=
  !edge.remote && !(graph.nodes[edge.child]?.any Node.isImplicit)

theorem isEligible_eq_ok {graph : Graph} {edge : Edge}
    (childKnown : edge.child < graph.nodes.size) :
    graph.isEligible edge = .ok (graph.eligible edge) := by
  obtain ⟨node, found⟩ := exists_node_of_lt childKnown
  unfold isEligible eligible
  rw [found, node_eq_ok_iff.mp found]
  cases edge.remote <;> rfl

/-- A list is sifted by a test that succeeds on all of its items. -/
theorem filterM_eq_ok {ε α : Type} {test : α → Except ε Bool} {passes : α → Bool}
    {items : List α} (tested : ∀ item ∈ items, test item = .ok (passes item)) :
    items.filterM test = .ok (items.filter passes) := by
  have sifted : ∀ (items before : List α), (∀ item ∈ items, test item = .ok (passes item)) →
      items.filterAuxM test before = .ok ((items.filter passes).reverse ++ before) := by
    intro items
    induction items with
    | nil => exact fun before _ => rfl
    | cons first rest inductionHypothesis =>
      intro before tested
      have restSifted := fun before => inductionHypothesis before fun item member =>
        tested item (List.mem_cons_of_mem first member)
      simp only [List.filterAuxM, tested first List.mem_cons_self, bind, Except.bind,
        restSifted]
      cases passed : passes first <;> simp [passed]
  simp [List.filterM, sifted items [] tested, bind, Except.bind, pure, Except.pure]

theorem WellFormed.headEdge?_eq_ok {graph : Graph} (wellFormed : graph.WellFormed)
    {id : NodeId} (known : id < graph.nodes.size) :
    graph.headEdge? id = .ok (bestEdge? ((graph.edgesFrom id).filter graph.eligible)) := by
  have tested : ∀ edge ∈ graph.edgesFrom id,
      graph.isEligible edge = .ok (graph.eligible edge) := fun edge member =>
    isEligible_eq_ok (wellFormed.child_lt_of_mem_edgesFrom member)
  simp only [headEdge?, eligibleEdges, wellFormed.outEdges_eq_ok known, bind, Except.bind,
    filterM_eq_ok tested, pure, Except.pure]

/-- The descent for a head leaves a unit along a primary edge. -/
theorem descends_of_bestEdge? {graph : Graph} {id : NodeId} (unit : graph.IsUnit id)
    {edge : Edge} (chosen : bestEdge? ((graph.edgesFrom id).filter graph.eligible) = some edge) :
    graph.Descends id edge.child := by
  obtain ⟨member, eligible⟩ := List.mem_filter.mp (mem_of_bestEdge?_eq_some chosen)
  refine descends_of_mem_edgesFrom unit member ?_
  simp only [Graph.eligible, Bool.and_eq_true, Bool.not_eq_true'] at eligible
  exact eligible.1

/-- The head of a node, if there is one, is a terminal of the graph. -/
def IsHead (graph : Graph) (head? : Option NodeId) : Prop :=
  ∀ head, head? = some head → ∃ node, graph.node head = .ok node ∧ node.isTerminal = true

/-- A descent for a head is cut off only after as many units as were allowed, and where there
is no cycle only if there are more of them. -/
theorem WellFormed.headWithin_endsUnless {graph : Graph} (wellFormed : graph.WellFormed)
    (units : Nat) {id : NodeId} (known : id < graph.nodes.size) :
    EndsUnless (graph.AcyclicBelow id → units < (graph.unitsBelow id).card) graph.IsHead
      (graph.headWithin units id) := by
  induction units generalizing id with
  | zero =>
    obtain ⟨node, found⟩ := exists_node_of_lt known
    cases terminal : node.isTerminal with
    | true =>
      refine .of_eq_ok (headWithin_of_isTerminal found terminal 0) ?_
      rintro head ⟨⟩
      exact ⟨node, found, terminal⟩
    | false =>
      rw [headWithin_zero_of_unit found terminal]
      have unit : graph.IsUnit id := ⟨node, node_eq_ok_iff.mp found, terminal⟩
      exact ⟨rfl, fun _ => unit.card_unitsBelow_pos⟩
  | succ units inductionHypothesis =>
    obtain ⟨node, found⟩ := exists_node_of_lt known
    cases terminal : node.isTerminal with
    | true =>
      refine .of_eq_ok (headWithin_of_isTerminal found terminal (units + 1)) ?_
      rintro head ⟨⟩
      exact ⟨node, found, terminal⟩
    | false =>
      rw [headWithin_succ_of_unit found terminal, wellFormed.headEdge?_eq_ok known]
      have unit : graph.IsUnit id := ⟨node, node_eq_ok_iff.mp found, terminal⟩
      cases chosen : bestEdge? ((graph.edgesFrom id).filter graph.eligible) with
      | none => exact nofun
      | some edge =>
        have step := descends_of_bestEdge? unit chosen
        have childKnown := wellFormed.child_lt_of_mem_edgesFrom
          (List.mem_filter.mp (mem_of_bestEdge?_eq_some chosen)).1
        apply (inductionHypothesis childKnown).mono
        intro cut acyclic
        have fewer := acyclic.card_unitsBelow_lt step
        have many := cut (acyclic.of_descends step)
        omega

/-- The head of a known node is found unless the graph has a cycle. -/
theorem WellFormed.head_endsUnless {graph : Graph} (wellFormed : graph.WellFormed)
    {id : NodeId} (known : id < graph.nodes.size) :
    EndsUnless (¬ graph.Acyclic) graph.IsHead (graph.head id) := by
  apply (wellFormed.headWithin_endsUnless graph.nodes.size known).mono
  intro cut acyclic
  exact absurd (graph.card_unitsBelow_le id) (Nat.not_le_of_lt (cut (acyclic.below id)))

theorem WellFormed.exists_head_eq_ok {graph : Graph} (wellFormed : graph.WellFormed)
    (acyclic : graph.Acyclic) {id : NodeId} (known : id < graph.nodes.size) :
    ∃ head?, graph.head id = .ok head? ∧ graph.IsHead head? :=
  (wellFormed.head_endsUnless known).exists_eq_ok (not_not_intro acyclic)

/-! ## Yields -/

theorem WellFormed.primaryEdges_eq_ok {graph : Graph} (wellFormed : graph.WellFormed)
    {id : NodeId} (known : id < graph.nodes.size) :
    graph.primaryEdges id =
      .ok ((graph.edgesFrom id).filter fun edge => !edge.remote) := by
  simp only [primaryEdges, wellFormed.outEdges_eq_ok known, bind, Except.bind, pure,
    Except.pure]

/-- A yield is cut off only on paths as long as allowed, and where there is no cycle only
if that many units are below the node. -/
theorem WellFormed.yieldWithin_endsUnless {graph : Graph} (wellFormed : graph.WellFormed)
    (depth : Nat) {id : NodeId} (known : id < graph.nodes.size) :
    EndsUnless (graph.AcyclicBelow id → depth ≤ (graph.unitsBelow id).card) Positions.Ascending
      (graph.yieldWithin depth id) := by
  induction depth generalizing id with
  | zero => exact ⟨rfl, fun _ => Nat.zero_le _⟩
  | succ depth inductionHypothesis =>
    obtain ⟨node, found⟩ := exists_node_of_lt known
    cases place : node.position? with
    | some position =>
      refine .of_eq_ok (yieldWithin_of_position? found place depth) ?_
      exact List.pairwise_singleton _ position
    | none =>
      rw [yieldWithin_of_unit found place, wellFormed.primaryEdges_eq_ok known]
      have unit : graph.IsUnit id := isUnit_of_position? found place
      have below : ∀ edge ∈ (graph.edgesFrom id).filter fun edge => !edge.remote,
          EndsUnless (graph.AcyclicBelow id → depth + 1 ≤ (graph.unitsBelow id).card)
            Positions.Ascending (graph.yieldWithin depth edge.child) := by
        intro edge member
        obtain ⟨leaves, primary⟩ := List.mem_filter.mp member
        have step := descends_of_mem_edgesFrom unit leaves (by simpa using primary)
        have childKnown := wellFormed.child_lt_of_mem_edgesFrom leaves
        apply (inductionHypothesis childKnown).mono
        intro cut acyclic
        have fewer := acyclic.card_unitsBelow_lt step
        have many := cut (acyclic.of_descends step)
        omega
      apply (Ends.mapM below).bind
      intro yields _
      exact Positions.ascending_ofList yields.flatten

/-- The yield of a known node is found unless the graph has a cycle. -/
theorem WellFormed.yield_endsUnless {graph : Graph} (wellFormed : graph.WellFormed)
    {id : NodeId} (known : id < graph.nodes.size) :
    EndsUnless (¬ graph.Acyclic) Positions.Ascending (graph.yield id) := by
  apply (wellFormed.yieldWithin_endsUnless (graph.nodes.size + 1) known).mono
  intro cut acyclic
  exact absurd (graph.card_unitsBelow_le id) (Nat.not_le_of_lt (cut (acyclic.below id)))

theorem WellFormed.exists_yield_eq_ok {graph : Graph} (wellFormed : graph.WellFormed)
    (acyclic : graph.Acyclic) {id : NodeId} (known : id < graph.nodes.size) :
    ∃ positions, graph.yield id = .ok positions ∧ Positions.Ascending positions :=
  (wellFormed.yield_endsUnless known).exists_eq_ok (not_not_intro acyclic)

end Graph

end TransitionFeatures
