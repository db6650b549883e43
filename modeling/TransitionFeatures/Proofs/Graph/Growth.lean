import TransitionFeatures.Proofs.Graph.Attach
import TransitionFeatures.Proofs.Graph.HeadInYield

/-!
# What a primary edge changes

A new primary edge comes last among those that leave its upper end, so the descent for a head
takes it only if it ranks before all that compete there.  Then the upper end has the head of the
lower end, and so has every node whose descent comes to the upper end.  All other heads stay.

An unlisted tag ranks with the first, and nothing ranks before that: its edge displaces every
edge that ranks later, and no edge that comes after displaces it.  `Graph.growth_moves_heads`
puts this together.
-/

namespace TransitionFeatures

open EdgeTag

theorem Node.isImplicit_congr {node other : Node} (same : other.content = node.content) :
    other.isImplicit = node.isImplicit := by
  rw [isImplicit, isImplicit, same]

namespace Graph

/-- Why a new primary edge moves no head: its upper end is a token, its lower end is implicit, or
it ranks no better than an edge that competes. -/
inductive KeepsHeads (graph : Graph) (tag : String) (parent child : NodeId) : Prop
  | token (leaves : graph.IsToken parent)
  | implicit {node : Node} (found : graph.node child = .ok node) (hidden : node.isImplicit = true)
  | outranked {number : EdgeId} {edge : Edge} (competes : graph.Competes parent number edge)
      (notAfter : headRank edge.tag ≤ headRank tag)

theorem Competes.upper_lt {graph : Graph} {upper : NodeId} {number : EdgeId} {edge : Edge}
    (competes : graph.Competes upper number edge) : upper < graph.nodes.size :=
  exists_node_iff.mp (competes.leaves.imp fun _ => And.left)

namespace WellFormed

variable {graph : Graph} (wellFormed : graph.WellFormed)

include wellFormed

theorem exists_competes_iff {upper : NodeId} (known : upper < graph.nodes.size) {edge : Edge} :
    (∃ number, graph.Competes upper number edge) ↔
      edge ∈ (graph.edgesFrom upper).filter graph.eligible := by
  simp only [wellFormed.competes_iff known, exists_and_right, ← List.mem_iff_getElem?, edgesFrom,
    List.filter_filter, List.mem_filter]

/-- An edge that ranks before the one that is chosen moves a head. -/
theorem not_keepsHeads {tag : String} {parent child : NodeId} {best : Edge} {node : Node}
    (unit : graph.IsUnit parent) (found : graph.node child = .ok node)
    (realised : node.isImplicit = false) (chosen : graph.headEdge? parent = .ok (some best))
    (before : headRank tag < headRank best.tag) : ¬ graph.KeepsHeads tag parent child := by
  intro keeps
  cases keeps with
  | token leaves => exact leaves.not_isUnit unit
  | implicit otherFound hidden =>
    cases otherFound.symm.trans found
    rw [realised] at hidden
    cases hidden
  | outranked competes notAfter =>
    obtain ⟨number, _, first⟩ := (wellFormed.headEdge?_eq_ok_some_iff unit.lt_size).mp chosen
    have least := Prod.Lex.toLex_le_toLex.mp (first _ _ competes)
    dsimp only at least
    omega

variable {edge : Edge} (parentKnown : edge.parent < graph.nodes.size)
  (childKnown : edge.child < graph.nodes.size)

include parentKnown childKnown

/-! ## The choice at the upper end -/

theorem headEdge?_attach_of_keepsHeads
    (keeps : graph.KeepsHeads edge.tag edge.parent edge.child) {id : NodeId}
    (unit : graph.IsUnit id) : (graph.attach edge).headEdge? id = graph.headEdge? id := by
  by_cases enters : edge.parent = id ∧ graph.eligible edge = true
  · obtain ⟨rfl, eligible⟩ := enters
    rw [wellFormed.headEdge?_attach parentKnown childKnown unit.lt_size, if_pos ⟨rfl, eligible⟩,
      bestEdge?_append_singleton, wellFormed.headEdge?_eq_ok unit.lt_size]
    cases keeps with
    | token leaves => exact absurd unit leaves.not_isUnit
    | implicit found hidden =>
      obtain ⟨_, node, otherFound, realised⟩ := (eligible_eq_true_iff childKnown).mp eligible
      cases found.symm.trans otherFound
      rw [hidden] at realised
      cases realised
    | outranked competes notAfter =>
      have member := (wellFormed.exists_competes_iff unit.lt_size).mp ⟨_, competes⟩
      cases chosen : bestEdge? ((graph.edgesFrom edge.parent).filter graph.eligible) with
      | none =>
        rw [bestEdge?_eq_none_iff.mp chosen] at member
        exact absurd member List.not_mem_nil
      | some best =>
        have least := headRank_le_of_bestEdge?_eq_some chosen member
        exact congrArg Except.ok (if_pos (least.trans notAfter))
  · exact wellFormed.headEdge?_attach_eq_self parentKnown childKnown unit.lt_size enters

variable (primary : edge.remote = false)
  (moves : ¬ graph.KeepsHeads edge.tag edge.parent edge.child)

include primary moves in
/-- Otherwise the descent leaves the upper end along the new edge. -/
theorem headEdge?_attach_of_not_keepsHeads :
    (graph.attach edge).headEdge? edge.parent = .ok (some edge) := by
  have eligible : graph.eligible edge = true := by
    obtain ⟨node, found⟩ := exists_node_of_lt childKnown
    refine (eligible_eq_true_iff childKnown).mpr ⟨primary, node, found, ?_⟩
    exact Bool.eq_false_iff.mpr fun hidden => moves (.implicit found hidden)
  rw [wellFormed.headEdge?_attach parentKnown childKnown parentKnown, if_pos ⟨rfl, eligible⟩,
    bestEdge?_append_singleton]
  cases chosen : bestEdge? ((graph.edgesFrom edge.parent).filter graph.eligible) with
  | none => rfl
  | some best =>
    obtain ⟨number, competes⟩ :=
      (wellFormed.exists_competes_iff parentKnown).mpr (mem_of_bestEdge?_eq_some chosen)
    exact congrArg Except.ok (if_neg fun notAfter => moves (.outranked competes notAfter))

/-! ## Descents past the upper end -/

theorem head_attach_of_keepsHeads (keeps : graph.KeepsHeads edge.tag edge.parent edge.child)
    {id : NodeId} (known : id < graph.nodes.size) :
    (graph.attach edge).head id = graph.head id := by
  refine @head_attach graph edge (· < graph.nodes.size) ?_ ?_ id known
  · exact fun id _ unit =>
      wellFormed.headEdge?_attach_of_keepsHeads parentKnown childKnown keeps unit
  · exact fun id best known _ chosen => wellFormed.lt_size_of_headEdge? known chosen

/-- A descent that does not come to the upper end goes as before. -/
theorem head_attach_of_not_path {id : NodeId} (known : id < graph.nodes.size)
    (apart : ¬ Relation.ReflTransGen graph.HeadStep id edge.parent) :
    (graph.attach edge).head id = graph.head id := by
  refine @head_attach graph edge
    (fun id => id < graph.nodes.size ∧ ¬ Relation.ReflTransGen graph.HeadStep id edge.parent)
    ?_ ?_ id ⟨known, apart⟩
  · rintro id ⟨known, apart⟩ _
    refine wellFormed.headEdge?_attach_eq_self parentKnown childKnown known fun enters => apart ?_
    rw [enters.1]
  · rintro id best ⟨_, apart⟩ unit chosen
    have step := (wellFormed.headStep_iff unit).mpr ⟨best, chosen, rfl⟩
    exact ⟨step.lower_lt, fun path => apart (.head step path)⟩

/-- A descent that comes to the upper end goes there as before and on from there. -/
theorem headEnd_attach_of_path {id : NodeId} {head? : Option NodeId}
    (path : Relation.ReflTransGen graph.HeadStep id edge.parent)
    (ends : (graph.attach edge).HeadEnd edge.parent head?) :
    (graph.attach edge).HeadEnd id head? := by
  have grown := wellFormed.attach parentKnown childKnown
  induction path using Relation.ReflTransGen.head_induction_on with
  | refl => exact ends
  | @head upper lower step _ inductionHypothesis =>
    by_cases arrived : edge.parent = upper
    · exact arrived ▸ ends
    · obtain ⟨best, chosen, enters⟩ := (wellFormed.headStep_iff step.1).mp step
      have same := wellFormed.headEdge?_attach_eq_self parentKnown childKnown step.1.lt_size
        fun both => arrived both.1
      exact inductionHypothesis.head ((grown.headStep_iff (isUnit_attach_iff.mpr step.1)).mpr
        ⟨best, same.trans chosen, enters⟩)

variable (acyclic : (graph.attach edge).Acyclic)

include primary moves acyclic

/-- The descents that come to the upper end find the head of the lower end, which stays. -/
theorem exists_head_attach :
    ∃ head?, graph.head edge.child = .ok head? ∧ (graph.attach edge).head edge.child = .ok head? ∧
      ∀ id < graph.nodes.size, Relation.ReflTransGen graph.HeadStep id edge.parent →
        (graph.attach edge).head id = .ok head? := by
  have grown := wellFormed.attach parentKnown childKnown
  have unit : graph.IsUnit edge.parent :=
    (isToken_or_isUnit parentKnown).resolve_left fun leaves => moves (.token leaves)
  -- A descent back from the lower end would close a cycle.
  have apart : ¬ Relation.ReflTransGen graph.HeadStep edge.child edge.parent := by
    intro path
    have back : Relation.ReflTransGen (graph.attach edge).Descends edge.child edge.parent :=
      Relation.ReflTransGen.mono (fun _ _ step => descends_attach_iff.mpr (Or.inl step)) _ _
        (wellFormed.reflTransGen_descends path)
    have down : (graph.attach edge).Descends edge.parent edge.child :=
      descends_attach_iff.mpr (Or.inr ⟨unit, primary, rfl, rfl⟩)
    exact acyclic edge.parent (Relation.TransGen.head' down back)
  obtain ⟨head?, found, _⟩ := wellFormed.exists_head_eq_ok acyclic.of_attach childKnown
  have stays : (graph.attach edge).head edge.child = .ok head? :=
    (wellFormed.head_attach_of_not_path parentKnown childKnown childKnown apart).trans found
  refine ⟨head?, found, stays, fun id known path => ?_⟩
  have childEnds :=
    grown.headEnd_of_headWithin ((attach_size graph edge).symm ▸ childKnown) stays
  have step := (grown.headStep_iff (isUnit_attach_iff.mpr unit)).mpr
    ⟨edge, wellFormed.headEdge?_attach_of_not_keepsHeads parentKnown childKnown primary moves, rfl⟩
  have ends := wellFormed.headEnd_attach_of_path parentKnown childKnown path (childEnds.head step)
  exact (grown.head_eq_ok_iff acyclic ((attach_size graph edge).symm ▸ known)).mpr ends

end WellFormed

/-! ## Edges that are never displaced -/

namespace KeptIn

variable {graph later : Graph} (kept : graph.KeptIn later)

include kept

theorem competes {upper : NodeId} {number : EdgeId} {edge : Edge}
    (competes : graph.Competes upper number edge) : later.Competes upper number edge where
  leaves := by
    obtain ⟨node, found, member⟩ := competes.leaves
    obtain ⟨other, otherFound, _, outgoing, _⟩ := kept.node found
    exact ⟨other, otherFound, outgoing.subset member⟩
  found := kept.edge competes.found
  primary := competes.primary
  realised := by
    obtain ⟨node, found, realised⟩ := competes.realised
    obtain ⟨other, otherFound, content, _⟩ := kept.node found
    exact ⟨other, otherFound, (Node.isImplicit_congr content).trans realised⟩

/-- Of the edges that are there already no other ones compete. -/
theorem competes_of_lt (wellFormed : graph.WellFormed) (laterWellFormed : later.WellFormed)
    {upper : NodeId} (known : upper < graph.nodes.size) {number : EdgeId} {edge : Edge}
    (early : number < graph.edges.size) (competes : later.Competes upper number edge) :
    graph.Competes upper number edge := by
  have entry : graph.edges[number]? = some graph.edges[number] := Array.getElem?_eq_getElem early
  cases competes.found.symm.trans (kept.edge (edge_eq_ok_iff.mpr entry))
  have childKnown := wellFormed.child_lt _ (Array.getElem_mem early)
  obtain ⟨node, found⟩ := exists_node_of_lt childKnown
  obtain ⟨other, otherFound, content, _⟩ := kept.node found
  obtain ⟨child, childFound, realised⟩ := competes.realised
  cases childFound.symm.trans otherFound
  have eligible : graph.eligible graph.edges[number] = true :=
    (eligible_eq_true_iff childKnown).mpr
      ⟨competes.primary, node, found, (Node.isImplicit_congr content).symm.trans realised⟩
  have leaves := ((laterWellFormed.competes_iff competes.upper_lt).mp competes).2
  rw [Bool.and_eq_true] at leaves
  rw [wellFormed.competes_iff known, Array.getElem?_toList, Bool.and_eq_true]
  exact ⟨entry, eligible, leaves.2⟩

/-- A chosen edge of the first rank stays chosen: what comes later stands behind it. -/
theorem headEdge?_eq_ok_some (wellFormed : graph.WellFormed)
    (laterWellFormed : later.WellFormed) {id : NodeId} (known : id < graph.nodes.size)
    {best : Edge} (chosen : graph.headEdge? id = .ok (some best))
    (foremost : headRank best.tag = 0) : later.headEdge? id = .ok (some best) := by
  obtain ⟨number, competes, first⟩ := (wellFormed.headEdge?_eq_ok_some_iff known).mp chosen
  have early := (Array.getElem?_eq_some_iff.mp (edge_eq_ok_iff.mp competes.found)).1
  refine (laterWellFormed.headEdge?_eq_ok_some_iff (kept.competes competes).upper_lt).mpr
    ⟨number, kept.competes competes, fun other edge otherCompetes => ?_⟩
  by_cases there : other < graph.edges.size
  · exact first other edge
      (kept.competes_of_lt wellFormed laterWellFormed known there otherCompetes)
  · have behind : number ≤ other := (Nat.le_of_lt early).trans (Nat.le_of_not_lt there)
    rw [Prod.Lex.toLex_le_toLex, foremost]
    exact (Nat.eq_zero_or_pos (headRank edge.tag)).elim
      (fun equal => Or.inr ⟨equal.symm, behind⟩) Or.inl

end KeptIn

/-- A new primary edge that closes no cycle moves no head if it leaves a token, leads to an
implicit unit or ranks no better than an edge that competes.  Otherwise its upper end gets the head
of its lower end, and with it the nodes whose descents come there; no other head changes.  An edge
with an unlisted tag displaces every edge whose rank is not zero, and is not displaced whatever is
added later. -/
theorem growth_moves_heads {steps : List BuildStep} {graph next : Graph}
    (built : build steps = .ok graph) {tag : String} {parent child : NodeId}
    (added : graph.addEdge tag parent child = .ok next) (acyclic : next.Acyclic) :
    (graph.KeepsHeads tag parent child →
      ∀ id < graph.nodes.size, graph.SameHead next id) ∧
    (¬ graph.KeepsHeads tag parent child →
      (∃ head?, graph.head child = .ok head? ∧ next.head child = .ok head? ∧
        next.head parent = .ok head? ∧
        ∀ id < graph.nodes.size, Relation.ReflTransGen graph.HeadStep id parent →
          next.head id = .ok head?) ∧
      ∀ id < graph.nodes.size, ¬ Relation.ReflTransGen graph.HeadStep id parent →
        graph.SameHead next id) ∧
    (tag ∉ headOrder → headRank tag = 0 ∧
      ∀ best node, graph.IsUnit parent → graph.node child = .ok node → node.isImplicit = false →
        graph.headEdge? parent = .ok (some best) → 0 < headRank best.tag →
          ¬ graph.KeepsHeads tag parent child ∧
            next.headEdge? parent = .ok (some { tag, parent, child, remote := false })) ∧
    ∀ id < graph.nodes.size, ∀ best, next.headEdge? id = .ok (some best) →
      best.tag ∉ headOrder → ∀ later final, next.extendAll later = .ok final →
        final.headEdge? id = .ok (some best) := by
  have wellFormed := wellFormed_of_build built
  obtain ⟨parentKnown, childKnown, rfl⟩ := connect_eq_ok_iff.mp added
  have grown := wellFormed.attach parentKnown childKnown
  have sameHead : ∀ {id}, id < graph.nodes.size →
      (graph.attach { tag, parent, child, remote := false }).head id = graph.head id →
        graph.SameHead (graph.attach { tag, parent, child, remote := false }) id := by
    intro id known same
    obtain ⟨head?, found, _⟩ := wellFormed.exists_head_eq_ok acyclic.of_attach known
    exact ⟨head?, found, same.trans found⟩
  refine ⟨?_, ?_, ?_, ?_⟩
  · intro keeps id known
    exact sameHead known
      (wellFormed.head_attach_of_keepsHeads parentKnown childKnown keeps known)
  · intro moves
    constructor
    · obtain ⟨head?, found, stays, arrive⟩ :=
        wellFormed.exists_head_attach parentKnown childKnown rfl moves acyclic
      exact ⟨head?, found, stays, arrive parent parentKnown .refl, arrive⟩
    · intro id known apart
      exact sameHead known
        (wellFormed.head_attach_of_not_path parentKnown childKnown known apart)
  · intro unlisted
    have foremost := headRank_of_not_mem unlisted
    refine ⟨foremost, fun best node unit found realised chosen worse => ?_⟩
    have moves := wellFormed.not_keepsHeads unit found realised chosen (foremost.symm ▸ worse)
    exact ⟨moves,
      wellFormed.headEdge?_attach_of_not_keepsHeads parentKnown childKnown rfl moves⟩
  · intro id known best chosen unlisted later final extended
    exact (KeptIn.extendAll extended).headEdge?_eq_ok_some grown (grown.extendAll extended)
      ((attach_size graph _).symm ▸ known) chosen (headRank_of_not_mem unlisted)

/-- How "the dog" is annotated under a scene before its noun is entered. -/
def headlessSteps : List BuildStep :=
  [.terminal "the" "DT", .terminal "dog" "NN", .unit, .unit, .edge elaborator 2 0,
    .edge participant 3 2]

/-- The noun comes in with an unlisted tag and becomes the head of its unit and of the scene.  A
centre that comes later does not displace it. -/
theorem growth_moves_heads_noun :
    ∃ graph next final, build headlessSteps = .ok graph ∧
      graph.addEdge "Q" 2 1 = .ok next ∧ next.Acyclic ∧ graph.head 3 = .ok (some 0) ∧
      next.head 2 = .ok (some 1) ∧ next.head 3 = .ok (some 1) ∧
      next.extendAll [.edge center 2 0] = .ok final ∧
      final.headEdge? 2 = .ok (some { tag := "Q", parent := 2, child := 1, remote := false }) := by
  obtain ⟨graph, next, final, built, added, size, before, word, chosen, above, unit, noun, down,
      extended⟩ : ∃ graph next final, build headlessSteps = .ok graph ∧
        graph.addEdge "Q" 2 1 = .ok next ∧ graph.nodes.size = 4 ∧ graph.head 3 = .ok (some 0) ∧
        graph.head 1 = .ok (some 1) ∧
        graph.headEdge? 2 =
          .ok (some { tag := elaborator, parent := 2, child := 0, remote := false }) ∧
        (∃ edge, graph.headEdge? 3 = .ok (some edge) ∧ edge.child = 2) ∧
        (graph.IsUnit 2 ∧ graph.IsUnit 3) ∧
        (∃ node, graph.node 1 = .ok node ∧ node.isImplicit = false) ∧
        (∀ edge ∈ next.edges, edge.remote = false → edge.child < edge.parent) ∧
        next.extendAll [.edge center 2 0] = .ok final :=
    ⟨_, _, _, rfl, rfl, rfl, rfl, rfl, rfl, ⟨_, rfl, rfl⟩, ⟨⟨_, rfl, rfl⟩, ⟨_, rfl, rfl⟩⟩,
      ⟨_, rfl, rfl⟩, by decide, rfl⟩
  have acyclic := acyclic_of_child_lt_parent down
  obtain ⟨_, moved, unlisted, lasting⟩ := growth_moves_heads built added acyclic
  obtain ⟨node, found, realised⟩ := noun
  obtain ⟨moves, taken⟩ :=
    (unlisted (by decide)).2 _ node unit.1 found realised chosen (by decide)
  obtain ⟨head?, wordFound, _, unitFound, arrive⟩ := (moved moves).1
  cases wordFound.symm.trans word
  have step := ((wellFormed_of_build built).headStep_iff unit.2).mpr above
  have sceneFound := arrive 3 (by rw [size]; decide) (.single step)
  have kept := lasting 2 (by rw [size]; decide) _ taken (by decide) _ final extended
  exact ⟨graph, next, final, built, added, acyclic, before, unitFound, sceneFound, extended, kept⟩

end Graph

end TransitionFeatures
