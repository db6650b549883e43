import Mathlib.Data.Prod.Lex
import Mathlib.Logic.Relator
import TransitionFeatures.Proofs.Graph.Descent

/-!
# The path to a lexical head

A unit is left along one edge only: of its competing edges the one with the least rank,
and of those with that rank the one that was made first.  Such steps form at most one path
from a node, and the head is what stands at its end: a token is the head, and a unit that no
competing edge leaves ends the path without one, whatever else hangs from the units on the
way.  `Graph.head_at_end_of_path` states this for every graph without cycles.
-/

namespace TransitionFeatures

open EdgeTag

/-! ## The first of the best edges -/

/-- The best edge ranks before those ahead of it and not after those behind it. -/
theorem bestEdge?_eq_some_iff {edges : List Edge} {best : Edge} :
    bestEdge? edges = some best ↔
      ∃ before after, edges = before ++ best :: after ∧
        (∀ edge ∈ before, headRank best.tag < headRank edge.tag) ∧
        ∀ edge ∈ after, headRank best.tag ≤ headRank edge.tag := by
  constructor
  · intro chosen
    induction edges generalizing best with
    | nil => cases chosen
    | cons first rest inductionHypothesis =>
      unfold bestEdge? at chosen
      split at chosen
      · rename_i nothing
        cases chosen
        rw [bestEdge?_eq_none_iff.mp nothing]
        exact ⟨[], [], rfl, nofun, nofun⟩
      · rename_i later laterChosen
        split at chosen
        · rename_i notAfter
          cases chosen
          refine ⟨[], rest, rfl, nofun, fun edge member => ?_⟩
          exact notAfter.trans (headRank_le_of_bestEdge?_eq_some laterChosen member)
        · rename_i after
          cases chosen
          obtain ⟨ahead, behind, rfl, aheadWorse, behindWorse⟩ :=
            inductionHypothesis laterChosen
          exact ⟨first :: ahead, behind, rfl,
            List.forall_mem_cons.mpr ⟨Nat.lt_of_not_le after, aheadWorse⟩, behindWorse⟩
  · rintro ⟨before, after, rfl, beforeWorse, afterWorse⟩
    induction before with
    | nil =>
      rw [List.nil_append, bestEdge?]
      cases chosen : bestEdge? after with
      | none => rfl
      | some later => exact if_pos (afterWorse later (mem_of_bestEdge?_eq_some chosen))
    | cons first rest inductionHypothesis =>
      obtain ⟨firstWorse, restWorse⟩ := List.forall_mem_cons.mp beforeWorse
      rw [List.cons_append, bestEdge?, inductionHypothesis restWorse]
      exact if_neg (Nat.not_le_of_lt firstWorse)

/-- An item in the middle of a sifted list stood between those from which the two parts were
sifted. -/
theorem exists_split_of_filter_eq {α : Type} {test : α → Bool} {items before after : List α}
    {item : α} (sifted : items.filter test = before ++ item :: after) :
    ∃ ahead behind, items = ahead ++ item :: behind ∧ test item = true ∧
      ahead.filter test = before ∧ behind.filter test = after := by
  obtain ⟨first, rest, rfl, firstSifted, restSifted⟩ := List.filter_eq_append_iff.mp sifted
  obtain ⟨refused, behind, rfl, allRefused, passed, behindSifted⟩ :=
    List.filter_eq_cons_iff.mp restSifted
  refine ⟨first ++ refused, behind, by simp, passed, ?_, behindSifted⟩
  rw [List.filter_append, firstSifted, List.filter_eq_nil_iff.mpr allRefused, List.append_nil]

/-- Of the edges that pass a test the best one comes first by rank and then by place. -/
theorem bestEdge?_filter_eq_some_iff {edges : List Edge} {test : Edge → Bool} {best : Edge} :
    bestEdge? (edges.filter test) = some best ↔
      ∃ number : Nat, (edges[number]? = some best ∧ test best = true) ∧
        ∀ (other : Nat) (edge : Edge), edges[other]? = some edge ∧ test edge = true →
          toLex (headRank best.tag, number) ≤ toLex (headRank edge.tag, other) := by
  simp only [Prod.Lex.toLex_le_toLex]
  rw [bestEdge?_eq_some_iff]
  constructor
  · rintro ⟨before, after, sifted, beforeWorse, afterWorse⟩
    obtain ⟨ahead, behind, rfl, passed, rfl, rfl⟩ := exists_split_of_filter_eq sifted
    refine ⟨ahead.length, ⟨by simp, passed⟩, ?_⟩
    rintro other edge ⟨entry, edgePassed⟩
    rcases Nat.lt_trichotomy other ahead.length with earlier | rfl | later
    · rw [List.getElem?_append_left earlier] at entry
      have member := List.mem_filter.mpr ⟨List.mem_of_getElem? entry, edgePassed⟩
      exact Or.inl (beforeWorse edge member)
    · have same : best = edge := by simpa using entry
      exact Or.inr ⟨congrArg (headRank ·.tag) same, Nat.le_refl _⟩
    · have behindBest : (ahead ++ [best]).length ≤ other := by
        rw [List.length_append]
        exact later
      rw [List.append_cons, List.getElem?_append_right behindBest] at entry
      have member := List.mem_filter.mpr ⟨List.mem_of_getElem? entry, edgePassed⟩
      have notBefore := afterWorse edge member
      omega
  · rintro ⟨number, ⟨entry, passed⟩, first⟩
    obtain ⟨bound, rfl⟩ := List.getElem?_eq_some_iff.mp entry
    refine ⟨(edges.take number).filter test, (edges.drop (number + 1)).filter test, ?_, ?_, ?_⟩
    · rw [← List.filter_cons_of_pos passed, ← List.filter_append, List.cons_getElem_drop_succ,
        List.take_append_drop]
    · intro edge member
      obtain ⟨taken, edgePassed⟩ := List.mem_filter.mp member
      obtain ⟨other, otherBound, rfl⟩ := List.mem_take_iff_getElem.mp taken
      have notAfter := first other _ ⟨List.getElem?_eq_getElem (by omega), edgePassed⟩
      omega
    · intro edge member
      obtain ⟨dropped, edgePassed⟩ := List.mem_filter.mp member
      obtain ⟨other, otherBound, rfl⟩ := List.mem_drop_iff_getElem.mp dropped
      have notAfter := first _ _ ⟨List.getElem?_eq_getElem (by omega), edgePassed⟩
      omega

namespace Graph

/-! ## Competing edges -/

/-- An edge competes for the head of a unit that it leaves if it is primary and leads to a
node with a surface realisation. -/
structure Competes (graph : Graph) (upper : NodeId) (number : EdgeId) (edge : Edge) : Prop where
  leaves : ∃ node, graph.node upper = .ok node ∧ number ∈ node.outgoing
  found : graph.edge number = .ok edge
  primary : edge.remote = false
  realised : ∃ child, graph.node edge.child = .ok child ∧ child.isImplicit = false

/-- The step of the descent for a head: from a unit along the competing edge that comes first
by rank and then by number. -/
def HeadStep (graph : Graph) (upper lower : NodeId) : Prop :=
  graph.IsUnit upper ∧
    ∃ number edge, graph.Competes upper number edge ∧ edge.child = lower ∧
      ∀ other otherEdge, graph.Competes upper other otherEdge →
        toLex (headRank edge.tag, number) ≤ toLex (headRank otherEdge.tag, other)

theorem IsToken.not_headStep {graph : Graph} {id lower : NodeId} (token : graph.IsToken id) :
    ¬ graph.HeadStep id lower :=
  fun step => token.not_isUnit step.1

theorem eligible_eq_true_iff {graph : Graph} {edge : Edge}
    (childKnown : edge.child < graph.nodes.size) :
    graph.eligible edge = true ↔
      edge.remote = false ∧ ∃ child, graph.node edge.child = .ok child ∧
        child.isImplicit = false := by
  obtain ⟨node, found⟩ := exists_node_of_lt childKnown
  simp [eligible, node_eq_ok_iff.mp found, found]

namespace WellFormed

variable {graph : Graph} (wellFormed : graph.WellFormed)

include wellFormed

/-- The edges that compete are those of the table from which the best one is chosen. -/
theorem competes_iff {upper : NodeId} (known : upper < graph.nodes.size) {number : EdgeId}
    {edge : Edge} :
    graph.Competes upper number edge ↔
      graph.edges.toList[number]? = some edge ∧
        (graph.eligible edge && decide (edge.parent = upper)) = true := by
  rw [Array.getElem?_toList, Bool.and_eq_true]
  obtain ⟨node, found⟩ := exists_node_of_lt known
  have outgoing := wellFormed.outgoing_eq (node_eq_ok_iff.mp found)
  constructor
  · rintro ⟨⟨other, otherFound, member⟩, edgeFound, primary, realised⟩
    rw [found] at otherFound
    cases otherFound
    rw [outgoing, mem_edgeIds] at member
    obtain ⟨same, sameFound, leaves⟩ := member
    rw [edgeFound] at sameFound
    cases sameFound
    have childKnown := exists_node_iff.mp (realised.imp fun _ => And.left)
    exact ⟨edge_eq_ok_iff.mp edgeFound,
      (eligible_eq_true_iff childKnown).mpr ⟨primary, realised⟩, leaves⟩
  · rintro ⟨entry, eligible, leaves⟩
    have childKnown := wellFormed.child_lt edge (Array.mem_of_getElem? entry)
    obtain ⟨primary, realised⟩ := (eligible_eq_true_iff childKnown).mp eligible
    have edgeFound := edge_eq_ok_iff.mpr entry
    have member : number ∈ node.outgoing := by
      rw [outgoing, mem_edgeIds]
      exact ⟨edge, edgeFound, leaves⟩
    exact ⟨⟨node, found, member⟩, edgeFound, primary, realised⟩

/-- A unit is left along its first competing edge by rank and number. -/
theorem headEdge?_eq_ok_some_iff {upper : NodeId} (known : upper < graph.nodes.size)
    {edge : Edge} :
    graph.headEdge? upper = .ok (some edge) ↔
      ∃ number, graph.Competes upper number edge ∧
        ∀ other otherEdge, graph.Competes upper other otherEdge →
          toLex (headRank edge.tag, number) ≤ toLex (headRank otherEdge.tag, other) := by
  simp only [wellFormed.competes_iff known, wellFormed.headEdge?_eq_ok known, edgesFrom,
    List.filter_filter, Except.ok.injEq]
  exact bestEdge?_filter_eq_some_iff

theorem headEdge?_eq_ok_none_iff {upper : NodeId} (known : upper < graph.nodes.size) :
    graph.headEdge? upper = .ok none ↔ ∀ number edge, ¬ graph.Competes upper number edge := by
  simp only [wellFormed.competes_iff known, wellFormed.headEdge?_eq_ok known, edgesFrom,
    List.filter_filter, Except.ok.injEq, bestEdge?_eq_none_iff, List.filter_eq_nil_iff,
    List.mem_iff_getElem?, not_and, forall_exists_index]
  exact forall_comm

theorem headStep_iff {upper lower : NodeId} (unit : graph.IsUnit upper) :
    graph.HeadStep upper lower ↔
      ∃ edge, graph.headEdge? upper = .ok (some edge) ∧ edge.child = lower := by
  simp only [wellFormed.headEdge?_eq_ok_some_iff unit.lt_size]
  constructor
  · rintro ⟨_, number, edge, competes, enters, first⟩
    exact ⟨edge, ⟨number, competes, first⟩, enters⟩
  · rintro ⟨edge, ⟨number, competes, first⟩, enters⟩
    exact ⟨unit, number, edge, competes, enters, first⟩

/-- The descent for a head has no choice. -/
theorem rightUnique_headStep : Relator.RightUnique graph.HeadStep := by
  intro upper lower other step otherStep
  obtain ⟨edge, left, rfl⟩ := (wellFormed.headStep_iff step.1).mp step
  obtain ⟨otherEdge, otherLeft, rfl⟩ := (wellFormed.headStep_iff step.1).mp otherStep
  rw [left] at otherLeft
  cases otherLeft
  rfl

end WellFormed

/-! ## Ends of descents -/

/-- Where the descent for a head ends: at a token, or at a unit that no competing edge
leaves. -/
def HeadEnd (graph : Graph) (id : NodeId) : Option NodeId → Prop
  | some token => Relation.ReflTransGen graph.HeadStep id token ∧ graph.IsToken token
  | none => ∃ last, Relation.ReflTransGen graph.HeadStep id last ∧ graph.IsUnit last ∧
      ∀ number edge, ¬ graph.Competes last number edge

variable {graph : Graph} {id : NodeId}

theorem HeadEnd.head {upper lower : NodeId} {head? : Option NodeId}
    (step : graph.HeadStep upper lower) (ends : graph.HeadEnd lower head?) :
    graph.HeadEnd upper head? := by
  cases head? with
  | some token => exact ⟨.head step ends.1, ends.2⟩
  | none =>
    obtain ⟨last, path, stuck⟩ := ends
    exact ⟨last, .head step path, stuck⟩

/-- The descent for a head ends after so many iterations, one for each unit that it comes to. -/
inductive HeadRun (graph : Graph) : Nat → NodeId → Option NodeId → Prop
  | token {id : NodeId} (token : graph.IsToken id) : graph.HeadRun 0 id (some id)
  | stuck {id : NodeId} (unit : graph.IsUnit id)
      (alone : ∀ number edge, ¬ graph.Competes id number edge) : graph.HeadRun 1 id none
  | step {count : Nat} {upper lower : NodeId} {head? : Option NodeId}
      (step : graph.HeadStep upper lower) (rest : graph.HeadRun count lower head?) :
      graph.HeadRun (count + 1) upper head?

theorem HeadRun.headEnd {iterations : Nat} {head? : Option NodeId}
    (run : graph.HeadRun iterations id head?) : graph.HeadEnd id head? := by
  induction run with
  | token token => exact ⟨.refl, token⟩
  | @stuck id unit alone => exact ⟨id, .refl, unit, alone⟩
  | step step _ inductionHypothesis => exact inductionHypothesis.head step

/-- An end is a node that no step of the descent leaves. -/
theorem HeadEnd.exists_last {head? : Option NodeId} (ends : graph.HeadEnd id head?) :
    ∃ last, Relation.ReflTransGen graph.HeadStep id last ∧
      (∀ lower, ¬ graph.HeadStep last lower) ∧
        (graph.IsToken last ∧ head? = some last ∨ graph.IsUnit last ∧ head? = none) := by
  cases head? with
  | some token =>
    exact ⟨token, ends.1, fun _ => ends.2.not_headStep, Or.inl ⟨ends.2, rfl⟩⟩
  | none =>
    obtain ⟨last, path, unit, alone⟩ := ends
    refine ⟨last, path, ?_, Or.inr ⟨unit, rfl⟩⟩
    rintro lower ⟨_, number, edge, competes, _⟩
    exact alone number edge competes

theorem IsToken.headWithin_eq_ok (token : graph.IsToken id) (units : Nat) :
    graph.headWithin units id = .ok (some id) := by
  obtain ⟨node, found, terminal⟩ := token.exists_node
  exact headWithin_of_isTerminal found terminal units

theorem IsUnit.headWithin_zero (unit : graph.IsUnit id) :
    graph.headWithin 0 id = .error .endless := by
  obtain ⟨node, found, notTerminal⟩ := unit.exists_node
  exact headWithin_zero_of_unit found notTerminal

theorem IsUnit.headWithin_succ (unit : graph.IsUnit id) (units : Nat) :
    graph.headWithin (units + 1) id =
      (graph.headEdge? id).bind fun best =>
        match best with
        | none => .ok none
        | some edge => graph.headWithin units edge.child := by
  obtain ⟨node, found, notTerminal⟩ := unit.exists_node
  exact headWithin_succ_of_unit found notTerminal units

theorem HeadStep.lower_lt {upper lower : NodeId} (step : graph.HeadStep upper lower) :
    lower < graph.nodes.size := by
  obtain ⟨_, number, edge, competes, rfl, _⟩ := step
  exact exists_node_iff.mp (competes.realised.imp fun _ => And.left)

namespace WellFormed

variable (wellFormed : graph.WellFormed)

include wellFormed

/-- The program finds a head within a number of iterations if and only if the descent ends within
it. -/
theorem headWithin_eq_ok_iff {units : Nat} {id : NodeId} (known : id < graph.nodes.size)
    {head? : Option NodeId} :
    graph.headWithin units id = .ok head? ↔
      ∃ iterations ≤ units, graph.HeadRun iterations id head? := by
  constructor
  · intro found
    induction units generalizing id with
    | zero =>
      rcases isToken_or_isUnit known with token | unit
      · cases (token.headWithin_eq_ok 0).symm.trans found
        exact ⟨0, Nat.le_refl 0, .token token⟩
      · cases unit.headWithin_zero.symm.trans found
    | succ units inductionHypothesis =>
      rcases isToken_or_isUnit known with token | unit
      · cases (token.headWithin_eq_ok _).symm.trans found
        exact ⟨0, Nat.zero_le _, .token token⟩
      · rw [unit.headWithin_succ] at found
        obtain ⟨best?, chosen, restFound⟩ := bind_eq_ok_iff.mp found
        cases best? with
        | none =>
          cases restFound
          exact ⟨1, Nat.le_add_left _ _,
            .stuck unit ((wellFormed.headEdge?_eq_ok_none_iff known).mp chosen)⟩
        | some best =>
          have step := (wellFormed.headStep_iff unit).mpr ⟨best, chosen, rfl⟩
          obtain ⟨iterations, bound, run⟩ := inductionHypothesis step.lower_lt restFound
          exact ⟨iterations + 1, Nat.succ_le_succ bound, .step step run⟩
  · rintro ⟨iterations, bound, run⟩
    induction run generalizing units with
    | token token => exact token.headWithin_eq_ok units
    | stuck unit alone =>
      obtain ⟨more, rfl⟩ := Nat.exists_eq_add_of_le' bound
      rw [unit.headWithin_succ, (wellFormed.headEdge?_eq_ok_none_iff unit.lt_size).mpr alone]
      rfl
    | step step _ inductionHypothesis =>
      obtain ⟨more, rfl⟩ := Nat.exists_eq_add_of_le' bound
      obtain ⟨best, chosen, rfl⟩ := (wellFormed.headStep_iff step.1).mp step
      rw [← Nat.add_assoc, step.1.headWithin_succ, chosen]
      exact inductionHypothesis step.lower_lt (Nat.le_add_left _ _)

/-- A descent that gives a result has come to an end. -/
theorem headEnd_of_headWithin {units : Nat} {id : NodeId} {head? : Option NodeId}
    (known : id < graph.nodes.size) (found : graph.headWithin units id = .ok head?) :
    graph.HeadEnd id head? := by
  obtain ⟨iterations, _, run⟩ := (wellFormed.headWithin_eq_ok_iff known).mp found
  exact run.headEnd

/-- The descent from a node has one end only. -/
theorem headEnd_unique {id : NodeId} {head? other? : Option NodeId}
    (ends : graph.HeadEnd id head?) (otherEnds : graph.HeadEnd id other?) : head? = other? := by
  obtain ⟨last, path, stuck, kind⟩ := ends.exists_last
  obtain ⟨other, otherPath, otherStuck, otherKind⟩ := otherEnds.exists_last
  have same : last = other := by
    rcases Relation.ReflTransGen.total_of_right_unique wellFormed.rightUnique_headStep path
      otherPath with onward | onward
    · exact ((Relation.reflTransGen_iff_eq stuck).mp onward).symm
    · exact (Relation.reflTransGen_iff_eq otherStuck).mp onward
  subst same
  rcases kind with ⟨token, rfl⟩ | ⟨unit, rfl⟩ <;>
    rcases otherKind with ⟨otherToken, rfl⟩ | ⟨otherUnit, rfl⟩
  · rfl
  · exact absurd otherUnit token.not_isUnit
  · exact absurd unit otherToken.not_isUnit
  · rfl

/-- Without cycles the head is what the end of the descent says. -/
theorem head_eq_ok_iff (acyclic : graph.Acyclic) {id : NodeId} (known : id < graph.nodes.size)
    {head? : Option NodeId} : graph.head id = .ok head? ↔ graph.HeadEnd id head? := by
  constructor
  · exact wellFormed.headEnd_of_headWithin known
  · intro ends
    obtain ⟨found?, found, _⟩ := wellFormed.exists_head_eq_ok acyclic known
    rw [wellFormed.headEnd_unique ends (wellFormed.headEnd_of_headWithin known found)]
    exact found

end WellFormed

/-- How "the dog barked" is annotated, with an unlisted tag, an implicit participant, a remote
edge and an edge out of a token besides. -/
def sceneSteps : List BuildStep :=
  [.terminal "the" "DT", .terminal "dog" "NN", .terminal "barked" "VBD", .implicit, .unit,
    .unit, .edge "Q" 4 0, .edge center 4 1, .edge participant 5 4, .remote center 5 1,
    .edge center 5 3, .edge process 5 2, .edge function 2 1]

/-- In a graph without cycles every node has a result: the token at the end of its one path of
steps along first competing edges, or none if the path ends at a unit that no competing edge
leaves.  Listed tags compete by their place, others as the first, and no step leaves a token. -/
theorem head_at_end_of_path {steps : List BuildStep} {graph : Graph}
    (built : build steps = .ok graph) (acyclic : graph.Acyclic) {id : NodeId}
    (known : id < graph.nodes.size) :
    (∃ head?, graph.head id = .ok head?) ∧
      (∀ token, graph.head id = .ok (some token) ↔
        Relation.ReflTransGen graph.HeadStep id token ∧ graph.IsToken token) ∧
      (graph.head id = .ok none ↔
        ∃ last, Relation.ReflTransGen graph.HeadStep id last ∧ graph.IsUnit last ∧
          ∀ number edge, ¬ graph.Competes last number edge) ∧
      Relator.RightUnique graph.HeadStep ∧
      (∀ token lower, graph.IsToken token → ¬ graph.HeadStep token lower) ∧
      (∀ place tag, headOrder[place]? = some tag → headRank tag = place) ∧
      ∀ tag, tag ∉ headOrder → headRank tag = 0 := by
  have wellFormed := wellFormed_of_build built
  have result := (wellFormed.head_endsUnless known).exists_eq_ok (not_not_intro acyclic)
  exact ⟨result.imp fun _ => And.left, fun _ => wellFormed.head_eq_ok_iff acyclic known,
    wellFormed.head_eq_ok_iff acyclic known, wellFormed.rightUnique_headStep,
    fun _ _ => IsToken.not_headStep, fun _ _ => headRank_of_getElem?,
    fun _ => headRank_of_not_mem⟩

/-- The path goes down from the scene past an implicit unit, a remote edge and a participant
to its verb, and from the participant to the first of two words whose tags rank alike. -/
theorem head_at_end_of_path_scene :
    ∃ graph, build sceneSteps = .ok graph ∧ graph.Acyclic ∧
      Relation.ReflTransGen graph.HeadStep 5 2 ∧ graph.IsToken 2 ∧
      Relation.ReflTransGen graph.HeadStep 4 0 ∧ graph.IsToken 0 := by
  obtain ⟨graph, built, size, scene, participant, down⟩ : ∃ graph,
      build sceneSteps = .ok graph ∧ graph.nodes.size = 6 ∧ graph.head 5 = .ok (some 2) ∧
        graph.head 4 = .ok (some 0) ∧
        ∀ edge ∈ graph.edges, edge.remote = false → edge.child < edge.parent :=
    ⟨_, rfl, rfl, rfl, rfl, by decide⟩
  have acyclic := acyclic_of_child_lt_parent down
  have sceneKnown : 5 < graph.nodes.size := by rw [size]; decide
  have participantKnown : 4 < graph.nodes.size := by rw [size]; decide
  have atScene := (head_at_end_of_path built acyclic sceneKnown).2.1
  have atParticipant := (head_at_end_of_path built acyclic participantKnown).2.1
  obtain ⟨scenePath, verb⟩ := (atScene 2).mp scene
  obtain ⟨participantPath, article⟩ := (atParticipant 0).mp participant
  exact ⟨graph, built, acyclic, scenePath, verb, participantPath, article⟩

end Graph

end TransitionFeatures
