import Mathlib.Order.Interval.Finset.Nat
import Mathlib.Order.Interval.Set.OrdConnected
import Std.Data.String.ToNat
import TransitionFeatures.Proofs.Evaluation.Anew
import TransitionFeatures.Proofs.Graph.Gap

/-!
# Which nodes have gaps

The gaps of a node take up the positions between the first and the last of its yield that the
yield skips.  They are there if and only if the yield is no interval, whether one asks for their
lengths or only whether there are any.  The gap type is read off the gaps of the node and, if it
has none, off those of the units right below it, along edges of both kinds:
`Graph.gaps_classified`.
-/

namespace TransitionFeatures

open DerivedData

namespace Positions

/-! ## Skipped positions -/

/-- The positions strictly between the smallest and the largest of a list that are not in it. -/
def skipped (positions : List Nat) : Finset Nat :=
  match positions.min?, positions.max? with
  | some least, some greatest => (Finset.Ioo least greatest).filter (· ∉ positions)
  | _, _ => ∅

variable {positions : List Nat}

@[simp]
theorem skipped_nil : skipped [] = ∅ :=
  rfl

theorem mem_skipped {position : Nat} :
    position ∈ skipped positions ↔
      position ∉ positions ∧ (∃ before ∈ positions, before < position) ∧
        ∃ after ∈ positions, position < after := by
  unfold skipped
  cases smallest : positions.min? with
  | none => simp [List.min?_eq_none_iff.mp smallest]
  | some least =>
    cases largest : positions.max? with
    | none => simp [List.max?_eq_none_iff.mp largest]
    | some greatest =>
      obtain ⟨leastMember, leastBound⟩ := List.min?_eq_some_iff.mp smallest
      obtain ⟨greatestMember, greatestBound⟩ := List.max?_eq_some_iff.mp largest
      simp only [Finset.mem_filter, Finset.mem_Ioo]
      constructor
      · rintro ⟨⟨after, before⟩, absent⟩
        exact ⟨absent, ⟨least, leastMember, after⟩, ⟨greatest, greatestMember, before⟩⟩
      · rintro ⟨absent, ⟨before, beforeMember, earlier⟩, ⟨after, afterMember, later⟩⟩
        have fromLeast := leastBound before beforeMember
        have toGreatest := greatestBound after afterMember
        exact ⟨⟨by omega, by omega⟩, absent⟩

/-- What is in the list and what it skips fill the stretch from the smallest to the largest. -/
theorem card_skipped_add_length (ascending : Ascending positions) {least greatest : Nat}
    (smallest : positions.min? = some least) (largest : positions.max? = some greatest) :
    least + positions.length + (skipped positions).card = greatest + 1 := by
  obtain ⟨leastMember, leastBound⟩ := List.min?_eq_some_iff.mp smallest
  obtain ⟨greatestMember, greatestBound⟩ := List.max?_eq_some_iff.mp largest
  have inside : positions.toFinset ⊆ Finset.Icc least greatest := by
    intro position member
    rw [List.mem_toFinset] at member
    exact Finset.mem_Icc.mpr ⟨leastBound position member, greatestBound position member⟩
  have rest : skipped positions = Finset.Icc least greatest \ positions.toFinset := by
    ext position
    simp only [skipped, smallest, largest, Finset.mem_filter, Finset.mem_Ioo, Finset.mem_sdiff,
      Finset.mem_Icc, List.mem_toFinset]
    constructor
    · rintro ⟨⟨after, before⟩, absent⟩
      exact ⟨⟨after.le, before.le⟩, absent⟩
    · rintro ⟨⟨after, before⟩, absent⟩
      have notLeast : position ≠ least := fun same => absent (same ▸ leastMember)
      have notGreatest : position ≠ greatest := fun same => absent (same ▸ greatestMember)
      exact ⟨⟨by omega, by omega⟩, absent⟩
  have distinct : positions.toFinset.card = positions.length :=
    List.toFinset_card_of_nodup (ascending.imp Nat.ne_of_lt)
  have fits := Finset.card_le_card inside
  rw [Nat.card_Icc, distinct] at fits
  have ordered := leastBound greatest greatestMember
  rw [rest, Finset.card_sdiff_of_subset inside, Nat.card_Icc, distinct]
  omega

/-- No position comes before the first of ascending ones. -/
theorem min?_eq_some_of_ascending {first : Nat} {rest : List Nat}
    (ascending : Ascending (first :: rest)) : (first :: rest).min? = some first := by
  obtain ⟨least, _⟩ := List.pairwise_cons.mp ascending
  refine List.min?_eq_some_iff.mpr ⟨List.mem_cons_self, ?_⟩
  exact List.forall_mem_cons.mpr ⟨le_rfl, fun position member => (least position member).le⟩

/-- No position comes after the last of ascending ones. -/
theorem max?_eq_some_of_ascending (ascending : Ascending positions) (nonempty : positions ≠ []) :
    positions.max? = some (positions.getLast nonempty) := by
  have notLater : positions.Pairwise (· ≤ ·) := ascending.imp Nat.le_of_lt
  refine List.max?_eq_some_iff.mpr ⟨List.getLast_mem nonempty, fun position member => ?_⟩
  exact notLater.rel_getLast member

/-- The lengths of the gaps add up to the number of skipped positions. -/
theorem gapLengthSum_eq_card_skipped (ascending : Ascending positions) :
    gapLengthSum positions = .ok (skipped positions).card := by
  cases positions with
  | nil => rfl
  | cons first rest =>
    obtain ⟨sum, measured, last⟩ := exists_gapLengthSum_eq_ok ascending
    have filled := card_skipped_add_length ascending (min?_eq_some_of_ascending ascending)
      (max?_eq_some_of_ascending ascending (List.cons_ne_nil first rest))
    rw [last, List.length_cons] at filled
    have same : (skipped (first :: rest)).card = sum := by omega
    rw [measured, same]

/-- A sum is positive if and only if one of its terms is. -/
theorem any_pos_eq_decide_sum (lengths : List Nat) :
    (lengths.any fun length => decide (0 < length)) =
      decide (0 < lengths.foldr (· + ·) 0) := by
  induction lengths with
  | nil => rfl
  | cons first rest inductionHypothesis =>
    rw [List.any_cons, inductionHypothesis, List.foldr_cons, Bool.eq_iff_iff]
    simp only [Bool.or_eq_true, decide_eq_true_eq]
    omega

/-- Gaps are found if and only if there are positions to be skipped. -/
theorem hasGaps_eq_decide (ascending : Ascending positions) :
    hasGaps positions = .ok (decide (0 < (skipped positions).card)) := by
  have summed := gapLengthSum_eq_card_skipped ascending
  rw [gapLengthSum_eq_map] at summed
  obtain ⟨lengths, measured, sum⟩ := map_eq_ok_iff.mp summed
  rw [hasGaps, measured, ← sum, ← any_pos_eq_decide_sum]
  rfl

/-- Nothing is skipped if and only if the positions form an interval. -/
theorem card_skipped_eq_zero_iff :
    (skipped positions).card = 0 ↔ Set.OrdConnected {position | position ∈ positions} := by
  rw [Finset.card_eq_zero, Finset.eq_empty_iff_forall_notMem, Set.ordConnected_def]
  simp only [mem_skipped, not_and, not_exists, Set.subset_def, Set.mem_Icc, Set.mem_ofPred_eq]
  constructor
  · rintro nothing before beforeMember after afterMember position ⟨notEarlier, notLater⟩
    by_contra absent
    have earlier : before < position :=
      lt_of_le_of_ne notEarlier fun same => absent (same ▸ beforeMember)
    have later : position < after :=
      lt_of_le_of_ne notLater fun same => absent (same ▸ afterMember)
    exact nothing position absent ⟨before, beforeMember, earlier⟩ after afterMember later
  · rintro connected position absent ⟨before, beforeMember, earlier⟩ after afterMember later
    exact absent (connected beforeMember afterMember position ⟨earlier.le, later.le⟩)

end Positions

/-! ## Gaps of nodes -/

/-- A row of tests without a table, none of which fails. -/
theorem DerivedData.exists_run_anyM_eq_ok {ε α : Type} {test : α → ExceptT ε Id Bool}
    {passes : α → Prop} {items : List α}
    (tested : ∀ item ∈ items, ∃ passed, Id.run (test item).run = .ok passed ∧
      (passed = true ↔ passes item)) :
    ∃ passed, Id.run (items.anyM test).run = .ok passed ∧
      (passed = true ↔ ∃ item ∈ items, passes item) := by
  induction items with
  | nil => exact ⟨false, rfl, by simp⟩
  | cons first rest inductionHypothesis =>
    obtain ⟨⟨firstPassed, firstTested, firstIff⟩, restTested⟩ := List.forall_mem_cons.mp tested
    rw [List.anyM_cons, run_bind, firstTested]
    cases firstPassed with
    | true => exact ⟨true, rfl, by simp [firstIff.mp rfl]⟩
    | false =>
      obtain ⟨restPassed, restRun, restIff⟩ := inductionHypothesis restTested
      have firstFails : ¬ passes first := fun holds => Bool.false_ne_true (firstIff.mpr holds)
      exact ⟨restPassed, restRun, by simp [restIff, firstFails]⟩

namespace Graph

/-- The gaps of a node are longer than nothing. -/
def Gapped (graph : Graph) (id : NodeId) : Prop :=
  ∃ sum, Id.run (graph.gapLengthSum id).run = .ok sum ∧ 0 < sum

/-- An edge, primary or remote, leads from a node to a unit with gaps. -/
def GappedBelow (graph : Graph) (id : NodeId) : Prop :=
  ∃ edge ∈ graph.edges, edge.parent = id ∧ graph.IsUnit edge.child ∧ graph.Gapped edge.child

/-- The one position of a token leaves no gap. -/
theorem IsToken.not_gapped {graph : Graph} {id : NodeId} (token : graph.IsToken id) :
    ¬ graph.Gapped id := by
  obtain ⟨node, position, found, _, place⟩ := token.exists_position
  rintro ⟨sum, measured, positive⟩
  rw [run_gapLengthSum, Graph.yield, yieldWithin_of_position? found place] at measured
  cases measured
  exact absurd positive (Nat.lt_irrefl 0)

/-- Without a table a unit is tested on the yield that the walk finds. -/
theorem run_isGappedUnit (graph : Graph) (id : NodeId) :
    Id.run (graph.isGappedUnit id).run =
      (graph.node id).bind fun node =>
        if node.isTerminal then .ok false else (graph.yield id).bind Positions.hasGaps := by
  simp only [isGappedUnit, run_bind, run_liftM, apply_ite ExceptT.run, apply_ite Id.run, run_pure,
    yield_id, Id.run_pure]

/-- Without a table the gap type takes a walk for the node and one for every child that is
asked. -/
theorem run_gapType (graph : Graph) (id : NodeId) :
    Id.run (graph.gapType id).run =
      (graph.node id).bind fun node =>
        if node.isTerminal then .ok .none else
          (graph.yield id).bind fun positions => (Positions.hasGaps positions).bind fun gapped =>
            if gapped then .ok .pass else
              (graph.children id).bind fun children =>
                (Id.run (children.anyM graph.isGappedUnit : ExceptT Fault Id Bool).run).bind
                  fun gappedBelow => if gappedBelow then .ok .source else .ok .none := by
  simp only [gapType, run_bind, run_liftM, apply_ite ExceptT.run, apply_ite Id.run, run_pure,
    yield_id, Id.run_pure]

namespace WellFormed

variable {graph : Graph} (wellFormed : graph.WellFormed) (acyclic : graph.Acyclic) {id : NodeId}
  (known : id < graph.nodes.size)

include wellFormed acyclic known

/-- Gaps are tested for and measured on one yield, which lies in the sentence. -/
theorem exists_yield_gaps :
    ∃ positions, graph.yield id = .ok positions ∧ Positions.Ascending positions ∧
      (∀ position ∈ positions, position < graph.terminals.size) ∧
      Id.run (graph.gapLengthSum id).run = .ok (Positions.skipped positions).card ∧
      Positions.hasGaps positions = .ok (decide (0 < (Positions.skipped positions).card)) := by
  obtain ⟨positions, found, ascending⟩ := wellFormed.exists_yield_eq_ok acyclic known
  have bound : ∀ position ∈ positions, position < graph.terminals.size := fun _ member =>
    ((wellFormed.mem_yieldWithin_iff found).mp member).lt_size
  refine ⟨positions, found, ascending, bound, ?_, Positions.hasGaps_eq_decide ascending⟩
  rw [run_gapLengthSum, found]
  exact Positions.gapLengthSum_eq_card_skipped ascending

theorem exists_isGappedUnit_eq_ok :
    ∃ gapped, Id.run (graph.isGappedUnit id).run = .ok gapped ∧
      (gapped = true ↔ graph.IsUnit id ∧ graph.Gapped id) := by
  obtain ⟨positions, found, _, _, measured, tested⟩ := wellFormed.exists_yield_gaps acyclic known
  rw [run_isGappedUnit]
  rcases isToken_or_isUnit known with token | unit
  · obtain ⟨node, looked, terminal⟩ := token.exists_node
    refine ⟨false, ?_, by simp [token.not_isUnit]⟩
    simp [looked, terminal, Except.bind]
  · obtain ⟨node, looked, notTerminal⟩ := unit.exists_node
    refine ⟨decide (0 < (Positions.skipped positions).card), ?_, by simp [unit, Gapped, measured]⟩
    simp [looked, notTerminal, found, tested, Except.bind]

/-- The gap type is read off the gaps of the node and of the units right below it. -/
theorem exists_gapType_eq_ok :
    ∃ gapType, Id.run (graph.gapType id).run = .ok gapType ∧
      (gapType = .pass ↔ graph.Gapped id) ∧
      (gapType = .source ↔ graph.IsUnit id ∧ ¬ graph.Gapped id ∧ graph.GappedBelow id) := by
  obtain ⟨positions, found, _, _, measured, tested⟩ := wellFormed.exists_yield_gaps acyclic known
  have belowTested : ∀ child ∈ (graph.edgesFrom id).map Edge.child, ∃ gapped,
      Id.run (graph.isGappedUnit child : ExceptT Fault Id Bool).run = .ok gapped ∧
        (gapped = true ↔ graph.IsUnit child ∧ graph.Gapped child) := by
    intro child member
    obtain ⟨edge, edgeMember, rfl⟩ := List.mem_map.mp member
    exact wellFormed.exists_isGappedUnit_eq_ok acyclic
      (wellFormed.child_lt_of_mem_edgesFrom edgeMember)
  obtain ⟨below, belowRun, belowIff⟩ := DerivedData.exists_run_anyM_eq_ok belowTested
  have belowIff : below = true ↔ graph.GappedBelow id := by
    rw [belowIff]
    simp [GappedBelow, and_assoc]
  rw [run_gapType]
  rcases isToken_or_isUnit known with token | unit
  · obtain ⟨node, looked, terminal⟩ := token.exists_node
    refine ⟨.none, ?_, by simp [token.not_gapped], by simp [token.not_isUnit]⟩
    simp [looked, terminal, Except.bind]
  · obtain ⟨node, looked, notTerminal⟩ := unit.exists_node
    have gappedIff : graph.Gapped id ↔ 0 < (Positions.skipped positions).card := by
      simp [Gapped, measured]
    rw [gappedIff, ← belowIff]
    by_cases gapped : 0 < (Positions.skipped positions).card
    · refine ⟨.pass, ?_, by simp [gapped], by simp [gapped]⟩
      simp [looked, notTerminal, found, tested, gapped, Except.bind]
    · have asked := wellFormed.children_eq_ok known
      cases below with
      | true =>
        refine ⟨.source, ?_, by simp [gapped], by simp [gapped, unit]⟩
        simp [looked, notTerminal, found, tested, gapped, asked, belowRun, Except.bind]
      | false =>
        refine ⟨.none, ?_, by simp [gapped], by simp⟩
        simp [looked, notTerminal, found, tested, gapped, asked, belowRun, Except.bind]

end WellFormed

end Graph

/-! ## Readings -/

namespace Property

variable {state : State} {id : NodeId} {node : Node} (looked : state.graph.node id = .ok node)

include looked

theorem value_gapType {gapType : GapType}
    (found : Id.run (state.graph.gapType id).run = .ok gapType) :
    Property.gapType.value state (.node id) = .ok gapType.code := by
  rw [value_of_node looked, knownValue?, atKnownNode, run_bind, found]
  rfl

theorem value_gapLengthSum {sum : Nat}
    (measured : Id.run (state.graph.gapLengthSum id).run = .ok sum) :
    Property.gapLengthSum.value state (.node id) = .ok (toString sum) := by
  rw [value_of_node looked, knownValue?, atKnownNode, run_bind, measured]
  rfl

end Property

theorem GapType.code_eq_p_iff {gapType : GapType} : gapType.code = "p" ↔ gapType = .pass := by
  cases gapType <;> decide

theorem GapType.eq_none_iff {gapType : GapType} :
    gapType = .none ↔ gapType ≠ .pass ∧ gapType ≠ .source := by
  cases gapType <;> decide

/-- Different numbers have different texts. -/
theorem toString_inj {first second : Nat} : toString first = toString second ↔ first = second :=
  Nat.repr_inj

namespace Graph

/-- How the gaps of a node are told: by their lengths taken together, by the test for any, and by
the type. -/
structure TellsGaps (graph : Graph) (id : NodeId) (positions : List Nat) (sum : Nat)
    (gapType : GapType) : Prop where
  yielded : graph.yield id = .ok positions
  measured : Id.run (graph.gapLengthSum id).run = .ok sum
  typed : Id.run (graph.gapType id).run = .ok gapType
  /-- The lengths count the positions of the sentence between the ends of the yield that are not
  in it. -/
  sum_eq : sum = (Positions.skipped positions).card
  skipped_lt : ∀ position ∈ Positions.skipped positions, position < graph.terminals.size
  sum_of_empty : positions = [] → sum = 0
  sum_of_ends : ∀ least greatest, positions.min? = some least → positions.max? = some greatest →
    least + positions.length + sum = greatest + 1
  /-- The test finds gaps if and only if the lengths are not all nothing, which is to say that the
  yield is no interval. -/
  tested : Positions.hasGaps positions = .ok (decide (0 < sum))
  pos_iff : 0 < sum ↔ ¬ Set.OrdConnected {position | position ∈ positions}
  /-- The type is decided by these lengths and by those of the units right below. -/
  pass_iff : gapType = .pass ↔ 0 < sum
  source_iff : gapType = .source ↔ graph.IsUnit id ∧ sum = 0 ∧ graph.GappedBelow id
  none_iff : gapType = .none ↔ sum = 0 ∧ ¬ (graph.IsUnit id ∧ graph.GappedBelow id)
  /-- What is read at the node are these results. -/
  read : ∀ state : State, state.graph = graph →
    Property.gapType.value state (.node id) = .ok gapType.code ∧
    Property.gapLengthSum.value state (.node id) = .ok (toString sum) ∧
    (gapType.code = "p" ↔ toString sum ≠ "0")
  /-- Answers from a correct memo table make no difference. -/
  kept : ∀ memo : Memo, memo.Correct graph →
    ((Memo.yield graph id).run.run memo).1 = .ok positions ∧
    ((graph.gapLengthSum id : ExceptT Fault (StateM Memo) Nat).run.run memo).1 = .ok sum ∧
    ((graph.gapType id : ExceptT Fault (StateM Memo) GapType).run.run memo).1 = .ok gapType

/-- In a graph without cycles the lengths of the gaps, the test for gaps and the gap type of every
node, tokens included, tell the same of its yield. -/
theorem gaps_classified {steps : List BuildStep} {graph : Graph}
    (built : build steps = .ok graph) (acyclic : graph.Acyclic) {id : NodeId}
    (known : id < graph.nodes.size) :
    ∃ positions sum gapType, graph.TellsGaps id positions sum gapType := by
  have wellFormed := wellFormed_of_build built
  obtain ⟨positions, found, ascending, bound, measured, tested⟩ :=
    wellFormed.exists_yield_gaps acyclic known
  obtain ⟨gapType, typed, passIff, sourceIff⟩ := wellFormed.exists_gapType_eq_ok acyclic known
  have gappedIff : graph.Gapped id ↔ 0 < (Positions.skipped positions).card := by
    simp [Gapped, measured]
  rw [gappedIff] at passIff sourceIff
  rw [Nat.not_lt, Nat.le_zero] at sourceIff
  refine ⟨positions, (Positions.skipped positions).card, gapType, ?_⟩
  constructor
  case yielded => exact found
  case measured => exact measured
  case typed => exact typed
  case sum_eq => rfl
  case skipped_lt =>
    intro position member
    obtain ⟨_, _, after, afterMember, later⟩ := Positions.mem_skipped.mp member
    exact later.trans (bound after afterMember)
  case sum_of_empty =>
    rintro rfl
    rw [Positions.skipped_nil, Finset.card_empty]
  case sum_of_ends => exact fun _ _ => Positions.card_skipped_add_length ascending
  case tested => exact tested
  case pos_iff => rw [← Positions.card_skipped_eq_zero_iff, Nat.pos_iff_ne_zero]
  case pass_iff => exact passIff
  case source_iff => exact sourceIff
  case none_iff =>
    rw [GapType.eq_none_iff, ne_eq, passIff, ne_eq, sourceIff, Nat.not_lt, Nat.le_zero]
    exact and_congr_right fun zero => not_congr (and_congr_right fun _ => and_iff_right zero)
  case read =>
    rintro state rfl
    obtain ⟨node, looked⟩ := exists_node_of_lt known
    refine ⟨Property.value_gapType looked typed, Property.value_gapLengthSum looked measured, ?_⟩
    have positive : toString (Positions.skipped positions).card ≠ "0" ↔
        0 < (Positions.skipped positions).card := by
      rw [Nat.pos_iff_ne_zero]
      exact not_congr (@toString_inj _ 0)
    rw [GapType.code_eq_p_iff, passIff, positive]
  case kept =>
    intro memo correct
    have sameYields := Memo.agreement_sameYields wellFormed acyclic
    exact ⟨(sameYields id memo correct).1.trans found,
      (gapLengthSum_agree sameYields id memo correct).1.trans measured,
      (gapType_agree sameYields id memo correct).1.trans typed⟩

/-- How a sentence is annotated in which a unit around another is its remote child. -/
def parentheticalSteps : List BuildStep :=
  [.terminal "he" "PRP", .terminal "presumably" "RB", .terminal "left" "VBD", .unit, .unit,
    .edge EdgeTag.participant 3 0, .edge EdgeTag.process 3 2, .edge EdgeTag.center 4 1,
    .remote EdgeTag.participant 4 3]

/-- The outer unit passes its gap on.  The inner one has none and is a source because of the
remote edge, and the token has none at all. -/
theorem gaps_classified_parenthetical :
    ∃ graph, build parentheticalSteps = .ok graph ∧ graph.Acyclic ∧ 4 < graph.nodes.size ∧
      graph.TellsGaps 3 [0, 2] 1 .pass ∧ graph.TellsGaps 4 [1] 0 .source ∧
      graph.TellsGaps 0 [0] 0 .none := by
  obtain ⟨graph, built, size, outer, inner, token, down⟩ : ∃ graph,
      build parentheticalSteps = .ok graph ∧ graph.nodes.size = 5 ∧
        (graph.yield 3 = .ok [0, 2] ∧ Id.run (graph.gapLengthSum 3).run = .ok 1 ∧
          Id.run (graph.gapType 3).run = .ok .pass) ∧
        (graph.yield 4 = .ok [1] ∧ Id.run (graph.gapLengthSum 4).run = .ok 0 ∧
          Id.run (graph.gapType 4).run = .ok .source) ∧
        (graph.yield 0 = .ok [0] ∧ Id.run (graph.gapLengthSum 0).run = .ok 0 ∧
          Id.run (graph.gapType 0).run = .ok .none) ∧
        ∀ edge ∈ graph.edges, edge.remote = false → edge.child < edge.parent :=
    ⟨_, rfl, rfl, ⟨rfl, rfl, rfl⟩, ⟨rfl, rfl, rfl⟩, ⟨rfl, rfl, rfl⟩, by decide⟩
  have acyclic := acyclic_of_child_lt_parent down
  have told : ∀ id positions sum gapType, id < graph.nodes.size →
      (graph.yield id = .ok positions ∧ Id.run (graph.gapLengthSum id).run = .ok sum ∧
        Id.run (graph.gapType id).run = .ok gapType) →
        graph.TellsGaps id positions sum gapType := by
    rintro id positions sum gapType known ⟨yielded, measured, typed⟩
    obtain ⟨_, _, _, told⟩ := gaps_classified built acyclic known
    cases told.yielded.symm.trans yielded
    cases told.measured.symm.trans measured
    cases told.typed.symm.trans typed
    exact told
  have allKnown : ∀ id < 5, id < graph.nodes.size := fun _ => size.symm ▸ id
  exact ⟨graph, built, acyclic, allKnown 4 (by decide), told 3 _ _ _ (allKnown 3 (by decide)) outer,
    told 4 _ _ _ (allKnown 4 (by decide)) inner, told 0 _ _ _ (allKnown 0 (by decide)) token⟩

end Graph

end TransitionFeatures
