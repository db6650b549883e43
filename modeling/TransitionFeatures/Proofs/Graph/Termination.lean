import Mathlib.Data.Finset.Card
import TransitionFeatures.Proofs.Graph.Consistency
import TransitionFeatures.Proofs.Graph.HeadInYield
import TransitionFeatures.Proofs.Graph.Memo

/-!
# Where walks end

Primary edges may form cycles, and then a walk may go round forever.  The descent for a head has
no choice on its way, so it goes on forever if and only if it comes to some node twice; otherwise
the units it comes to are different ones, and it ends within as many of them as the graph has.
The walk for a yield branches.  It ends wherever no cycle lies below, with or without a table, and
is nested no deeper than one more than the graph has units.  `Graph.walks_end` states all this.
-/

namespace TransitionFeatures

namespace Memo

/-- If a walk for a yield ends, it ends from every table, right or wrong. -/
theorem exists_run_yieldWithin_eq_ok {graph : Graph} {depth : Nat} {id : NodeId}
    {positions : List Nat} (found : graph.yieldWithin depth id = .ok positions) (memo : Memo) :
    ∃ answer left, (yieldWithin graph depth id).run.run memo = (.ok answer, left) := by
  induction depth generalizing id positions memo with
  | zero => cases found
  | succ depth inductionHypothesis =>
    cases entry : memo.yields[id]? with
    | some known => exact ⟨known, memo, run_yieldWithin_of_known entry depth⟩
    | none =>
      obtain ⟨node, looked, ⟨position, place, rfl⟩ | ⟨unit, edges, yields, primary, below, rfl⟩⟩ :=
        Graph.yieldWithin_succ_eq_ok_iff.mp found
      · refine ⟨[position], memo.enterYield id [position], ?_⟩
        simp only [yieldWithin, run_bind, run_get, entry, looked, run_liftM, place, run_pure,
          run_modify]
      · -- Nothing need hold of the tables on the way.
        let anyway : Memo → Memo → Prop := fun _ _ => True
        have answered : ∀ edge ∈ edges, ∀ middle, Relation.ReflTransGen anyway memo middle →
            ∃ answer left, (yieldWithin graph depth edge.child).run.run middle =
                (.ok answer, left) ∧ Relation.ReflTransGen anyway middle left ∧ True := by
          intro edge member middle _
          obtain ⟨_, edgeFound⟩ := exists_mapM_eq_ok_iff.mp ⟨yields, below⟩ edge member
          obtain ⟨answer, left, run⟩ := inductionHypothesis edgeFound middle
          exact ⟨answer, left, run, .single trivial, trivial⟩
        obtain ⟨answers, left, belowRun, _⟩ := run_mapM (fun _ _ _ _ _ _ => trivial) answered
        refine ⟨Positions.ofList answers.flatten,
          left.enterYield id (Positions.ofList answers.flatten), ?_⟩
        simp only [yieldWithin, run_bind, run_get, entry, looked, run_liftM, unit, primary,
          belowRun, run_pure, run_modify]

end Memo

namespace Graph

variable {graph : Graph}

/-! ## Units -/

/-- The units of a graph. -/
def units (graph : Graph) : Finset NodeId :=
  (Finset.range graph.nodes.size).filter fun id => graph.isTerminalAt id = false

theorem mem_units {id : NodeId} : id ∈ graph.units ↔ graph.IsUnit id := by
  rw [units, Finset.mem_filter, Finset.mem_range, IsUnit, isTerminalAt]
  constructor
  · rintro ⟨known, unit⟩
    rw [Array.getElem?_eq_getElem known] at unit ⊢
    exact ⟨_, rfl, unit⟩
  · rintro ⟨node, entry, unit⟩
    refine ⟨(Array.getElem?_eq_some_iff.mp entry).1, ?_⟩
    rw [entry, Option.any_some, unit]

theorem card_units_le (graph : Graph) : graph.units.card ≤ graph.nodes.size :=
  (Finset.card_filter_le _ _).trans_eq (Finset.card_range _)

theorem card_unitsBelow_le_card_units (graph : Graph) (id : NodeId) :
    (graph.unitsBelow id).card ≤ graph.units.card :=
  Finset.card_le_card fun _ member => mem_units.mpr (mem_unitsBelow.mp member).1

/-! ## Iterations of the descent for a head -/

/-- The descent for a head goes from one node to another by so many steps. -/
inductive HeadWalk (graph : Graph) : Nat → NodeId → NodeId → Prop
  | refl (id : NodeId) : graph.HeadWalk 0 id id
  | head {count : Nat} {upper middle lower : NodeId} (step : graph.HeadStep upper middle)
      (rest : graph.HeadWalk count middle lower) : graph.HeadWalk (count + 1) upper lower

/-- The descent for a head goes on after every number of steps. -/
def HeadEndless (graph : Graph) (id : NodeId) : Prop :=
  ∀ count, ∃ lower, graph.HeadWalk count id lower

/-- The descent for a head comes to some node twice. -/
def Revisits (graph : Graph) (id : NodeId) : Prop :=
  ∃ earlier later node, earlier < later ∧ graph.HeadWalk earlier id node ∧
    graph.HeadWalk later id node

namespace HeadWalk

theorem add {first second : Nat} {upper middle lower : NodeId}
    (walk : graph.HeadWalk first upper middle) (rest : graph.HeadWalk second middle lower) :
    graph.HeadWalk (first + second) upper lower := by
  induction walk with
  | refl => simpa using rest
  | head step _ inductionHypothesis =>
    rw [Nat.add_right_comm]
    exact .head step (inductionHypothesis rest)

/-- A walk splits anywhere on its way. -/
theorem exists_split {first second : Nat} {upper lower : NodeId}
    (walk : graph.HeadWalk (first + second) upper lower) :
    ∃ middle, graph.HeadWalk first upper middle ∧ graph.HeadWalk second middle lower := by
  induction first generalizing upper with
  | zero => exact ⟨upper, .refl upper, by simpa using walk⟩
  | succ first inductionHypothesis =>
    rw [Nat.add_right_comm] at walk
    cases walk with
    | head step rest =>
      obtain ⟨middle, before, after⟩ := inductionHypothesis rest
      exact ⟨middle, .head step before, after⟩

theorem reflTransGen {count : Nat} {upper lower : NodeId}
    (walk : graph.HeadWalk count upper lower) :
    Relation.ReflTransGen graph.HeadStep upper lower := by
  induction walk with
  | refl => exact .refl
  | head step _ inductionHypothesis => exact .head step inductionHypothesis

end HeadWalk

/-- What a descent goes on from is a unit. -/
theorem exists_unit_of_headWalk {count : Nat} {id lower : NodeId}
    (walk : graph.HeadWalk count id lower) {number : Nat} (before : number < count) :
    ∃ unit, graph.HeadWalk number id unit ∧ graph.IsUnit unit := by
  obtain ⟨rest, rfl⟩ := Nat.exists_eq_add_of_lt before
  rw [Nat.add_assoc] at walk
  obtain ⟨unit, first, onward⟩ := walk.exists_split
  cases onward with
  | head step _ => exact ⟨unit, first, step.1⟩

/-- Every iteration of a descent that ends is made at a unit. -/
theorem HeadRun.exists_unit {count : Nat} {id : NodeId} {head? : Option NodeId}
    (run : graph.HeadRun count id head?) {number : Nat} (before : number < count) :
    ∃ unit, graph.HeadWalk number id unit ∧ graph.IsUnit unit := by
  induction run generalizing number with
  | token => exact absurd before (Nat.not_lt_zero number)
  | @stuck id unit _ =>
    cases Nat.lt_one_iff.mp before
    exact ⟨id, .refl id, unit⟩
  | @step count upper lower head? step _ inductionHypothesis =>
    cases number with
    | zero => exact ⟨upper, .refl upper, step.1⟩
    | succ number =>
      obtain ⟨unit, walk, isUnit⟩ := inductionHypothesis (Nat.lt_of_succ_lt_succ before)
      exact ⟨unit, .head step walk, isUnit⟩

/-- As long as a descent comes to no node twice it comes to no more units than there are. -/
theorem le_card_units_of_not_revisits {id : NodeId} (onward : ¬ graph.Revisits id) {count : Nat}
    (atUnits : ∀ number < count, ∃ unit, graph.HeadWalk number id unit ∧ graph.IsUnit unit) :
    count ≤ graph.units.card := by
  have total : ∀ number, ∃ unit, number < count →
      graph.HeadWalk number id unit ∧ graph.IsUnit unit := by
    intro number
    by_cases before : number < count
    · exact (atUnits number before).imp fun _ visited _ => visited
    · exact ⟨id, fun still => absurd still before⟩
  choose unitAt visited using total
  have distinct : Set.InjOn unitAt (Finset.range count) := by
    intro first firstMember second secondMember same
    have firstVisit := visited first (Finset.mem_range.mp firstMember)
    have secondVisit := visited second (Finset.mem_range.mp secondMember)
    rw [← same] at secondVisit
    by_contra different
    rcases Nat.lt_or_gt_of_ne different with earlier | later
    · exact onward ⟨first, second, _, earlier, firstVisit.1, secondVisit.1⟩
    · exact onward ⟨second, first, _, later, secondVisit.1, firstVisit.1⟩
  calc
    count = (Finset.range count).card := (Finset.card_range count).symm
    _ ≤ graph.units.card := Finset.card_le_card_of_injOn unitAt
      (fun number member =>
        mem_units.mpr (visited number (Finset.mem_range.mp member)).2) distinct

namespace WellFormed

variable (wellFormed : graph.WellFormed)

include wellFormed

/-- After so many steps a descent is at one node only. -/
theorem headWalk_unique {count : Nat} {id lower other : NodeId}
    (walk : graph.HeadWalk count id lower) (otherWalk : graph.HeadWalk count id other) :
    lower = other := by
  induction walk with
  | refl =>
    cases otherWalk
    rfl
  | head step _ inductionHypothesis =>
    cases otherWalk with
    | head otherStep otherRest =>
      cases wellFormed.rightUnique_headStep step otherStep
      exact inductionHypothesis otherRest

/-- A descent that comes to a node again goes on from it as before. -/
theorem headEndless_of_revisits {id : NodeId} (revisits : graph.Revisits id) :
    graph.HeadEndless id := by
  obtain ⟨earlier, later, node, order, first, again⟩ := revisits
  intro count
  induction count using Nat.strong_induction_on with
  | h count inductionHypothesis =>
    rcases Nat.lt_or_ge count later with before | after
    · rw [← Nat.add_sub_of_le (Nat.le_of_lt before)] at again
      obtain ⟨middle, walk, _⟩ := again.exists_split
      exact ⟨middle, walk⟩
    · -- What lies so far behind the second visit lay as far behind the first.
      obtain ⟨beyond, rfl⟩ := Nat.exists_eq_add_of_le after
      obtain ⟨lower, walk⟩ := inductionHypothesis (earlier + beyond) (by omega)
      obtain ⟨middle, toMiddle, onward⟩ := walk.exists_split
      cases wellFormed.headWalk_unique first toMiddle
      exact ⟨lower, again.add onward⟩

theorem not_headWalk_of_headRun {count : Nat} {id : NodeId} {head? : Option NodeId}
    (run : graph.HeadRun count id head?) (lower : NodeId) :
    ¬ graph.HeadWalk (count + 1) id lower := by
  induction run with
  | token token =>
    rintro ⟨⟩
    rename_i step _
    exact token.not_headStep step
  | stuck unit alone =>
    rintro ⟨⟩
    rename_i step _
    obtain ⟨_, number, edge, competes, _⟩ := step
    exact alone number edge competes
  | step step _ inductionHypothesis =>
    rintro ⟨⟩
    rename_i otherStep rest
    cases wellFormed.rightUnique_headStep step otherStep
    exact inductionHypothesis rest

theorem not_headEndless_of_headRun {count : Nat} {id : NodeId} {head? : Option NodeId}
    (run : graph.HeadRun count id head?) : ¬ graph.HeadEndless id := by
  intro endless
  obtain ⟨lower, walk⟩ := endless (count + 1)
  exact wellFormed.not_headWalk_of_headRun run lower walk

/-- A descent either has ended or goes on. -/
theorem exists_headRun_or_headWalk (count : Nat) {id : NodeId} (known : id < graph.nodes.size) :
    (∃ iterations ≤ count, ∃ head?, graph.HeadRun iterations id head?) ∨
      ∃ lower, graph.HeadWalk count id lower := by
  induction count generalizing id with
  | zero => exact Or.inr ⟨id, .refl id⟩
  | succ count inductionHypothesis =>
    rcases isToken_or_isUnit known with token | unit
    · exact Or.inl ⟨0, Nat.zero_le _, _, .token token⟩
    · cases chosen? : bestEdge? ((graph.edgesFrom id).filter graph.eligible) with
      | none =>
        have alone := (wellFormed.headEdge?_eq_ok_none_iff known).mp
          ((wellFormed.headEdge?_eq_ok known).trans (congrArg Except.ok chosen?))
        exact Or.inl ⟨1, Nat.le_add_left _ _, _, .stuck unit alone⟩
      | some best =>
        have step := (wellFormed.headStep_iff unit).mpr
          ⟨best, (wellFormed.headEdge?_eq_ok known).trans (congrArg Except.ok chosen?), rfl⟩
        rcases inductionHypothesis step.lower_lt with ⟨iterations, bound, head?, run⟩ | ⟨_, walk⟩
        · exact Or.inl ⟨iterations + 1, Nat.succ_le_succ bound, head?, .step step run⟩
        · exact Or.inr ⟨_, .head step walk⟩

theorem headRun_or_headEndless {id : NodeId} (known : id < graph.nodes.size) :
    (∃ iterations head?, graph.HeadRun iterations id head?) ∨ graph.HeadEndless id := by
  by_cases endless : graph.HeadEndless id
  · exact Or.inr endless
  · obtain ⟨count, stops⟩ := not_forall.mp endless
    obtain ⟨iterations, _, head?, run⟩ :=
      (wellFormed.exists_headRun_or_headWalk count known).resolve_right stops
    exact Or.inl ⟨iterations, head?, run⟩

theorem headEndless_iff_revisits {id : NodeId} :
    graph.HeadEndless id ↔ graph.Revisits id := by
  constructor
  · intro endless
    by_contra onward
    have tooMany := le_card_units_of_not_revisits onward fun number before =>
      exists_unit_of_headWalk (endless (graph.units.card + 1)).choose_spec before
    exact Nat.not_succ_le_self _ tooMany
  · exact wellFormed.headEndless_of_revisits

theorem headRun_le_card_units {count : Nat} {id : NodeId} {head? : Option NodeId}
    (run : graph.HeadRun count id head?) : count ≤ graph.units.card := by
  have onward : ¬ graph.Revisits id := fun revisits =>
    wellFormed.not_headEndless_of_headRun run (wellFormed.headEndless_of_revisits revisits)
  exact le_card_units_of_not_revisits onward fun _ => run.exists_unit

/-- No bound on the iterations is large enough for a descent that never ends. -/
theorem headWithin_of_headEndless {units : Nat} {id : NodeId} (known : id < graph.nodes.size)
    (endless : graph.HeadEndless id) : graph.headWithin units id = .error .endless := by
  have ends := wellFormed.headWithin_endsUnless units known
  cases found : graph.headWithin units id with
  | ok head? =>
    obtain ⟨_, _, run⟩ := (wellFormed.headWithin_eq_ok_iff known).mp found
    exact absurd endless (wellFormed.not_headEndless_of_headRun run)
  | error cause =>
    rw [found] at ends
    exact congrArg Except.error ends.1

/-- Where no cycle lies below, a descent comes to no node twice. -/
theorem not_revisits_of_acyclicBelow {id : NodeId} (acyclic : graph.AcyclicBelow id) :
    ¬ graph.Revisits id := by
  rintro ⟨earlier, later, node, order, first, again⟩
  obtain ⟨more, rfl⟩ := Nat.exists_eq_add_of_lt order
  rw [Nat.add_assoc] at again
  obtain ⟨middle, toMiddle, round⟩ := again.exists_split
  cases wellFormed.headWalk_unique first toMiddle
  have below := wellFormed.reflTransGen_descends first.reflTransGen
  cases round with
  | head step rest =>
    have back := wellFormed.reflTransGen_descends rest.reflTransGen
    exact acyclic node below (Relation.TransGen.head' (wellFormed.descends_of_headStep step) back)

/-! ## Yields -/

theorem exists_yieldWithin_eq_ok {id : NodeId} (known : id < graph.nodes.size)
    (acyclic : graph.AcyclicBelow id) :
    ∃ positions, ∀ depth, graph.units.card < depth →
      graph.yieldWithin depth id = .ok positions := by
  have uncut : ¬ (graph.AcyclicBelow id →
      graph.units.card + 1 ≤ (graph.unitsBelow id).card) := fun cut =>
    Nat.not_succ_le_self _ ((cut acyclic).trans (graph.card_unitsBelow_le_card_units id))
  obtain ⟨positions, found, _⟩ :=
    (wellFormed.yieldWithin_endsUnless (graph.units.card + 1) known).exists_eq_ok uncut
  exact ⟨positions, fun _ bound => yieldWithin_of_le found bound⟩

end WellFormed

/-- The descent for a head ends within as many iterations as the graph has units or never, and it
never ends if and only if it comes to some node twice; accordingly the program finds its result or
gives it up.  If no cycle of primary edges lies below a node, then the descent ends within that
bound and the walk for the yield, with any table or without one, ends at a depth of one more. -/
theorem walks_end {steps : List BuildStep} {graph : Graph} (built : build steps = .ok graph)
    {id : NodeId} (known : id < graph.nodes.size) :
    ((∃ iterations ≤ graph.units.card, ∃ head?, graph.HeadRun iterations id head? ∧
        graph.head id = .ok head? ∧ ¬ graph.HeadEndless id) ∨
      graph.HeadEndless id ∧ graph.head id = .error .endless) ∧
    (graph.HeadEndless id ↔ graph.Revisits id) ∧
    (∀ units head?, graph.headWithin units id = .ok head? ↔
      ∃ iterations ≤ units, graph.HeadRun iterations id head?) ∧
    (graph.AcyclicBelow id →
      (∃ iterations ≤ graph.units.card, ∃ head?, graph.HeadRun iterations id head?) ∧
      ∃ positions, ∀ depth, graph.units.card < depth →
        graph.yieldWithin depth id = .ok positions ∧
          ∀ memo, ∃ answer left,
            (Memo.yieldWithin graph depth id).run.run memo = (.ok answer, left)) := by
  have wellFormed := wellFormed_of_build built
  have revisitsIff := @WellFormed.headEndless_iff_revisits graph wellFormed id
  refine ⟨?_, revisitsIff, fun _ _ => wellFormed.headWithin_eq_ok_iff known,
    fun acyclic => ⟨?_, ?_⟩⟩
  · rcases wellFormed.headRun_or_headEndless known with ⟨iterations, head?, run⟩ | endless
    · have bound := wellFormed.headRun_le_card_units run
      have found := (wellFormed.headWithin_eq_ok_iff known).mpr
        ⟨iterations, bound.trans graph.card_units_le, run⟩
      exact Or.inl
        ⟨iterations, bound, head?, run, found, wellFormed.not_headEndless_of_headRun run⟩
    · exact Or.inr ⟨endless, wellFormed.headWithin_of_headEndless known endless⟩
  · have onward := wellFormed.not_revisits_of_acyclicBelow acyclic
    obtain ⟨iterations, head?, run⟩ := (wellFormed.headRun_or_headEndless known).resolve_right
      fun endless => onward (revisitsIff.mp endless)
    exact ⟨iterations, wellFormed.headRun_le_card_units run, head?, run⟩
  · obtain ⟨positions, found⟩ := wellFormed.exists_yieldWithin_eq_ok known acyclic
    exact ⟨positions, fun depth bound =>
      ⟨found depth bound, Memo.exists_run_yieldWithin_eq_ok (found depth bound)⟩⟩

/-- Two units with each other as their centres, beside a unit above a word. -/
def roundSteps : List BuildStep :=
  [.terminal "round" "RB", .unit, .unit, .unit, .edge EdgeTag.center 1 2,
    .edge EdgeTag.center 2 1, .edge EdgeTag.process 3 0]

/-- The descent from the first unit goes round forever and is given up, and the one from the last
unit ends at its word.  The walk for its yield ends from every table, and without one at the
position of the word. -/
theorem walks_end_round :
    ∃ graph, build roundSteps = .ok graph ∧ graph.units.card = 3 ∧ 1 < graph.nodes.size ∧
      graph.Revisits 1 ∧ graph.head 1 = .error .endless ∧ 3 < graph.nodes.size ∧
      graph.AcyclicBelow 3 ∧ (∃ iterations ≤ 3, ∃ head?, graph.HeadRun iterations 3 head?) ∧
      graph.yieldWithin 4 3 = .ok [0] ∧
      ∀ memo, ∃ answer left, (Memo.yieldWithin graph 4 3).run.run memo = (.ok answer, left) := by
  obtain ⟨graph, built, size, units, givenUp, yielded, only, word⟩ :
      ∃ graph, build roundSteps = .ok graph ∧ graph.nodes.size = 4 ∧ graph.units.card = 3 ∧
        graph.head 1 = .error .endless ∧ graph.yieldWithin 4 3 = .ok [0] ∧
        (∀ edge ∈ graph.edges, edge.parent = 3 → edge.child = 0) ∧ graph.IsToken 0 :=
    ⟨_, rfl, rfl, rfl, rfl, rfl, by decide, ⟨_, rfl, rfl⟩⟩
  have firstKnown : 1 < graph.nodes.size := by rw [size]; decide
  have lastKnown : 3 < graph.nodes.size := by rw [size]; decide
  have atWord : ∀ lower, Relation.ReflTransGen graph.Descends 0 lower → 0 = lower := by
    intro lower path
    rcases path.cases_head with same | ⟨_, step, _⟩
    · exact same
    · exact absurd step word.not_descends
  have acyclic : graph.AcyclicBelow 3 := by
    intro lower path cycle
    obtain ⟨next, step, back⟩ := Relation.TransGen.head'_iff.mp cycle
    rcases path.cases_head with rfl | ⟨middle, ⟨_, edge, member, _, leaves, rfl⟩, rest⟩
    · obtain ⟨_, edge, member, _, leaves, rfl⟩ := step
      rw [only edge member leaves] at back
      cases atWord 3 back
    · rw [only edge member leaves] at rest
      rw [← atWord lower rest] at step
      exact word.not_descends step
  obtain ⟨ended | endless, revisits, _⟩ := walks_end built firstKnown
  · obtain ⟨_, _, _, _, found, _⟩ := ended
    cases found.symm.trans givenUp
  · obtain ⟨_, _, _, atLast⟩ := walks_end built lastKnown
    obtain ⟨run, positions, found⟩ := atLast acyclic
    rw [units] at run found
    obtain ⟨_, answers⟩ := found 4 (by decide)
    exact ⟨graph, built, units, firstKnown, revisits.mp endless.1, endless.2, lastKnown, acyclic,
      run, yielded, answers⟩

end Graph

end TransitionFeatures
