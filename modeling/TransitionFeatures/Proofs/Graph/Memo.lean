import TransitionFeatures.Graph.Memo
import TransitionFeatures.Proofs.Evaluation.Agreement
import TransitionFeatures.Proofs.Graph.Descent

/-!
# Correctness of memo tables

A table is correct for a graph if each of its entries is the answer of the walk
that it stands for.  Questions to a correct table are answered as without one and
leave a correct table behind.  In an acyclic graph this is an agreement between
the context with a table and the one without: `Memo.agreement`.

What questions do to a table is `Memo.Grows`: they enter answers that were missing,
one after another, and a yield only after those right below it.
-/

namespace TransitionFeatures

namespace Graph

/-- The two ways in which a yield is found. -/
theorem yieldWithin_succ_eq_ok_iff {graph : Graph} {depth : Nat} {id : NodeId}
    {positions : List Nat} :
    graph.yieldWithin (depth + 1) id = .ok positions ↔
      ∃ node, graph.node id = .ok node ∧
        ((∃ position, node.position? = some position ∧ positions = [position]) ∨
          node.position? = none ∧ ∃ edges yields, graph.primaryEdges id = .ok edges ∧
            (edges.mapM fun edge : Edge => graph.yieldWithin depth edge.child) = .ok yields ∧
              positions = Positions.ofList yields.flatten) := by
  cases looked : graph.node id with
  | error cause => simp [yieldWithin, looked, bind, Except.bind]
  | ok node =>
    cases place : node.position? with
    | some position =>
      rw [yieldWithin_of_position? looked place]
      simp [place, eq_comm]
    | none =>
      rw [yieldWithin_of_unit looked place]
      cases primary : graph.primaryEdges id with
      | error cause => simp [place, Except.bind]
      | ok edges =>
        cases below : edges.mapM fun edge : Edge => graph.yieldWithin depth edge.child with
        | error cause => simp [place, below, Except.bind]
        | ok yields => simp [place, below, Except.bind, eq_comm]

/-- A yield that is found on short paths is found on longer ones. -/
theorem yieldWithin_succ {graph : Graph} {depth : Nat} {id : NodeId} {positions : List Nat}
    (found : graph.yieldWithin depth id = .ok positions) :
    graph.yieldWithin (depth + 1) id = .ok positions := by
  induction depth generalizing id positions with
  | zero => cases found
  | succ depth inductionHypothesis =>
    obtain ⟨node, looked, atToken | ⟨unit, edges, yields, primary, below, rfl⟩⟩ :=
      yieldWithin_succ_eq_ok_iff.mp found
    · exact yieldWithin_succ_eq_ok_iff.mpr ⟨node, looked, Or.inl atToken⟩
    · have deeper := mapM_eq_ok_of_imp
        (fun (edge : Edge) _ _ edgeFound => inductionHypothesis edgeFound) below
      exact yieldWithin_succ_eq_ok_iff.mpr
        ⟨node, looked, Or.inr ⟨unit, edges, yields, primary, deeper, rfl⟩⟩

theorem yieldWithin_of_le {graph : Graph} {depth more : Nat} {id : NodeId}
    {positions : List Nat} (found : graph.yieldWithin depth id = .ok positions)
    (bound : depth ≤ more) : graph.yieldWithin more id = .ok positions := by
  induction bound with
  | refl => exact found
  | step _ inductionHypothesis => exact yieldWithin_succ inductionHypothesis

/-- The edges that are followed for a yield lead down, and all steps down go along them. -/
theorem WellFormed.descends_iff_of_primaryEdges {graph : Graph} (wellFormed : graph.WellFormed)
    {id : NodeId} (unit : graph.IsUnit id) {edges : List Edge}
    (found : graph.primaryEdges id = .ok edges) {lower : NodeId} :
    graph.Descends id lower ↔ ∃ edge ∈ edges, edge.child = lower := by
  cases found.symm.trans (wellFormed.primaryEdges_eq_ok unit.lt_size)
  constructor
  · rintro ⟨_, edge, member, primary, leaves, enters⟩
    refine ⟨edge, List.mem_filter.mpr ⟨mem_edgesFrom.mpr ⟨member, leaves⟩, ?_⟩, enters⟩
    rw [primary, Bool.not_false]
  · rintro ⟨edge, member, rfl⟩
    obtain ⟨leaves, primary⟩ := List.mem_filter.mp member
    exact descends_of_mem_edgesFrom unit leaves (by simpa using primary)

end Graph

namespace Memo

/-- Every entry of a table is the answer of the walk that it stands for. -/
structure Correct (graph : Graph) (memo : Memo) : Prop where
  head_eq : ∀ {id head}, memo.heads[id]? = some head → graph.head id = .ok head
  yield_eq : ∀ {id positions}, memo.yields[id]? = some positions →
    graph.yield id = .ok positions

theorem correct_empty (graph : Graph) : empty.Correct graph where
  head_eq entry := by simp at entry
  yield_eq entry := by simp at entry

namespace Correct

variable {graph : Graph} {memo : Memo}

theorem enterHead (correct : memo.Correct graph) {id : NodeId} {head : Option NodeId}
    (found : graph.head id = .ok head) : (memo.enterHead id head).Correct graph where
  head_eq {other otherHead} entry := by
    rw [getElem?_heads_enterHead] at entry
    by_cases same : id = other
    · rw [if_pos same] at entry
      rw [← same, ← Option.some.inj entry]
      exact found
    · rw [if_neg same] at entry
      exact correct.head_eq entry
  yield_eq entry := correct.yield_eq entry

theorem enterYield (correct : memo.Correct graph) {id : NodeId} {positions : List Nat}
    (found : graph.yield id = .ok positions) :
    (memo.enterYield id positions).Correct graph where
  head_eq entry := correct.head_eq entry
  yield_eq {other otherPositions} entry := by
    rw [getElem?_yields_enterYield] at entry
    by_cases same : id = other
    · rw [if_pos same] at entry
      rw [← same, ← Option.some.inj entry]
      exact found
    · rw [if_neg same] at entry
      exact correct.yield_eq entry

end Correct

/-! ## Entries -/

/-- What a table holds is in a later one too, unchanged. -/
structure KeptIn (memo later : Memo) : Prop where
  head : ∀ {id : NodeId} {head? : Option NodeId}, memo.heads[id]? = some head? →
    later.heads[id]? = some head?
  yield : ∀ {id : NodeId} {positions : List Nat}, memo.yields[id]? = some positions →
    later.yields[id]? = some positions

namespace KeptIn

variable {memo middle later : Memo}

theorem refl (memo : Memo) : memo.KeptIn memo where
  head entry := entry
  yield entry := entry

theorem trans (first : memo.KeptIn middle) (second : middle.KeptIn later) :
    memo.KeptIn later where
  head entry := second.head (first.head entry)
  yield entry := second.yield (first.yield entry)

theorem enterHead {id : NodeId} (missing : memo.heads[id]? = none) (head? : Option NodeId) :
    memo.KeptIn (memo.enterHead id head?) where
  head {other otherHead?} entry := by
    have different : id ≠ other := by
      rintro rfl
      cases missing.symm.trans entry
    rw [getElem?_heads_enterHead, if_neg different, entry]
  yield entry := entry

theorem enterYield {id : NodeId} (missing : memo.yields[id]? = none) (positions : List Nat) :
    memo.KeptIn (memo.enterYield id positions) where
  head entry := entry
  yield {other otherPositions} entry := by
    have different : id ≠ other := by
      rintro rfl
      cases missing.symm.trans entry
    rw [getElem?_yields_enterYield, if_neg different, entry]

theorem mem_heads (kept : memo.KeptIn later) {id : NodeId} (member : id ∈ memo.heads) :
    id ∈ later.heads := by
  rw [Std.HashMap.mem_iff_isSome_getElem?, Option.isSome_iff_exists] at member ⊢
  exact member.imp fun _ => kept.head

theorem mem_yields (kept : memo.KeptIn later) {id : NodeId} (member : id ∈ memo.yields) :
    id ∈ later.yields := by
  rw [Std.HashMap.mem_iff_isSome_getElem?, Option.isSome_iff_exists] at member ⊢
  exact member.imp fun _ => kept.yield

end KeptIn

/-- One entry is made that was missing, with what the walk finds: a head, or a yield once those of
all nodes right below are there.  Only some heads and yields come into question. -/
inductive Enters (graph : Graph) (heads yields : NodeId → Prop) : Memo → Memo → Prop
  | head {memo : Memo} {id : NodeId} {head? : Option NodeId} (inQuestion : heads id)
      (missing : memo.heads[id]? = none) (found : graph.head id = .ok head?) :
      Enters graph heads yields memo (memo.enterHead id head?)
  | yield {memo : Memo} {id : NodeId} {positions : List Nat} (inQuestion : yields id)
      (missing : memo.yields[id]? = none) (found : graph.yield id = .ok positions)
      (ready : ∀ lower, graph.Descends id lower → lower ∈ memo.yields) :
      Enters graph heads yields memo (memo.enterYield id positions)

/-- Such entries are made one after another. -/
abbrev Grows (graph : Graph) (heads yields : NodeId → Prop) : Memo → Memo → Prop :=
  Relation.ReflTransGen (Enters graph heads yields)

section Entries

variable {graph : Graph} {heads yields : NodeId → Prop} {memo left : Memo}

theorem Enters.keptIn (enters : Enters graph heads yields memo left) : memo.KeptIn left := by
  cases enters with
  | head _ missing _ => exact .enterHead missing _
  | yield _ missing _ _ => exact .enterYield missing _

theorem Enters.correct (enters : Enters graph heads yields memo left)
    (correct : memo.Correct graph) : left.Correct graph := by
  cases enters with
  | head _ _ found => exact correct.enterHead found
  | yield _ _ found _ => exact correct.enterYield found

theorem Enters.mono {moreHeads moreYields : NodeId → Prop}
    (headsImply : ∀ id, heads id → moreHeads id) (yieldsImply : ∀ id, yields id → moreYields id)
    (enters : Enters graph heads yields memo left) :
    Enters graph moreHeads moreYields memo left := by
  cases enters with
  | head inQuestion missing found => exact .head (headsImply _ inQuestion) missing found
  | yield inQuestion missing found ready =>
    exact .yield (yieldsImply _ inQuestion) missing found ready

theorem mem_yields_enterYield {id other : NodeId} {positions : List Nat} :
    other ∈ (memo.enterYield id positions).yields ↔ other = id ∨ other ∈ memo.yields := by
  rw [enterYield, Std.HashMap.mem_insert, beq_iff_eq, eq_comm]

theorem mem_heads_enterHead {id other : NodeId} {head? : Option NodeId} :
    other ∈ (memo.enterHead id head?).heads ↔ other = id ∨ other ∈ memo.heads := by
  rw [enterHead, Std.HashMap.mem_insert, beq_iff_eq, eq_comm]

namespace Grows

variable (grown : Grows graph heads yields memo left)

include grown

theorem keptIn : memo.KeptIn left := by
  induction grown with
  | refl => exact .refl memo
  | tail _ enters inductionHypothesis => exact inductionHypothesis.trans enters.keptIn

theorem correct (correct : memo.Correct graph) : left.Correct graph := by
  induction grown with
  | refl => exact correct
  | tail _ enters inductionHypothesis => exact enters.correct inductionHypothesis

theorem mono {moreHeads moreYields : NodeId → Prop} (headsImply : ∀ id, heads id → moreHeads id)
    (yieldsImply : ∀ id, yields id → moreYields id) :
    Grows graph moreHeads moreYields memo left :=
  Relation.ReflTransGen.mono (fun _ _ => Enters.mono headsImply yieldsImply) _ _ grown

/-- Only heads that come into question are new. -/
theorem mem_heads_or {id : NodeId} (member : id ∈ left.heads) : id ∈ memo.heads ∨ heads id := by
  induction grown with
  | refl => exact Or.inl member
  | tail _ enters inductionHypothesis =>
    cases enters with
    | head inQuestion _ _ =>
      rcases mem_heads_enterHead.mp member with rfl | earlier
      · exact Or.inr inQuestion
      · exact inductionHypothesis earlier
    | yield _ _ _ _ => exact inductionHypothesis member

theorem mem_yields_or {id : NodeId} (member : id ∈ left.yields) :
    id ∈ memo.yields ∨ yields id := by
  induction grown with
  | refl => exact Or.inl member
  | tail _ enters inductionHypothesis =>
    cases enters with
    | head _ _ _ => exact inductionHypothesis member
    | yield inQuestion _ _ _ =>
      rcases mem_yields_enterYield.mp member with rfl | earlier
      · exact Or.inr inQuestion
      · exact inductionHypothesis earlier

end Grows

end Entries

/-! ## Questions to a correct table -/

/-- A row of questions is answered if each is, whatever those before it have entered.  What holds
of an answer and the table that it leaves lasts to the end of the row. -/
theorem run_mapM {ε α β : Type} {step : Memo → Memo → Prop} {holds : α → β → Memo → Prop}
    {ask : α → ExceptT ε (StateM Memo) β} {items : List α} {memo : Memo}
    (lasts : ∀ item value middle left, Relation.ReflTransGen step middle left →
      holds item value middle → holds item value left)
    (answered : ∀ item ∈ items, ∀ middle, Relation.ReflTransGen step memo middle →
      ∃ value left, (ask item).run.run middle = (.ok value, left) ∧
        Relation.ReflTransGen step middle left ∧ holds item value left) :
    ∃ values left, (items.mapM ask).run.run memo = (.ok values, left) ∧
      Relation.ReflTransGen step memo left ∧
        List.Forall₂ (fun item value => holds item value left) items values := by
  induction items generalizing memo with
  | nil => exact ⟨[], memo, rfl, .refl, .nil⟩
  | cons first rest inductionHypothesis =>
    obtain ⟨value, middle, firstRun, toMiddle, firstHolds⟩ :=
      answered first List.mem_cons_self memo .refl
    obtain ⟨values, left, restRun, toLeft, restHold⟩ :=
      inductionHypothesis fun item member later toLater =>
        answered item (List.mem_cons_of_mem first member) later (toMiddle.trans toLater)
    refine ⟨value :: values, left, ?_, toMiddle.trans toLeft,
      .cons (lasts first value middle left toLeft firstHolds) restHold⟩
    rw [List.mapM_cons, run_bind, firstRun]
    dsimp only
    rw [run_bind, restRun]
    rfl

/-- A question about a yield is answered with certain positions.  On the way missing yields of nodes
below are entered, and that of the node itself is there in the end. -/
def AnswersYield (graph : Graph) (depth : Nat) (id : NodeId) (positions : List Nat)
    (memo : Memo) : Prop :=
  ∃ left, (yieldWithin graph depth id).run.run memo = (.ok positions, left) ∧
    Grows graph (fun _ => False) (Relation.ReflTransGen graph.Descends id) memo left ∧
      id ∈ left.yields

/-- The yield at the lower end of an edge is found, and the table holds one for that end. -/
def HoldsYieldBelow (graph : Graph) (depth : Nat) (edge : Edge) (positions : List Nat)
    (memo : Memo) : Prop :=
  edge.child ∈ memo.yields ∧ graph.yieldWithin depth edge.child = .ok positions

/-- The questions about the nodes right below a node enter nothing but what is strictly below. -/
theorem run_mapM_yieldWithin {graph : Graph} {depth : Nat} {id : NodeId} {edges : List Edge}
    (down : ∀ edge ∈ edges, graph.Descends id edge.child)
    (answered : ∀ {lower positions memo}, graph.yieldWithin depth lower = .ok positions →
      memo.Correct graph → AnswersYield graph depth lower positions memo)
    {yields : List (List Nat)}
    (found : (edges.mapM fun edge : Edge => graph.yieldWithin depth edge.child) = .ok yields)
    {memo : Memo} (correct : memo.Correct graph) :
    ∃ left, (edges.mapM fun edge => yieldWithin graph depth edge.child).run.run memo =
        (.ok yields, left) ∧
      Grows graph (fun _ => False) (Relation.TransGen graph.Descends id) memo left ∧
        ∀ edge ∈ edges, edge.child ∈ left.yields := by
  have lasts : ∀ edge positions middle left,
      Grows graph (fun _ => False) (Relation.TransGen graph.Descends id) middle left →
        HoldsYieldBelow graph depth edge positions middle →
          HoldsYieldBelow graph depth edge positions left :=
    fun _ _ _ _ grown => And.imp_left grown.keptIn.mem_yields
  have eachAnswered : ∀ edge ∈ edges, ∀ middle,
      Grows graph (fun _ => False) (Relation.TransGen graph.Descends id) memo middle →
        ∃ positions left, (yieldWithin graph depth edge.child).run.run middle =
            (.ok positions, left) ∧
          Grows graph (fun _ => False) (Relation.TransGen graph.Descends id) middle left ∧
            HoldsYieldBelow graph depth edge positions left := by
    intro edge member middle toMiddle
    obtain ⟨positions, edgeFound⟩ := exists_mapM_eq_ok_iff.mp ⟨yields, found⟩ edge member
    obtain ⟨left, run, grown, there⟩ := answered edgeFound (toMiddle.correct correct)
    have strictly :
        Grows graph (fun _ => False) (Relation.TransGen graph.Descends id) middle left :=
      grown.mono (fun _ => False.elim) fun _ path => Relation.TransGen.head' (down edge member) path
    exact ⟨positions, left, run, strictly, there, edgeFound⟩
  obtain ⟨answers, left, run, grown, hold⟩ := run_mapM lasts eachAnswered
  obtain ⟨there, answersFound⟩ := (List.forall₂_and_left ..).mp hold
  cases (mapM_eq_ok_iff_forall₂.mpr answersFound).symm.trans found
  exact ⟨left, run, grown, there⟩

/-- A yield that the table holds is answered from it, and nothing is entered. -/
theorem answersYield_of_known {graph : Graph} {depth : Nat} {id : NodeId} {positions : List Nat}
    {memo : Memo} (entry : memo.yields[id]? = some positions) :
    AnswersYield graph (depth + 1) id positions memo :=
  ⟨memo, run_yieldWithin_of_known entry depth, .refl, of_getElem?_eq_some entry⟩

/-- The yield of a token is entered at once. -/
theorem answersYield_of_token {graph : Graph} {depth : Nat} {id : NodeId} {node : Node}
    {position : Nat} (looked : graph.node id = .ok node) (place : node.position? = some position)
    (found : graph.yield id = .ok [position]) {memo : Memo} (missing : memo.yields[id]? = none) :
    AnswersYield graph (depth + 1) id [position] memo := by
  have token : graph.IsToken id := Graph.isToken_of_position? looked place
  have ready : ∀ lower, graph.Descends id lower → lower ∈ memo.yields :=
    fun _ step => absurd step token.not_descends
  refine ⟨memo.enterYield id [position], ?_, .single (.yield .refl missing found ready),
    mem_yields_enterYield.mpr (Or.inl rfl)⟩
  simp only [yieldWithin, run_bind, run_get, missing, looked, run_liftM, place, run_pure,
    run_modify]

/-- The yield of a unit is entered after those of the nodes right below it. -/
theorem answersYield_of_unit {graph : Graph} (wellFormed : graph.WellFormed)
    (acyclic : graph.Acyclic) {depth : Nat} {id : NodeId} {node : Node}
    (looked : graph.node id = .ok node) (noPosition : node.position? = none) {edges : List Edge}
    (primary : graph.primaryEdges id = .ok edges) {yields : List (List Nat)}
    (below : (edges.mapM fun edge : Edge => graph.yieldWithin depth edge.child) = .ok yields)
    (answered : ∀ {lower positions memo}, graph.yieldWithin depth lower = .ok positions →
      memo.Correct graph → AnswersYield graph depth lower positions memo)
    (found : graph.yield id = .ok (Positions.ofList yields.flatten)) {memo : Memo}
    (correct : memo.Correct graph) (entry : memo.yields[id]? = none) :
    AnswersYield graph (depth + 1) id (Positions.ofList yields.flatten) memo := by
  have downIff : ∀ lower, graph.Descends id lower ↔ ∃ edge ∈ edges, edge.child = lower := fun _ =>
    wellFormed.descends_iff_of_primaryEdges (Graph.isUnit_of_position? looked noPosition) primary
  obtain ⟨left, belowRun, grown, there⟩ := run_mapM_yieldWithin
    (fun edge member => (downIff _).mpr ⟨edge, member, rfl⟩) answered below correct
  -- What was entered is strictly below, so without cycles the node itself is missing still.
  have missing : left.yields[id]? = none := by
    apply Std.HashMap.getElem?_eq_none
    intro member
    rcases grown.mem_yields_or member with earlier | cycle
    · rw [Std.HashMap.mem_iff_isSome_getElem?, entry] at earlier
      cases earlier
    · exact acyclic id cycle
  have ready : ∀ lower, graph.Descends id lower → lower ∈ left.yields := by
    intro lower step
    obtain ⟨edge, member, rfl⟩ := (downIff lower).mp step
    exact there edge member
  have onward : Grows graph (fun _ => False) (Relation.ReflTransGen graph.Descends id) memo left :=
    grown.mono (fun _ => False.elim) fun _ path => path.to_reflTransGen
  refine ⟨left.enterYield id (Positions.ofList yields.flatten), ?_,
    onward.tail (.yield .refl missing found ready), mem_yields_enterYield.mpr (Or.inl rfl)⟩
  simp only [yieldWithin, run_bind, run_get, entry, looked, run_liftM, noPosition, primary,
    belowRun, run_pure, run_modify]

/-- A question about a yield that a walk of the same length finds is answered with it. -/
theorem run_yieldWithin {graph : Graph} (wellFormed : graph.WellFormed) (acyclic : graph.Acyclic)
    {depth : Nat} (bound : depth ≤ graph.nodes.size + 1) {id : NodeId} {positions : List Nat}
    (found : graph.yieldWithin depth id = .ok positions) {memo : Memo}
    (correct : memo.Correct graph) : AnswersYield graph depth id positions memo := by
  induction depth generalizing id positions memo with
  | zero => cases found
  | succ depth inductionHypothesis =>
    have whole : graph.yield id = .ok positions := Graph.yieldWithin_of_le found bound
    cases entry : memo.yields[id]? with
    | some known =>
      cases (correct.yield_eq entry).symm.trans whole
      exact answersYield_of_known entry
    | none =>
      obtain ⟨node, looked, ⟨position, place, rfl⟩ | ⟨noPosition, edges, yields, primary, below,
        rfl⟩⟩ := Graph.yieldWithin_succ_eq_ok_iff.mp found
      · exact answersYield_of_token looked place whole entry
      · exact answersYield_of_unit wellFormed acyclic looked noPosition primary below
          (fun lowerFound => inductionHypothesis (Nat.le_of_succ_le bound) lowerFound) whole
          correct entry

/-! ## Agreement with walks made anew -/

/-- From every correct table a computation has the result that it has without one, and
it leaves a correct table behind. -/
def agreement (graph : Graph) : Agreement (StateM Memo) Id where
  Agree kept anew := ∀ memo : Memo, memo.Correct graph →
    (kept.run memo).1 = Id.run anew ∧ (kept.run memo).2.Correct graph
  agree_pure _ _ correct := ⟨rfl, correct⟩
  agree_bind {_ _ first other later otherLater} agree laterAgree memo correct := by
    obtain ⟨sameValue, leftCorrect⟩ := agree memo correct
    have anew : Id.run (other >>= otherLater) = Id.run (otherLater (first.run memo).1) := by
      rw [sameValue]
      rfl
    rw [anew]
    exact laterAgree (first.run memo).1 (first.run memo).2 leftCorrect

/-- A computation has the same result whether it starts from the empty table or is made without
one. -/
theorem ite_run_empty_eq_anew {graph : Graph} {α : Type} {kept : StateM Memo α} {anew : Id α}
    (agree : (agreement graph).Agree kept anew) (memoizes : Bool) :
    (if memoizes then (kept.run empty).1 else Id.run anew) = Id.run anew := by
  cases memoizes with
  | true => exact (agree empty (correct_empty graph)).1
  | false => rfl

/-- What is made of a result in every context alike is made of it whether it starts from the empty
table or is made without one. -/
theorem map_ite_run_empty {α β : Type} {convert : α → β}
    {before : (m : Type → Type) → [Monad m] → [DerivedData m] → m α}
    {after : (m : Type → Type) → [Monad m] → [DerivedData m] → m β}
    (alike : ∀ (m : Type → Type) [Monad m] [LawfulMonad m] [DerivedData m],
      convert <$> before m = after m) (memoizes : Bool) :
    convert (if memoizes then ((before (StateM Memo)).run empty).1 else Id.run (before Id)) =
      if memoizes then ((after (StateM Memo)).run empty).1 else Id.run (after Id) := by
  cases memoizes with
  | true => exact congrArg (fun run => (run.run empty).1) (alike (StateM Memo))
  | false => exact congrArg Id.run (alike Id)

theorem agreement_sameHeads (graph : Graph) : (agreement graph).SameHeads graph := by
  intro id memo correct
  change ((head graph id).run.run memo).1 = graph.head id ∧
    ((head graph id).run.run memo).2.Correct graph
  rw [run_head]
  cases entry : memo.heads[id]? with
  | some known => exact ⟨(correct.head_eq entry).symm, correct⟩
  | none =>
    cases found : graph.head id with
    | ok found' => exact ⟨rfl, correct.enterHead found⟩
    | error cause => exact ⟨rfl, correct⟩

theorem yield_of_unknown {graph : Graph} {id : NodeId} {cause : Fault}
    (unknown : graph.node id = .error cause) : graph.yield id = .error cause := by
  simp [Graph.yield, Graph.yieldWithin, unknown, bind, Except.bind]

/-- A question about a node that the graph does not have fails as without a table. -/
theorem run_yield_of_unknown {graph : Graph} {id : NodeId} {cause : Fault}
    (unknown : graph.node id = .error cause) {memo : Memo} (correct : memo.Correct graph) :
    (yield graph id).run.run memo = (.error cause, memo) := by
  have entry : memo.yields[id]? = none := by
    apply Option.eq_none_iff_forall_ne_some.mpr
    intro positions entry
    have known := correct.yield_eq entry
    rw [yield_of_unknown unknown] at known
    cases known
  simp only [yield, yieldWithin, run_bind, run_get, entry, unknown, run_liftM]

theorem agreement_sameYields {graph : Graph} (wellFormed : graph.WellFormed)
    (acyclic : graph.Acyclic) : (agreement graph).SameYields graph := by
  intro id memo correct
  change ((yield graph id).run.run memo).1 = graph.yield id ∧
    ((yield graph id).run.run memo).2.Correct graph
  cases looked : graph.node id with
  | error cause =>
    rw [run_yield_of_unknown looked correct, yield_of_unknown looked]
    exact ⟨rfl, correct⟩
  | ok node =>
    have known : id < graph.nodes.size := Graph.exists_node_iff.mp ⟨node, looked⟩
    obtain ⟨positions, found, _⟩ := wellFormed.exists_yield_eq_ok acyclic known
    obtain ⟨left, answer, grown, _⟩ := run_yieldWithin wellFormed acyclic le_rfl found correct
    rw [found, yield, answer]
    exact ⟨rfl, grown.correct correct⟩

end Memo

end TransitionFeatures
