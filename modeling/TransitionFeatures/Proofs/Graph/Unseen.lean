import TransitionFeatures.Graph.Memo
import TransitionFeatures.Proofs.Evaluation.Agreement

/-!
# The two parts of a memo table

Questions about heads look at the heads of a table alone, and questions about yields at its
yields alone, whatever the other part holds and however wrong it is.  For a computation that
asks no questions of one kind this is an agreement between two runs from tables that differ
in that part: `Memo.unseen`.
-/

namespace TransitionFeatures

namespace Memo

section Parts

variable {α β : Type} (part : Memo → α) (rest : Memo → β)

/-- Two runs that cannot tell their tables apart: they have the same value, leave the same
rest behind and the part in which the tables may differ as it was. -/
structure Unseen {γ : Type} (memo otherMemo : Memo) (first other : γ × Memo) : Prop where
  value_eq : first.1 = other.1
  rest_eq : rest first.2 = rest other.2
  part_eq : part first.2 = part memo
  otherPart_eq : part other.2 = part otherMemo

/-- The agreement of computations that cannot tell tables with the same rest apart. -/
def unseen : Agreement (StateM Memo) (StateM Memo) where
  Agree first other := ∀ memo otherMemo : Memo, rest memo = rest otherMemo →
    Unseen part rest memo otherMemo (first.run memo) (other.run otherMemo)
  agree_pure _ _ _ same := ⟨rfl, same, rfl, rfl⟩
  agree_bind {_ _ first other later otherLater} agree laterAgree memo otherMemo same := by
    have begun := agree memo otherMemo same
    have ended := laterAgree (first.run memo).1 _ _ begun.rest_eq
    have continued : (other >>= otherLater).run otherMemo =
        (otherLater (first.run memo).1).run (other.run otherMemo).2 := by
      rw [begun.value_eq]
      rfl
    rw [continued]
    exact ⟨ended.value_eq, ended.rest_eq, ended.part_eq.trans begun.part_eq,
      ended.otherPart_eq.trans begun.otherPart_eq⟩

end Parts

/-- Questions about heads do not see the yields of a table. -/
theorem unseen_yields_sameHeads (graph : Graph) : (unseen yields heads).SameHeads graph := by
  intro id memo otherMemo same
  change Unseen yields heads memo otherMemo ((head graph id).run.run memo)
    ((head graph id).run.run otherMemo)
  rw [run_head, run_head, ← same]
  cases memo.heads[id]? with
  | some known => exact ⟨rfl, same, rfl, rfl⟩
  | none =>
    cases graph.head id with
    | error cause => exact ⟨rfl, same, rfl, rfl⟩
    | ok found => exact ⟨rfl, congrArg (·.insert id found) same, rfl, rfl⟩

/-- What a question about a yield comes down to if the table has no answer. -/
def findYield (graph : Graph) (depth : Nat) (id : NodeId) :
    ExceptT Fault (StateM Memo) (List Nat) := do
  let found ← match (← graph.node id).position? with
    | some position => pure [position]
    | none => do
      let below ← (← graph.primaryEdges id).mapM fun edge =>
        yieldWithin graph depth edge.child
      pure (Positions.ofList below.flatten)
  modify fun memo => memo.enterYield id found
  return found

theorem run_yieldWithin_of_unknown {graph : Graph} {id : NodeId} {memo : Memo}
    (entry : memo.yields[id]? = none) (depth : Nat) :
    (yieldWithin graph (depth + 1) id).run.run memo =
      (findYield graph depth id).run.run memo := by
  rw [yieldWithin, run_bind, run_get]
  simp only [entry]
  rfl

theorem unseen_heads_findYield {graph : Graph} {depth : Nat}
    (below : ∀ id, (unseen heads yields).AgreeOrFail (yieldWithin graph depth id)
      (yieldWithin graph depth id)) (id : NodeId) :
    (unseen heads yields).AgreeOrFail (findYield graph depth id) (findYield graph depth id) := by
  have entered : ∀ found : List Nat, (unseen heads yields).AgreeOrFail
      (do modify fun memo => memo.enterYield id found; return found :
        ExceptT Fault (StateM Memo) (List Nat))
      (do modify fun memo => memo.enterYield id found; return found) :=
    fun found _ _ same => ⟨rfl, congrArg (·.insert id found) same, rfl, rfl⟩
  apply Agreement.bind_orFail (Agreement.liftM_orFail _ _)
  intro node
  cases node.position? with
  | some position => exact Agreement.bind_orFail (Agreement.pure_orFail _ _) entered
  | none =>
    apply Agreement.bind_orFail (Agreement.liftM_orFail _ _)
    intro edges
    have answered : (unseen heads yields).AgreeOrFail
        (edges.mapM fun edge => yieldWithin graph depth edge.child)
        (edges.mapM fun edge => yieldWithin graph depth edge.child) :=
      Agreement.mapM_orFail fun edge _ => below edge.child
    exact Agreement.bind_orFail answered fun yields =>
      Agreement.bind_orFail (Agreement.pure_orFail _ _) entered

/-- Questions about yields do not see the heads of a table. -/
theorem unseen_heads_yieldWithin (graph : Graph) (depth : Nat) (id : NodeId) :
    (unseen heads yields).AgreeOrFail (yieldWithin graph depth id)
      (yieldWithin graph depth id) := by
  induction depth generalizing id with
  | zero => exact (unseen heads yields).throw_orFail Fault.endless
  | succ depth inductionHypothesis =>
    intro memo otherMemo same
    -- The first look is at the yields, which are the same, so both questions go on alike.
    cases entry : memo.yields[id]? with
    | some known =>
      rw [run_yieldWithin_of_known entry, run_yieldWithin_of_known (same ▸ entry)]
      exact ⟨rfl, same, rfl, rfl⟩
    | none =>
      rw [run_yieldWithin_of_unknown entry, run_yieldWithin_of_unknown (same ▸ entry)]
      exact unseen_heads_findYield inductionHypothesis id memo otherMemo same

theorem unseen_heads_sameYields (graph : Graph) : (unseen heads yields).SameYields graph :=
  unseen_heads_yieldWithin graph _

end Memo

end TransitionFeatures
