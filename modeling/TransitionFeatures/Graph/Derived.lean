import TransitionFeatures.Graph.Head
import TransitionFeatures.Graph.Yield

/-!
# Access to derived data

Heads and yields are derived from a graph by walks that many readers of one state
would repeat.  Readers are therefore written against `DerivedData`: they ask for
the head or yield of a node and leave open whether the walk is made anew or its
result kept.  The instance for `Id` makes every walk anew.
-/

namespace TransitionFeatures

/-- A context in which the heads and yields of a graph can be asked for. -/
class DerivedData (m : Type → Type) where
  head : Graph → NodeId → ExceptT Fault m (Option NodeId)
  yield : Graph → NodeId → ExceptT Fault m (List Nat)

namespace DerivedData

/-- Without a table every question is answered by its walk. -/
instance : DerivedData Id where
  head graph id := ExceptT.mk (pure (graph.head id))
  yield graph id := ExceptT.mk (pure (graph.yield id))

section Run

variable {ε α β : Type}

@[simp]
theorem run_pure (value : α) :
    Id.run (pure value : ExceptT ε Id α).run = .ok value :=
  rfl

@[simp]
theorem run_throw (error : ε) :
    Id.run (throw error : ExceptT ε Id α).run = .error error :=
  rfl

@[simp]
theorem run_liftM (result : Except ε α) :
    Id.run (liftM result : ExceptT ε Id α).run = result :=
  rfl

/-- Without a table there is nothing to hand on but the value. -/
theorem run_bind (first : ExceptT ε Id α) (later : α → ExceptT ε Id β) :
    Id.run (first >>= later).run =
      (Id.run first.run).bind fun value => Id.run (later value).run := by
  rw [ExceptT.run_bind]
  generalize first.run = result
  cases result <;> rfl

end Run

@[simp]
theorem head_id (graph : Graph) (id : NodeId) :
    (head graph id : ExceptT Fault Id (Option NodeId)).run = pure (graph.head id) :=
  rfl

@[simp]
theorem yield_id (graph : Graph) (id : NodeId) :
    (yield graph id : ExceptT Fault Id (List Nat)).run = pure (graph.yield id) :=
  rfl

end DerivedData

end TransitionFeatures
