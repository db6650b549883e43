import Std.Data.HashMap
import TransitionFeatures.Graph.Derived

/-!
# Memo tables

A memo table holds the heads and yields found so far in one graph.  A question is
answered from the table if it has an entry; otherwise the walk is made and its
result entered.  The walk for a yield asks the table again at every node on its
way, so it also enters the yields of the nodes below.

A table belongs to one graph and to one run over it.
-/

namespace TransitionFeatures

/-- The heads and yields found so far. -/
structure Memo where
  heads : Std.HashMap NodeId (Option NodeId)
  yields : Std.HashMap NodeId (List Nat)

namespace Memo

/-- The table without entries. -/
def empty : Memo :=
  { heads := ∅, yields := ∅ }

@[simp]
theorem getElem?_heads_empty (id : NodeId) : empty.heads[id]? = none := by
  simp [empty]

@[simp]
theorem getElem?_yields_empty (id : NodeId) : empty.yields[id]? = none := by
  simp [empty]

/-- Enter the head of a node. -/
def enterHead (memo : Memo) (id : NodeId) (head : Option NodeId) : Memo :=
  { memo with heads := memo.heads.insert id head }

/-- Enter the yield of a node. -/
def enterYield (memo : Memo) (id : NodeId) (positions : List Nat) : Memo :=
  { memo with yields := memo.yields.insert id positions }

@[simp]
theorem yields_enterHead (memo : Memo) (id : NodeId) (head : Option NodeId) :
    (memo.enterHead id head).yields = memo.yields :=
  rfl

@[simp]
theorem heads_enterYield (memo : Memo) (id : NodeId) (positions : List Nat) :
    (memo.enterYield id positions).heads = memo.heads :=
  rfl

theorem getElem?_heads_enterHead (memo : Memo) (id other : NodeId)
    (head : Option NodeId) :
    (memo.enterHead id head).heads[other]? =
      if id = other then some head else memo.heads[other]? := by
  simp [enterHead, Std.HashMap.getElem?_insert]

theorem getElem?_yields_enterYield (memo : Memo) (id other : NodeId)
    (positions : List Nat) :
    (memo.enterYield id positions).yields[other]? =
      if id = other then some positions else memo.yields[other]? := by
  simp [enterYield, Std.HashMap.getElem?_insert]

/-! ## Running a computation from a table -/

section Run

variable {ε α β : Type}

@[simp]
theorem run_pure (value : α) (memo : Memo) :
    (pure value : ExceptT ε (StateM Memo) α).run.run memo = (.ok value, memo) :=
  rfl

@[simp]
theorem run_throw (error : ε) (memo : Memo) :
    (throw error : ExceptT ε (StateM Memo) α).run.run memo = (.error error, memo) :=
  rfl

@[simp]
theorem run_get (memo : Memo) :
    (get : ExceptT ε (StateM Memo) Memo).run.run memo = (.ok memo, memo) :=
  rfl

@[simp]
theorem run_modify (change : Memo → Memo) (memo : Memo) :
    (modify change : ExceptT ε (StateM Memo) PUnit).run.run memo =
      (.ok (), change memo) :=
  rfl

@[simp]
theorem run_liftM (result : Except ε α) (memo : Memo) :
    (liftM result : ExceptT ε (StateM Memo) α).run.run memo = (result, memo) :=
  rfl

/-- What comes later starts from the table that is left, also after an entry that
was made before a failure. -/
theorem run_bind (first : ExceptT ε (StateM Memo) α)
    (later : α → ExceptT ε (StateM Memo) β) (memo : Memo) :
    (first >>= later).run.run memo =
      match first.run.run memo with
      | (.ok value, left) => (later value).run.run left
      | (.error error, left) => (.error error, left) := by
  simp only [ExceptT.run_bind, StateT.run_bind]
  rcases first.run.run memo with ⟨_ | _, left⟩ <;> rfl

end Run

/-! ## Questions to a table -/

/-- The head of a node, from the table if it has it. -/
def head (graph : Graph) (id : NodeId) :
    ExceptT Fault (StateM Memo) (Option NodeId) := do
  match (← get).heads[id]? with
  | some known => return known
  | none =>
    let found ← graph.head id
    modify fun memo => memo.enterHead id found
    return found

/-- A known head is answered without a walk; a head that is found is entered. -/
theorem run_head (graph : Graph) (id : NodeId) (memo : Memo) :
    (head graph id).run.run memo =
      match memo.heads[id]?, graph.head id with
      | some known, _ => (.ok known, memo)
      | none, .ok found => (.ok found, memo.enterHead id found)
      | none, .error cause => (.error cause, memo) := by
  simp only [head, run_bind, run_get]
  cases memo.heads[id]? with
  | some known => rfl
  | none =>
    simp only [run_bind, run_liftM]
    cases graph.head id <;> rfl

/-- The yield of a node on paths of at most the given number of nodes, from the
table where it has one. -/
def yieldWithin (graph : Graph) :
    Nat → NodeId → ExceptT Fault (StateM Memo) (List Nat)
  | 0, _ => throw .endless
  | depth + 1, id => do
    match (← get).yields[id]? with
    | some known => return known
    | none =>
      let found ← match (← graph.node id).position? with
        | some position => pure [position]
        | none => do
          let below ← (← graph.primaryEdges id).mapM fun edge =>
            yieldWithin graph depth edge.child
          pure (Positions.ofList below.flatten)
      modify fun memo => memo.enterYield id found
      return found

/-- A known yield is answered from the table, which stays as it is. -/
theorem run_yieldWithin_of_known {graph : Graph} {id : NodeId} {memo : Memo}
    {known : List Nat} (entry : memo.yields[id]? = some known) (depth : Nat) :
    (yieldWithin graph (depth + 1) id).run.run memo = (.ok known, memo) := by
  simp only [yieldWithin, run_bind, run_get, entry, run_pure]

/-- The yield of a node, from the table if it has it. -/
def yield (graph : Graph) (id : NodeId) :
    ExceptT Fault (StateM Memo) (List Nat) :=
  yieldWithin graph (graph.nodes.size + 1) id

/-- With a table at hand, questions go to the table. -/
instance : DerivedData (StateM Memo) where
  head := head
  yield := yield

end Memo

end TransitionFeatures
