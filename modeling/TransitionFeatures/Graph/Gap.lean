import TransitionFeatures.Graph.Derived

/-!
# Gaps

A yield that is no interval of the sentence has gaps.  The length of a gap is the
number of positions between two neighbours in the yield; `Positions.gapLengths`
refuses neighbours that do not ascend, so every difference it takes is a true one.

A unit with gaps of its own passes them on to what stands above it; a unit
without them whose child has some is their source.
-/

namespace TransitionFeatures

namespace Positions

/-- The number of positions skipped at each step of an ascending list. -/
def gapLengths : List Nat → Except Fault (List Nat)
  | first :: second :: rest =>
    if first < second then do
      return (second - first - 1) :: (← gapLengths (second :: rest))
    else throw (.unordered first second)
  | _ => return []

@[simp]
theorem gapLengths_nil : gapLengths [] = .ok [] :=
  rfl

@[simp]
theorem gapLengths_singleton (position : Nat) : gapLengths [position] = .ok [] :=
  rfl

theorem gapLengths_cons_cons {first second : Nat} (ascending : first < second)
    (rest : List Nat) :
    gapLengths (first :: second :: rest) =
      (gapLengths (second :: rest)).bind fun lengths =>
        .ok ((second - first - 1) :: lengths) := by
  simp only [gapLengths, ascending, if_true, bind, pure, Except.pure]

/-- Differences are refused only where positions do not ascend. -/
theorem exists_gapLengths_of_ascending {positions : List Nat}
    (ascending : Ascending positions) :
    ∃ lengths, gapLengths positions = .ok lengths := by
  induction positions with
  | nil => exact ⟨[], rfl⟩
  | cons first rest inductionHypothesis =>
    obtain ⟨least, later⟩ := List.pairwise_cons.mp ascending
    obtain ⟨lengths, found⟩ := inductionHypothesis later
    cases rest with
    | nil => exact ⟨[], rfl⟩
    | cons second rest =>
      rw [gapLengths_cons_cons (least second List.mem_cons_self), found]
      exact ⟨_, rfl⟩

/-- Whether any position is skipped. -/
def hasGaps (positions : List Nat) : Except Fault Bool := do
  return (← gapLengths positions).any fun length => decide (0 < length)

/-- The number of positions skipped in all. -/
def gapLengthSum (positions : List Nat) : Except Fault Nat := do
  return (← gapLengths positions).foldr (· + ·) 0

end Positions

/-- How a node stands to gaps. -/
inductive GapType
  /-- A terminal, or no gap at the node or right below it. -/
  | none
  /-- The yield of the node has gaps. -/
  | pass
  /-- The yield of the node has none, that of a child has. -/
  | source
  deriving DecidableEq

/-- The value read for a gap type. -/
def GapType.code : GapType → String
  | none => "n"
  | pass => "p"
  | source => "s"

namespace Graph

variable {m : Type → Type} [Monad m] [DerivedData m]

/-- Whether a node is a unit whose yield has gaps. -/
def isGappedUnit (graph : Graph) (id : NodeId) : ExceptT Fault m Bool := do
  if (← graph.node id).isTerminal then return false
  Positions.hasGaps (← DerivedData.yield graph id)

/-- The gap type of a node.  Children are looked at in edge order along edges of
both kinds, up to the first with gaps. -/
def gapType (graph : Graph) (id : NodeId) : ExceptT Fault m GapType := do
  if (← graph.node id).isTerminal then return .none
  if ← Positions.hasGaps (← DerivedData.yield graph id) then return .pass
  if ← (← graph.children id).anyM graph.isGappedUnit then return .source
  return .none

/-- The number of positions that the yield of a node skips. -/
def gapLengthSum (graph : Graph) (id : NodeId) : ExceptT Fault m Nat := do
  Positions.gapLengthSum (← DerivedData.yield graph id)

end Graph

end TransitionFeatures
