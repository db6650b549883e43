import TransitionFeatures.Graph.Gap
import TransitionFeatures.Proofs.Graph.Yield

/-!
# How long gaps are

Ascending positions and the gaps between them fill the stretch from the first to the last
position: `Positions.exists_gapLengthSum_eq_ok`.  The positions of a yield are positions of the
sentence, so the gaps of a node take up less than the whole of it, and every difference that
is taken to measure them is one of ascending neighbours: `Graph.WellFormed.exists_gaps`.
-/

namespace TransitionFeatures

namespace Positions

theorem gapLengthSum_eq_map (positions : List Nat) :
    gapLengthSum positions =
      (gapLengths positions).map fun lengths => lengths.foldr (· + ·) 0 := by
  rw [gapLengthSum]
  cases gapLengths positions <;> rfl

/-- The first gap counts with those that follow. -/
theorem gapLengthSum_cons_cons {first second : Nat} (ascending : first < second)
    (rest : List Nat) :
    gapLengthSum (first :: second :: rest) =
      (gapLengthSum (second :: rest)).map ((second - first - 1) + ·) := by
  rw [gapLengthSum_eq_map, gapLengthSum_eq_map, gapLengths_cons_cons ascending]
  cases gapLengths (second :: rest) <;> rfl

/-- What ascending positions hold and what they skip leads from the first to the last. -/
theorem exists_gapLengthSum_eq_ok {first : Nat} {rest : List Nat}
    (ascending : Ascending (first :: rest)) :
    ∃ sum, gapLengthSum (first :: rest) = .ok sum ∧
      (first :: rest).getLast (List.cons_ne_nil first rest) = first + rest.length + sum := by
  induction rest generalizing first with
  | nil => exact ⟨0, rfl, rfl⟩
  | cons second rest inductionHypothesis =>
    obtain ⟨least, later⟩ := List.pairwise_cons.mp ascending
    obtain ⟨sum, measured, last⟩ := inductionHypothesis later
    have before : first < second := least second List.mem_cons_self
    refine ⟨(second - first - 1) + sum, ?_, ?_⟩
    · rw [gapLengthSum_cons_cons before, measured]
      rfl
    · rw [List.getLast_cons (List.cons_ne_nil second rest), last, List.length_cons]
      omega

/-- Ascending positions of a sentence skip fewer positions than it has. -/
theorem exists_gapLengthSum_lt {positions : List Nat} {size : Nat}
    (ascending : Ascending positions) (bound : ∀ position ∈ positions, position < size) :
    ∃ sum, gapLengthSum positions = .ok sum ∧ (sum = 0 ∨ sum < size) := by
  cases positions with
  | nil => exact ⟨0, rfl, Or.inl rfl⟩
  | cons first rest =>
    obtain ⟨sum, measured, last⟩ := exists_gapLengthSum_eq_ok ascending
    have lastBound := bound _ (List.getLast_mem (List.cons_ne_nil first rest))
    exact ⟨sum, measured, Or.inr (by omega)⟩

end Positions

namespace Graph

/-- Without a table the gaps are measured on the yield that the walk finds. -/
theorem run_gapLengthSum (graph : Graph) (id : NodeId) :
    Id.run (graph.gapLengthSum id).run = (graph.yield id).bind Positions.gapLengthSum := by
  rw [gapLengthSum, DerivedData.run_bind]
  rfl

/-- In a graph without cycles the yield of every node ascends, so that its gaps are true
differences, and together they are shorter than the sentence.  With a correct memo table they
are measured on the same positions. -/
theorem WellFormed.exists_gaps {graph : Graph} (wellFormed : graph.WellFormed)
    (acyclic : graph.Acyclic) {id : NodeId} (known : id < graph.nodes.size) :
    ∃ positions lengths sum, graph.yield id = .ok positions ∧ positions.Pairwise (· < ·) ∧
      Positions.gapLengths positions = .ok lengths ∧
      Id.run (graph.gapLengthSum id).run = .ok sum ∧
      (sum = 0 ∨ sum < graph.terminals.size) ∧
      ∀ memo : Memo, memo.Correct graph →
        ((Memo.yield graph id).run.run memo).1 = .ok positions ∧
        ((graph.gapLengthSum id : ExceptT Fault (StateM Memo) Nat).run.run memo).1 =
          .ok sum := by
  obtain ⟨positions, found, ascending⟩ := wellFormed.exists_yield_eq_ok acyclic known
  have bound : ∀ position ∈ positions, position < graph.terminals.size := fun _ member =>
    ((wellFormed.mem_yieldWithin_iff found).mp member).lt_size
  obtain ⟨lengths, measured⟩ := Positions.exists_gapLengths_of_ascending ascending
  obtain ⟨sum, summed, small⟩ := Positions.exists_gapLengthSum_lt ascending bound
  have anew : Id.run (graph.gapLengthSum id).run = .ok sum := by
    rw [run_gapLengthSum, found]
    exact summed
  have sameYields := Memo.agreement_sameYields wellFormed acyclic
  refine ⟨positions, lengths, sum, found, ascending, measured, anew, small, ?_⟩
  intro memo correct
  exact ⟨(sameYields id memo correct).1.trans found,
    (gapLengthSum_agree sameYields id memo correct).1.trans anew⟩

end Graph

end TransitionFeatures
