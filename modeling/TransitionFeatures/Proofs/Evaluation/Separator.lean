import TransitionFeatures.Proofs.Evaluation.Faults
import TransitionFeatures.Proofs.Graph.Memo

/-!
# What lies between two heads

The separators are looked for in the stretch of the sentence between the heads of the two stack
tops.  There is no such stretch only if the two heads are the same terminal, which is how the
scan comes to find nothing: `Graph.WellFormed.terminalsBetween?_eq_none_iff_eq`.  In
every other case the stretch holds the terminals between the two and no others.
-/

namespace TransitionFeatures

open DerivedData

namespace Graph

variable {graph : Graph}

/-- A stretch holds the terminals at the positions strictly between its ends. -/
theorem mem_iff_of_terminalsBetween?_eq_some {first second : Nat} {between : List NodeId}
    (stretch : graph.terminalsBetween? first second = some between) {token : NodeId} :
    token ∈ between ↔
      ∃ position, first < position ∧ position < second ∧
        graph.terminals[position]? = some token := by
  unfold terminalsBetween? at stretch
  split at stretch
  · cases stretch
    simp only [Array.mem_toList_iff, Array.mem_iff_getElem?, Array.getElem?_extract,
      Option.ite_none_right_eq_some]
    constructor
    · rintro ⟨place, inside, entry⟩
      exact ⟨first + 1 + place, by omega, by omega, entry⟩
    · rintro ⟨position, after, before, entry⟩
      refine ⟨position - (first + 1), by omega, ?_⟩
      rw [Nat.add_sub_cancel' after]
      exact entry
  · cases stretch

/-- Without a table the node of a head is looked up where the walk ends. -/
theorem run_headNode? (graph : Graph) (id : NodeId) :
    Id.run (graph.headNode? id).run =
      (graph.head id).bind fun
        | none => .ok none
        | some head => (graph.node head).map some := by
  rw [headNode?, run_bind]
  apply congrArg₂ Except.bind rfl
  funext head?
  cases head? with
  | none => rfl
  | some head =>
    dsimp only
    rw [run_bind, run_liftM]
    cases graph.node head <;> rfl

theorem run_headPosition? (graph : Graph) (id : NodeId) :
    Id.run (graph.headPosition? id).run =
      (Id.run (graph.headNode? id).run).map fun node? => node?.bind Node.position? := by
  rw [headPosition?, run_bind]
  cases Id.run (graph.headNode? id).run <;> rfl

namespace WellFormed

variable (wellFormed : graph.WellFormed)

include wellFormed

/-- A head that is found has a position. -/
theorem exists_headPosition?_eq_ok {id head : NodeId} (known : id < graph.nodes.size)
    (found : graph.head id = .ok (some head)) :
    ∃ position, graph.terminals[position]? = some head ∧
      Id.run (graph.headPosition? id).run = .ok (some position) := by
  have isHead := wellFormed.head_endsUnless known
  rw [found] at isHead
  obtain ⟨node, looked, terminal⟩ := isHead head rfl
  obtain ⟨position, place⟩ := Node.exists_position terminal
  refine ⟨position, wellFormed.terminals_iff.mpr ⟨node, node_eq_ok_iff.mp looked, place⟩, ?_⟩
  rw [run_headPosition?, run_headNode?, found]
  simp [Except.bind, Except.map, looked, place]

/-- There is no stretch between the positions of two terminals only if they are the same. -/
theorem terminalsBetween?_eq_none_iff_eq {first second : Nat} {head other : NodeId}
    (entry : graph.terminals[first]? = some head)
    (otherEntry : graph.terminals[second]? = some other) :
    graph.terminalsBetween? (min first second) (max first second) = none ↔ head = other := by
  have firstBound := (Array.getElem?_eq_some_iff.mp entry).1
  have secondBound := (Array.getElem?_eq_some_iff.mp otherEntry).1
  have samePlace : first = second ↔ head = other := by
    constructor
    · rintro rfl
      exact Option.some.inj (entry.symm.trans otherEntry)
    · rintro rfl
      exact wellFormed.position_unique entry otherEntry
  rw [terminalsBetween?_eq_none_iff, ← samePlace]
  omega

end WellFormed

end Graph

namespace State

/-- The heads of the two topmost stack entries, that of the top first. -/
def TopHeads (state : State) (head other : NodeId) : Prop :=
  ∃ top second deeper, state.stack.reverse = top :: second :: deeper ∧
    state.graph.head top = .ok (some head) ∧ state.graph.head second = .ok (some other)

/-- The separators are looked for between the positions of the two heads, whether or not the
heads come from a correct memo table. -/
theorem Admissible.exists_separators?_eq {state : State} (admissible : state.Admissible)
    {head other : NodeId} (heads : state.TopHeads head other) :
    ∃ first second, state.graph.terminals[first]? = some head ∧
      state.graph.terminals[second]? = some other ∧
      Id.run state.separators?.run =
        (state.graph.punctuationBetween first second).map some ∧
      ∀ memo : Memo, memo.Correct state.graph →
        ((state.separators? : ExceptT Fault (StateM Memo) _).run.run memo).1 =
          (state.graph.punctuationBetween first second).map some := by
  obtain ⟨top, second, deeper, entries, headFound, otherFound⟩ := heads
  obtain ⟨topKnown, secondKnown⟩ := admissible.tops_lt entries
  obtain ⟨place, entry, atPlace⟩ :=
    admissible.wellFormed.exists_headPosition?_eq_ok topKnown headFound
  obtain ⟨otherPlace, otherEntry, atOtherPlace⟩ :=
    admissible.wellFormed.exists_headPosition?_eq_ok secondKnown otherFound
  have anew : Id.run state.separators?.run =
      (state.graph.punctuationBetween place otherPlace).map some := by
    simp only [separators?, entries, run_bind, atPlace, atOtherPlace, run_liftM, Except.bind]
    cases state.graph.punctuationBetween place otherPlace <;> rfl
  refine ⟨place, otherPlace, entry, otherEntry, anew, fun memo correct => ?_⟩
  have sameHeads := Memo.agreement_sameHeads state.graph
  exact (separators?_agree sameHeads memo correct).1.trans anew

end State

end TransitionFeatures
