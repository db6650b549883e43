import TransitionFeatures.Proofs.Graph.Yield

/-!
# Questions in a row

One memo table serves questions about heads and yields in any order, some of them repeated.  Each
is answered as by a walk made anew, and the table grows by the answers that were missing: the head
of the node that is asked about, or its yield and those of the nodes below, each entered once and
after those right below it.  A table that began empty therefore holds, with a yield, all those below
it, and a question about a node adds exactly what was missing there:
`Memo.questions_answered_as_anew`.
-/

namespace TransitionFeatures

/-- What is made of a value leaves the table as it is. -/
theorem Memo.run_bind_pure {ε α β : Type} (first : ExceptT ε (StateM Memo) α) (change : α → β)
    (memo : Memo) :
    (first >>= fun value => pure (change value)).run.run memo =
      (first.run.run memo).map (Except.map change) id := by
  rw [run_bind]
  rcases first.run.run memo with ⟨_ | _, left⟩ <;> rfl

/-- A question about a node. -/
inductive Question
  | head (id : NodeId)
  | yield (id : NodeId)
  deriving DecidableEq

/-- The answer to a question. -/
inductive Answer
  | head (head? : Option NodeId)
  | yield (positions : List Nat)
  deriving DecidableEq

namespace Question

/-- The node that is asked about. -/
def node : Question → NodeId
  | head id | yield id => id

/-- Whether a question asks for the head of a node. -/
def AsksHead : Question → NodeId → Prop
  | head asked, id => id = asked
  | yield _, _ => False

/-- Whether the yield of a node is needed for the answer to a question. -/
def NeedsYield (graph : Graph) : Question → NodeId → Prop
  | head _, _ => False
  | yield asked, id => Relation.ReflTransGen graph.Descends asked id

/-- Whether a table holds the answer to a question. -/
def IsEntered (memo : Memo) : Question → Prop
  | head id => id ∈ memo.heads
  | yield id => id ∈ memo.yields

/-- Put a question where heads and yields can be asked for. -/
def ask {m : Type → Type} [Monad m] [DerivedData m] (graph : Graph) :
    Question → ExceptT Fault m Answer
  | head id => do return .head (← DerivedData.head graph id)
  | yield id => do return .yield (← DerivedData.yield graph id)

/-- The answer of a walk made anew. -/
def anew (graph : Graph) (question : Question) : Except Fault Answer :=
  Id.run (question.ask graph : ExceptT Fault Id Answer).run

theorem anew_head (graph : Graph) (id : NodeId) :
    (head id).anew graph = (graph.head id).map .head :=
  DerivedData.run_bind _ _

theorem anew_yield (graph : Graph) (id : NodeId) :
    (yield id).anew graph = (graph.yield id).map .yield :=
  DerivedData.run_bind _ _

theorem exists_anew_eq_ok {graph : Graph} (wellFormed : graph.WellFormed)
    (acyclic : graph.Acyclic) {question : Question} (known : question.node < graph.nodes.size) :
    ∃ answer, question.anew graph = .ok answer := by
  cases question with
  | head id =>
    obtain ⟨head?, found, _⟩ := wellFormed.exists_head_eq_ok acyclic known
    rw [anew_head]
    exact ⟨.head head?, map_eq_ok_iff.mpr ⟨head?, found, rfl⟩⟩
  | yield id =>
    obtain ⟨positions, found, _⟩ := wellFormed.exists_yield_eq_ok acyclic known
    rw [anew_yield]
    exact ⟨.yield positions, map_eq_ok_iff.mpr ⟨positions, found, rfl⟩⟩

/-- The answer to a question that is put to a memo table, and the table that is left. -/
def put (graph : Graph) (question : Question) (memo : Memo) : Except Fault Answer × Memo :=
  (question.ask graph : ExceptT Fault (StateM Memo) Answer).run.run memo

theorem put_head (graph : Graph) (asked : NodeId) (memo : Memo) :
    (head asked).put graph memo =
      ((Memo.head graph asked).run.run memo).map (Except.map .head) id :=
  Memo.run_bind_pure _ _ _

theorem put_yield (graph : Graph) (asked : NodeId) (memo : Memo) :
    (yield asked).put graph memo =
      ((Memo.yield graph asked).run.run memo).map (Except.map .yield) id :=
  Memo.run_bind_pure _ _ _

/-- Put questions to a memo table, one after another.  The failure of one does not keep the next
from being put. -/
def putAll (graph : Graph) (questions : List Question) :
    StateM Memo (List (Except Fault Answer)) :=
  questions.mapM (put graph)

theorem run_putAll_cons (graph : Graph) (first : Question) (rest : List Question) (memo : Memo) :
    (putAll graph (first :: rest)).run memo =
      ((putAll graph rest).run (first.put graph memo).2).map (fun later =>
        (first.put graph memo).1 :: later) id := by
  rw [putAll, List.mapM_cons]
  rfl

/-- What a question does to a table: nothing that is held changes, and what is added was needed for
the answer and missing. -/
structure Extends (question : Question) (graph : Graph) (memo left : Memo) : Prop where
  kept : memo.KeptIn left
  stepwise : Memo.Grows graph question.AsksHead (question.NeedsYield graph) memo left
  mem_heads_iff : ∀ id, id ∈ left.heads ↔ id ∈ memo.heads ∨ question.AsksHead id
  mem_yields_iff : ∀ id, id ∈ left.yields ↔ id ∈ memo.yields ∨ question.NeedsYield graph id

end Question

namespace Memo

variable {graph : Graph}

/-! ## Tables that are closed under descents -/

/-- With the yield of a node a table holds those of all nodes right below. -/
def Closed (graph : Graph) (memo : Memo) : Prop :=
  ∀ id lower, id ∈ memo.yields → graph.Descends id lower → lower ∈ memo.yields

theorem closed_empty (graph : Graph) : empty.Closed graph := by
  intro id lower member
  rw [Std.HashMap.mem_iff_isSome_getElem?, getElem?_yields_empty] at member
  cases member

theorem Closed.mem_of_path {memo : Memo} (closed : memo.Closed graph) {id lower : NodeId}
    (member : id ∈ memo.yields) (path : Relation.ReflTransGen graph.Descends id lower) :
    lower ∈ memo.yields := by
  induction path with
  | refl => exact member
  | tail _ step inductionHypothesis => exact closed _ _ inductionHypothesis step

section Entries

variable {heads yields : NodeId → Prop} {memo left : Memo}

theorem Enters.closed (enters : Enters graph heads yields memo left)
    (closed : memo.Closed graph) : left.Closed graph := by
  cases enters with
  | head _ _ _ => exact closed
  | yield _ _ _ ready =>
    intro id lower member step
    apply mem_yields_enterYield.mpr
    apply Or.inr
    rcases mem_yields_enterYield.mp member with rfl | earlier
    · exact ready lower step
    · exact closed id lower earlier step

theorem Grows.closed (grown : Grows graph heads yields memo left)
    (closed : memo.Closed graph) : left.Closed graph := by
  induction grown with
  | refl => exact closed
  | tail _ enters inductionHypothesis => exact enters.closed inductionHypothesis

/-- If a table that grew for a question holds its answer, it holds all that the answer needs. -/
theorem Grows.extends {question : Question}
    (grown : Grows graph question.AsksHead (question.NeedsYield graph) memo left)
    (closed : memo.Closed graph) (entered : question.IsEntered left) :
    question.Extends graph memo left where
  kept := grown.keptIn
  stepwise := grown
  mem_heads_iff id := by
    constructor
    · exact grown.mem_heads_or
    · rintro (earlier | asked)
      · exact grown.keptIn.mem_heads earlier
      · cases question with
        | head _ =>
          cases asked
          exact entered
        | yield _ => exact asked.elim
  mem_yields_iff id := by
    constructor
    · exact grown.mem_yields_or
    · rintro (earlier | needed)
      · exact grown.keptIn.mem_yields earlier
      · cases question with
        | head _ => exact needed.elim
        | yield _ => exact (grown.closed closed).mem_of_path entered needed

end Entries

/-! ## Runs of questions -/

/-- The answers to questions that are put one after another to a table without entries. -/
def answers (graph : Graph) (questions : List Question) : List (Except Fault Answer) :=
  ((Question.putAll graph questions).run empty).1

/-- The table that is left by such questions. -/
def leftBy (graph : Graph) (questions : List Question) : Memo :=
  ((Question.putAll graph questions).run empty).2

theorem leftBy_append (graph : Graph) (before after : List Question) :
    leftBy graph (before ++ after) =
      ((Question.putAll graph after).run (leftBy graph before)).2 := by
  rw [leftBy, Question.putAll, List.mapM_append]
  rfl

theorem leftBy_concat (graph : Graph) (before : List Question) (question : Question) :
    leftBy graph (before ++ [question]) = (question.put graph (leftBy graph before)).2 :=
  leftBy_append graph before [question]

section Runs

variable (wellFormed : graph.WellFormed) (acyclic : graph.Acyclic)

include wellFormed acyclic

/-- A question to a correct table is answered as by a walk made anew, also if its node is not in the
graph. -/
theorem put_eq_anew (question : Question) {memo : Memo} (correct : memo.Correct graph) :
    ∃ left, question.put graph memo = (question.anew graph, left) ∧
      Grows graph question.AsksHead (question.NeedsYield graph) memo left ∧
        (question.node < graph.nodes.size → question.IsEntered left) := by
  cases question with
  | head id =>
    rw [Question.put_head, Question.anew_head, run_head]
    cases entry : memo.heads[id]? with
    | some given =>
      rw [correct.head_eq entry]
      have there : id ∈ memo.heads := of_getElem?_eq_some entry
      exact ⟨memo, rfl, .refl, fun _ => there⟩
    | none =>
      cases found : graph.head id with
      | ok head? =>
        exact ⟨memo.enterHead id head?, rfl, .single (.head rfl entry found),
          fun _ => mem_heads_enterHead.mpr (Or.inl rfl)⟩
      | error cause =>
        refine ⟨memo, rfl, .refl, fun known => ?_⟩
        obtain ⟨head?, foundHead, _⟩ := wellFormed.exists_head_eq_ok acyclic known
        cases found.symm.trans foundHead
  | yield id =>
    rw [Question.put_yield, Question.anew_yield]
    cases looked : graph.node id with
    | error cause =>
      rw [run_yield_of_unknown looked correct, yield_of_unknown looked]
      refine ⟨memo, rfl, .refl, fun known => ?_⟩
      obtain ⟨node, there⟩ := Graph.exists_node_iff.mpr known
      cases looked.symm.trans there
    | ok node =>
      have known : id < graph.nodes.size := Graph.exists_node_iff.mp ⟨node, looked⟩
      obtain ⟨positions, found, _⟩ := wellFormed.exists_yield_eq_ok acyclic known
      obtain ⟨left, run, grown, there⟩ := run_yieldWithin wellFormed acyclic le_rfl found correct
      rw [found, yield, run]
      exact ⟨left, rfl, grown, fun _ => there⟩

/-- So are questions one after another, and the table only grows. -/
theorem run_putAll (questions : List Question) {memo : Memo} (correct : memo.Correct graph) :
    ∃ left, (Question.putAll graph questions).run memo =
        (questions.map (Question.anew graph), left) ∧
      Grows graph (fun _ => True) (fun _ => True) memo left := by
  induction questions generalizing memo with
  | nil => exact ⟨memo, rfl, .refl⟩
  | cons first rest inductionHypothesis =>
    obtain ⟨middle, firstPut, toMiddle, _⟩ := put_eq_anew wellFormed acyclic first correct
    obtain ⟨left, restRun, toLeft⟩ := inductionHypothesis (toMiddle.correct correct)
    have anyhow := toMiddle.mono (fun _ _ => trivial) (fun _ _ => trivial)
    refine ⟨left, ?_, anyhow.trans toLeft⟩
    rw [Question.run_putAll_cons, firstPut, restRun]
    rfl

end Runs

/-- In a graph without cycles one table serves questions about heads and yields in any order, with
repetitions: every answer is that of a walk made anew, and every node has one.  At each point of the
row the table holds only true answers, and what it holds stays there unchanged.  The next question
adds to it, one true entry after another, exactly what the answer needs and what was missing: the
head of the node, or its yield and the yields of all nodes that are reached from it along primary
edges that leave units. -/
theorem questions_answered_as_anew {steps : List BuildStep} (built : Graph.build steps = .ok graph)
    (acyclic : graph.Acyclic) (questions : List Question) :
    answers graph questions = questions.map (Question.anew graph) ∧
      (leftBy graph questions).Correct graph ∧
      (∀ after, (leftBy graph questions).KeptIn (leftBy graph (questions ++ after))) ∧
      ∀ question : Question, question.node < graph.nodes.size →
        (∃ answer, question.anew graph = .ok answer) ∧
          question.Extends graph (leftBy graph questions)
            (leftBy graph (questions ++ [question])) := by
  have wellFormed := Graph.wellFormed_of_build built
  obtain ⟨left, run, grown⟩ :=
    run_putAll wellFormed acyclic questions (correct_empty graph)
  have leftIs : leftBy graph questions = left := congrArg Prod.snd run
  have correct : left.Correct graph := grown.correct (correct_empty graph)
  have closed : left.Closed graph := grown.closed (closed_empty graph)
  rw [leftIs]
  refine ⟨congrArg Prod.fst run, correct, ?_, ?_⟩
  · intro after
    obtain ⟨last, afterRun, toLast⟩ := run_putAll wellFormed acyclic after correct
    rw [leftBy_append, leftIs, afterRun]
    exact toLast.keptIn
  · intro question known
    obtain ⟨next, put, toNext, entered⟩ := put_eq_anew wellFormed acyclic question correct
    rw [leftBy_concat, leftIs, put]
    exact ⟨Question.exists_anew_eq_ok wellFormed acyclic known,
      toNext.extends closed (entered known)⟩

/-- The yield of the unit finds that of the implicit unit in the table and adds those of the verb
and of the unit itself. -/
theorem questions_answered_as_anew_sharedParticle :
    ∃ graph, Graph.build Graph.sharedParticleSteps = .ok graph ∧ graph.Acyclic ∧
      4 < graph.nodes.size ∧
      answers graph [.yield 3, .head 4, .yield 4, .yield 4] =
        [.ok (.yield [2]), .ok (.head (some 0)), .ok (.yield [0, 2]), .ok (.yield [0, 2])] ∧
      (Question.yield 4).Extends graph (leftBy graph [.yield 3, .head 4])
        (leftBy graph [.yield 3, .head 4, .yield 4]) := by
  obtain ⟨graph, built, known, answered, down⟩ : ∃ graph,
      Graph.build Graph.sharedParticleSteps = .ok graph ∧ 4 < graph.nodes.size ∧
        [Question.yield 3, .head 4, .yield 4, .yield 4].map (Question.anew graph) =
          [.ok (.yield [2]), .ok (.head (some 0)), .ok (.yield [0, 2]), .ok (.yield [0, 2])] ∧
        ∀ edge ∈ graph.edges, edge.remote = false → edge.child < edge.parent :=
    ⟨_, rfl, by decide, rfl, by decide⟩
  have acyclic := Graph.acyclic_of_child_lt_parent down
  obtain ⟨asAnew, _⟩ :=
    questions_answered_as_anew built acyclic [.yield 3, .head 4, .yield 4, .yield 4]
  obtain ⟨_, _, _, next⟩ := questions_answered_as_anew built acyclic [.yield 3, .head 4]
  exact ⟨graph, built, acyclic, known, asAnew.trans answered, (next (.yield 4) known).2⟩

end Memo

end TransitionFeatures
