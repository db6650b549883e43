import TransitionFeatures.Proofs.Evaluation.Separator
import TransitionFeatures.Proofs.Extraction.Report
import TransitionFeatures.Proofs.Graph.Gap

/-!
# Extraction stays in range

Every look-up and every subtraction in a run is in range for a reason that lies elsewhere: the
numbers at the nodes are those of nodes and edges, yields ascend, positions and terminals belong
together, and an index is compared with the length of its source before anything is selected.
`Extractor.extraction_stays_in_range` puts them together for every extractor and every state
that can be made over a graph without cycles.
-/

namespace TransitionFeatures

/-! ## Look-ups in a run -/

theorem Template.error?_eq_some_iff {state : State} {template : Template} {error : EvalError} :
    template.error? state = some error ↔ template.evaluate state = .error (.error error) := by
  unfold error?
  split <;> simp_all

theorem Template.name_of_feature?_eq_some {state : State} {template : Template}
    {feature : Feature} (own : template.feature? state = some feature) :
    feature.name = template.name := by
  unfold feature? at own
  split at own
  · cases own
    rfl
  · cases own

/-- In an acyclic graph no extractor runs into a fault, in its run or in what it makes of it. -/
theorem Extractor.result_extractAnew_ne_fault {state : State} (admissible : state.Admissible)
    (acyclic : state.graph.Acyclic) (extractor : Extractor) (cause : Fault) :
    (extractor.extractAnew state).result ≠ .error (.fault cause) := by
  rw [result_extractAnew]
  cases first : extractor.set.templates.findSome? (Template.error? state) with
  | none => exact nofun
  | some error =>
    rintro ⟨⟩
    obtain ⟨template, _, faulty⟩ := List.exists_of_findSome?_eq_some first
    exact (admissible.evaluate_faultsOnlyIf template).ne_fault (not_not_intro acyclic) cause
      (Template.error?_eq_some_iff.mp faulty)

/-- Features have the names of the templates that have values. -/
theorem map_name_filterMap_feature? (state : State) (templates : List Template) :
    (templates.filterMap (Template.feature? state)).map Feature.name =
      (templates.filter fun template => (template.feature? state).isSome).map Template.name := by
  induction templates with
  | nil => rfl
  | cons template rest inductionHypothesis =>
    cases own : template.feature? state with
    | none => simpa [own] using inductionHypothesis
    | some feature =>
      simpa [own, Template.name_of_feature?_eq_some own] using inductionHypothesis

namespace Extractor

variable {state : State}

/-- The templates that the features of a run belong to are found in places that ascend. -/
theorem exists_places {extractor : Extractor} (wellFormed : state.graph.WellFormed)
    (acyclic : state.graph.Acyclic) {features : List Feature}
    (extracted : (extractor.extract state).result = .ok features) :
    ∃ places : List (Fin extractor.set.templates.length), places.Pairwise (· < ·) ∧
      features.map Feature.name =
        places.map fun place => extractor.set.templates[place].name := by
  have kept : (extractor.set.templates.filter fun template =>
      (template.feature? state).isSome).Sublist extractor.set.templates := List.filter_sublist
  obtain ⟨places, taken, ascending⟩ := List.sublist_eq_map_getElem kept
  refine ⟨places, ascending, ?_⟩
  rw [extractor.features_eq_of_extract wellFormed acyclic extracted, map_name_filterMap_feature?,
    taken, List.map_map]
  rfl

/-- A report fails where the plain run does. -/
theorem result_report_ne_error {extractor : Extractor} {error : EvalError}
    (sound : (extractor.extract state).result ≠ .error error) :
    (extractor.report state).result ≠ .error error := by
  intro failed
  rw [← (extractor.plain_report state).1, failed] at sound
  exact sound rfl

/-- Runs ask for known nodes, edges and templates only, and features are named after the latter.
The positions of every yield ascend, so every gap is a true difference, and the gaps of a node
are shorter together than the sentence.  Between the heads of the two stack tops there is no
stretch only if they are one terminal; otherwise it holds the terminals between them.  An index
selects something if and only if it is below the length of its source.  Answers from a correct
memo table make no difference. -/
structure InRange (extractor : Extractor) (state : State) : Prop where
  faultless : ∀ cause, (extractor.extract state).result ≠ .error (.fault cause) ∧
    (extractor.report state).result ≠ .error (.fault cause)
  names : ∀ features, (extractor.extract state).result = .ok features →
    ∃ places : List (Fin extractor.set.templates.length), places.Pairwise (· < ·) ∧
      features.map Feature.name =
        places.map fun place => extractor.set.templates[place].name
  gaps : ∀ id < state.graph.nodes.size, ∃ positions lengths sum,
    state.graph.yield id = .ok positions ∧ positions.Pairwise (· < ·) ∧
    Positions.gapLengths positions = .ok lengths ∧
    Id.run (state.graph.gapLengthSum id).run = .ok sum ∧
    (sum = 0 ∨ sum < state.graph.terminals.size) ∧
    ∀ memo : Memo, memo.Correct state.graph →
      ((Memo.yield state.graph id).run.run memo).1 = .ok positions ∧
      ((state.graph.gapLengthSum id : ExceptT Fault (StateM Memo) Nat).run.run memo).1 =
        .ok sum
  stretch : ∀ head other, state.TopHeads head other → ∃ first second,
    state.graph.terminals[first]? = some head ∧
    state.graph.terminals[second]? = some other ∧
    Id.run state.separators?.run =
      (state.graph.punctuationBetween first second).map some ∧
    (∀ memo : Memo, memo.Correct state.graph →
      ((state.separators? : ExceptT Fault (StateM Memo) _).run.run memo).1 =
        (state.graph.punctuationBetween first second).map some) ∧
    (state.graph.terminalsBetween? (min first second) (max first second) = none ↔
      head = other) ∧
    ∀ between,
      state.graph.terminalsBetween? (min first second) (max first second) = some between →
        ∀ token, token ∈ between ↔ ∃ position, min first second < position ∧
          position < max first second ∧ state.graph.terminals[position]? = some token
  index : ∀ element : Element,
    (element.select? state = none ↔ state.sourceLength element.source ≤ element.index) ∧
    (state.sourceLength element.source ≤ element.index →
      element.focus state = .error (.skip (.outOfRange element.source element.index)))

/-- On every state that can be made over a graph without cycles every extractor stays in
range. -/
theorem extraction_stays_in_range (extractor : Extractor) (admissible : state.Admissible)
    (acyclic : state.graph.Acyclic) : extractor.InRange state := by
  have wellFormed := admissible.wellFormed
  constructor
  case faultless =>
    intro cause
    have sound : (extractor.extract state).result ≠ .error (.fault cause) := by
      rw [extractor.extract_eq_anew wellFormed acyclic]
      exact extractor.result_extractAnew_ne_fault admissible acyclic cause
    exact ⟨sound, result_report_ne_error sound⟩
  case names => exact fun _ => exists_places wellFormed acyclic
  case gaps => exact fun _ known => wellFormed.exists_gaps acyclic known
  case stretch =>
    intro head other heads
    obtain ⟨first, second, entry, otherEntry, separated, separatedFrom⟩ :=
      admissible.exists_separators?_eq heads
    exact ⟨first, second, entry, otherEntry, separated, separatedFrom,
      wellFormed.terminalsBetween?_eq_none_iff_eq entry otherEntry,
      fun _ between _ => Graph.mem_iff_of_terminalsBetween?_eq_some between⟩
  case index =>
    exact fun _ => ⟨Element.select?_eq_none_iff, Element.focus_of_sourceLength_le⟩

/-- How a sentence is annotated in which a comma stands between two words of one unit. -/
def parenthesisSteps : List BuildStep :=
  [.terminal "well" "UH", .punctuation "," ",", .terminal "yes" "UH", .unit,
    .edge EdgeTag.center 3 0, .edge EdgeTag.elaborator 3 2]

/-- The second word and, on top of it, the unit that it belongs to. -/
def parenthesis : State where
  graph :=
    { nodes := #[
        { content := .token ⟨"well", "UH", false, 0⟩, outgoing := [], incoming := [0] },
        { content := .token ⟨",", ",", true, 1⟩, outgoing := [], incoming := [] },
        { content := .token ⟨"yes", "UH", false, 2⟩, outgoing := [], incoming := [1] },
        { content := .unit false, outgoing := [0, 1], incoming := [] }]
      edges := #[⟨"C", 3, 0, false⟩, ⟨"E", 3, 2, false⟩]
      terminals := #[0, 1, 2] }
  stack := [2, 3]
  buffer := []
  actions := []

/-- The largest index is beyond the stack, the gap of the unit is one of three positions, and
the stretch between the heads holds the comma. -/
theorem extraction_stays_in_range_parenthesis :
    let farthest : Element := ⟨.stack, 18446744073709551615, [], [.text]⟩
    let extractor : Extractor :=
      { set := .ofTemplates [
          { name := "s18446744073709551615w", elements := [farthest] },
          { name := "s0yq", elements := [⟨.stack, 0, [], [.gapLengthSum, .separatorCount]⟩] }]
        memoize := true }
    parenthesis.Admissible ∧ parenthesis.graph.Acyclic ∧ parenthesis.TopHeads 0 2 ∧
      (extractor.extract parenthesis).result = .ok [⟨"s0yq", ["1", "1"]⟩] ∧
      (∀ cause, (extractor.report parenthesis).result ≠ .error (.fault cause)) ∧
      Id.run (parenthesis.graph.gapLengthSum 3).run = .ok 1 ∧
      1 < parenthesis.graph.terminals.size ∧
      (∃ first second, parenthesis.graph.terminals[first]? = some 0 ∧
        parenthesis.graph.terminals[second]? = some 2 ∧
        parenthesis.graph.terminalsBetween? (min first second) (max first second) ≠ none) ∧
      farthest.focus parenthesis = .error (.skip (.outOfRange .stack 18446744073709551615)) := by
  intro farthest extractor
  have admissible : parenthesis.Admissible :=
    { built := ⟨parenthesisSteps, rfl⟩
      stack_lt := by decide
      buffer_lt := by decide }
  have acyclic : parenthesis.graph.Acyclic := Graph.acyclic_of_child_lt_parent (by decide)
  have heads : parenthesis.TopHeads 0 2 := ⟨3, 2, [], rfl, rfl, rfl⟩
  have inRange := extraction_stays_in_range extractor admissible acyclic
  have extracted : (extractor.extract parenthesis).result = .ok [⟨"s0yq", ["1", "1"]⟩] := by
    rw [extractor.extract_eq_anew admissible.wellFormed acyclic]
    decide +kernel
  have gapped : Id.run (parenthesis.graph.gapLengthSum 3).run = .ok 1 := rfl
  obtain ⟨_, _, sum, _, _, _, summed, small, _⟩ := inRange.gaps 3 (by decide)
  rw [gapped] at summed
  cases summed
  obtain ⟨first, second, entry, otherEntry, _, _, noStretch, _⟩ :=
    inRange.stretch 0 2 heads
  refine ⟨admissible, acyclic, heads, extracted, fun cause => (inRange.faultless cause).2,
    gapped, small.resolve_left Nat.one_ne_zero, ⟨first, second, entry, otherEntry, ?_⟩,
    (inRange.index farthest).2 (by decide)⟩
  rw [ne_eq, noStretch]
  decide

end Extractor

end TransitionFeatures
