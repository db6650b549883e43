import TransitionFeatures.Proofs.Evaluation.Ample
import TransitionFeatures.Proofs.Evaluation.Carry
import TransitionFeatures.Proofs.Template.Grammar
import TransitionFeatures.Template.Requirements

/-!
# Descriptors put together

A source letter begins an element wherever it stands, so a text that begins with one can be
put behind any other, and can be cut off again: `elements?_append_eq_some_iff`.  The template
of two descriptors together has the elements of both and the requirements of both.  It ends
as the first of the two that does not have values, and otherwise has the values of both with
what is read at the seam between them: `Template.append_composes`.
-/

namespace TransitionFeatures

/-! ## Texts put together -/

/-- A text without a lead keeps its pieces behind another text. -/
theorem pieces_append_of_lead_eq_nil {second : List Char} (noLead : (pieces second).1 = [])
    (first : List Char) :
    pieces (first ++ second) = ((pieces first).1, (pieces first).2 ++ (pieces second).2) := by
  induction first with
  | nil => exact Prod.ext noLead rfl
  | cons letter rest inductionHypothesis =>
    rw [List.cons_append]
    cases read : Source.ofCode? letter with
    | none => rw [pieces_cons_none read, pieces_cons_none read, inductionHypothesis]
    | some source =>
      rw [Source.ofCode?_eq_some_iff.mp read, pieces_cons_code, pieces_cons_code,
        inductionHypothesis]
      rfl

/-- A text is read if and only if it has pieces, no lead, and every piece is read. -/
theorem elements?_eq_some_iff_pieces {text : List Char} {elements : List Element} :
    elements? text = some elements ↔
      (pieces text).1 = [] ∧ text ≠ [] ∧
        (pieces text).2.mapM (fun piece => Element.ofLetters? piece.1 piece.2) =
          some elements := by
  have whole := flatMap_pieces text
  rw [elements?]
  split
  · rename_i first later cut
    rw [cut] at whole ⊢
    have nonempty : text ≠ [] := by
      rintro rfl
      simp at whole
    simp [nonempty]
  · rename_i others
    apply iff_of_false nofun
    rintro ⟨noLead, nonempty, _⟩
    cases found : (pieces text).2 with
    | nil =>
      rw [noLead, found] at whole
      exact nonempty whole.symm
    | cons first later => exact others first later (Prod.ext noLead found)

theorem mapM_append_eq_some_iff {α β : Type} {read : α → Option β} {first second : List α}
    {results : List β} :
    (first ++ second).mapM read = some results ↔
      ∃ before after, first.mapM read = some before ∧ second.mapM read = some after ∧
        results = before ++ after := by
  rw [List.mapM_append]
  simp only [Option.bind_eq_bind, Option.bind_eq_some_iff, Option.pure_def, Option.some.injEq]
  constructor
  · rintro ⟨before, firstRead, after, secondRead, rfl⟩
    exact ⟨before, after, firstRead, secondRead, rfl⟩
  · rintro ⟨before, after, firstRead, secondRead, rfl⟩
    exact ⟨before, firstRead, after, secondRead, rfl⟩

/-- A text in front of one without a lead is read with it if and only if both are read. -/
theorem elements?_append_eq_some_iff {first second : List Char} {elements : List Element}
    (firstNonempty : first ≠ []) (secondNonempty : second ≠ [])
    (noLead : (pieces second).1 = []) :
    elements? (first ++ second) = some elements ↔
      ∃ before after, elements? first = some before ∧ elements? second = some after ∧
        elements = before ++ after := by
  simp only [elements?_eq_some_iff_pieces, pieces_append_of_lead_eq_nil noLead,
    mapM_append_eq_some_iff, ne_eq, List.append_eq_nil_iff, firstNonempty, secondNonempty,
    noLead, not_false_eq_true, true_and, and_false]
  constructor
  · rintro ⟨firstLead, before, after, firstRead, secondRead, rfl⟩
    exact ⟨before, after, ⟨firstLead, firstRead⟩, secondRead, rfl⟩
  · rintro ⟨before, after, ⟨firstLead, firstRead⟩, secondRead, rfl⟩
    exact ⟨firstLead, before, after, firstRead, secondRead, rfl⟩

theorem lead_eq_nil_of_mem_sourceLetters {letter : Char} (known : letter ∈ sourceLetters)
    (rest : List Char) : (pieces (letter :: rest)).1 = [] := by
  rcases Option.isSome_iff_exists.mp (mem_sourceLetters_iff.mp known) with ⟨source, read⟩
  rw [Source.ofCode?_eq_some_iff.mp read, pieces_cons_code]

/-! ## Templates put together -/

namespace Template

theorem elements_ne_nil {descriptor : String} {template : Template}
    (read : parse? descriptor = some template) : template.elements ≠ [] :=
  ne_nil_of_elements?_eq_some (parse?_eq_some_iff.mp read).2

/-- Read descriptors make a read descriptor, whose elements are theirs. -/
theorem parse?_append {first second : String} {before after : Template}
    (firstRead : parse? first = some before) (secondRead : parse? second = some after) :
    parse? (first ++ second) =
      some { name := first ++ second, elements := before.elements ++ after.elements } := by
  have firstElements := (parse?_eq_some_iff.mp firstRead).2
  have secondElements := (parse?_eq_some_iff.mp secondRead).2
  have firstPieces := elements?_eq_some_iff_pieces.mp firstElements
  have secondPieces := elements?_eq_some_iff_pieces.mp secondElements
  apply parse?_eq_some_iff.mpr
  rw [String.toList_append,
    elements?_append_eq_some_iff firstPieces.2.1 secondPieces.2.1 secondPieces.1]
  exact ⟨rfl, before.elements, after.elements, firstElements, secondElements, rfl⟩

/-- A read descriptor that is cut before a source letter leaves read descriptors. -/
theorem isSome_parse?_of_append {first second : String} {letter : Char} {rest : List Char}
    (nonempty : first ≠ "") (begins : second.toList = letter :: rest)
    (known : letter ∈ sourceLetters) (read : (parse? (first ++ second)).isSome = true) :
    (parse? first).isSome = true ∧ (parse? second).isSome = true := by
  rcases Option.isSome_iff_exists.mp read with ⟨whole, wholeRead⟩
  have wholeElements := (parse?_eq_some_iff.mp wholeRead).2
  have firstNonempty : first.toList ≠ [] := by simpa using nonempty
  have secondNonempty : second.toList ≠ [] := by simp [begins]
  have noLead : (pieces second.toList).1 = [] := by
    rw [begins]
    exact lead_eq_nil_of_mem_sourceLetters known rest
  rw [String.toList_append,
    elements?_append_eq_some_iff firstNonempty secondNonempty noLead] at wholeElements
  rcases wholeElements with ⟨before, after, firstRead, secondRead, _⟩
  simp only [parse?, firstRead, secondRead, Option.map_some, Option.isSome_some, and_self]

theorem requirements_append (name firstName secondName : String)
    (before after : List Element) :
    requirements { name, elements := before ++ after } =
      (requirements { name := firstName, elements := before }).union
        (requirements { name := secondName, elements := after }) := by
  apply Requirements.ext
  intro requirement
  simp only [Requirements.mem_union, mem_requirements, List.mem_append, or_and_right,
    exists_or]

end Template

/-- Behind a row with values another row ends as by itself, and if it has values, what is
read at the seam comes before them. -/
theorem State.Admissible.exists_allValues_append {state : State} (admissible : state.Admissible)
    {before rest : List Element} {last next : Element} {firstValues : List String}
    (ends : before.getLast? = some last)
    (evaluated : Element.allValues state none before = .ok firstValues) :
    ∃ seam, Element.allValues state none (before ++ next :: rest) =
        (Element.allValues state none (next :: rest)).map (firstValues ++ seam ++ ·) ∧
      ∀ values, Element.allValues state none (next :: rest) = .ok values →
        Seam state last next seam := by
  have member : last ∈ before := List.mem_of_getLast? ends
  rcases Element.exists_values_of_allValues_eq_ok evaluated last member with
    ⟨_, _, lastEvaluated⟩
  rcases Element.exists_focus_of_values_eq_ok lastEvaluated with ⟨upper, lastFocus, _⟩
  rcases admissible.exists_seam lastFocus rest with ⟨seam, joined, read⟩
  refine ⟨seam, ?_, read⟩
  rw [Element.allValues_append, evaluated, Element.carried?_of_getLast? ends]
  simp only [Except.bind]
  rw [joined]
  cases Element.allValues state none (next :: rest) with
  | error halt => rfl
  | ok values => simp [Except.map]

namespace Template

/-- Two descriptors that are read make one that is read.  Its template has the elements and
the requirements of both; on a state over an acyclic graph it ends as the first of the two
that has no values, and otherwise has the values of both and between them what is read at
the seam.  A descriptor that is read can be cut before any source letter but its first. -/
theorem append_composes (first second : String) :
    (∀ before after, parse? first = some before → parse? second = some after →
      ∃ whole, parse? (first ++ second) = some whole ∧
        whole.elements = before.elements ++ after.elements ∧
        whole.requirements = before.requirements.union after.requirements ∧
        ∀ state : State, state.Admissible → state.graph.Acyclic →
          (∀ halt, before.evaluate state = .error halt → whole.evaluate state = .error halt) ∧
          (∀ firstValues halt, before.evaluate state = .ok firstValues →
            after.evaluate state = .error halt → whole.evaluate state = .error halt) ∧
          (∀ firstValues secondValues, before.evaluate state = .ok firstValues →
            after.evaluate state = .ok secondValues →
              ∃ last next seam, before.elements.getLast? = some last ∧
                after.elements.head? = some next ∧ Seam state last next seam ∧
                whole.evaluate state = .ok (firstValues ++ seam ++ secondValues)) ∧
          ∀ cause, whole.evaluate state ≠ .error (.error (.fault cause))) ∧
      (∀ letter rest, first ≠ "" → second.toList = letter :: rest → letter ∈ ['s', 'b', 'a'] →
        (parse? (first ++ second)).isSome = true →
          (parse? first).isSome = true ∧ (parse? second).isSome = true) := by
  constructor
  · intro before after firstRead secondRead
    refine ⟨_, parse?_append firstRead secondRead, rfl,
      requirements_append _ before.name after.name before.elements after.elements, ?_⟩
    intro state admissible acyclic
    simp only [evaluate_eq_allValues]
    cases elements : after.elements with
    | nil => exact absurd elements (elements_ne_nil secondRead)
    | cons next rest =>
      cases ends : before.elements.getLast? with
      | none =>
        exact absurd (List.getLast?_eq_none_iff.mp ends) (elements_ne_nil firstRead)
      | some last =>
        refine ⟨?_, ?_, ?_, ?_⟩
        · intro halt failed
          rw [Element.allValues_append, failed]
          rfl
        · intro firstValues halt evaluated failed
          rcases admissible.exists_allValues_append ends evaluated with ⟨seam, joined, _⟩
          rw [joined, failed]
          rfl
        · intro firstValues secondValues firstEvaluated secondEvaluated
          rcases admissible.exists_allValues_append ends firstEvaluated with
            ⟨seam, joined, read⟩
          refine ⟨last, next, seam, rfl, rfl, read secondValues secondEvaluated, ?_⟩
          rw [joined, secondEvaluated]
          rfl
        · intro cause
          have sound := admissible.evaluate_faultsOnlyIf
            { name := first ++ second, elements := before.elements ++ next :: rest }
          exact sound.ne_fault (not_not_intro acyclic) cause
  · intro letter rest nonempty begins known read
    exact isSome_parse?_of_append nonempty begins known read

/-- On an ample state the top of the stack is its own parent, so the indicator at the seam of
these two descriptors is positive, though neither of them has an indicator by itself. -/
theorem append_composes_ample :
    ∃ before after whole, parse? "s0ws0" = some before ∧ parse? "s0s1t" = some after ∧
      parse? ("s0ws0" ++ "s0s1t") = some whole ∧
      (State.ample 0).Admissible ∧ (State.ample 0).graph.Acyclic ∧
      before.evaluate (.ample 0) = .ok ["there"] ∧ after.evaluate (.ample 0) = .ok ["RB"] ∧
      Seam (.ample 0) ⟨.stack, 0, [], []⟩ ⟨.stack, 0, [], []⟩ ["1"] ∧
      whole.evaluate (.ample 0) = .ok (["there"] ++ ["1"] ++ ["RB"]) ∧
      "s0ws0" ≠ "" ∧ "s0s1t".toList = 's' :: "0s1t".toList ∧ 's' ∈ ['s', 'b', 'a'] ∧
      (parse? "s0ws0").isSome = true ∧ (parse? "s0s1t").isSome = true := by
  let bareTop : Element := ⟨.stack, 0, [], []⟩
  let before : Template := { name := "s0ws0", elements := [⟨.stack, 0, [], [.text]⟩, bareTop] }
  let after : Template :=
    { name := "s0s1t", elements := [bareTop, ⟨.stack, 1, [], [.partOfSpeech]⟩] }
  have firstRead : parse? "s0ws0" = some before := by decide +kernel
  have secondRead : parse? "s0s1t" = some after := by decide +kernel
  have firstValues : before.evaluate (.ample 0) = .ok ["there"] := rfl
  have secondValues : after.evaluate (.ample 0) = .ok ["RB"] := rfl
  have composes := append_composes "s0ws0" "s0s1t"
  rcases composes.1 before after firstRead secondRead with ⟨whole, wholeRead, elements, _, outcome⟩
  rcases (outcome _ (ample_admissible 0) ampleGraph_acyclic).2.2.1 _ _ firstValues secondValues
    with ⟨last, next, seam, ends, begins, atSeam, wholeValues⟩
  cases ends
  cases begins
  have seamEq : seam = ["1"] := by
    rw [evaluate_eq_allValues, elements] at wholeValues
    have computed : (.ok (["there"] ++ ["1"] ++ ["RB"]) : Except Halt (List String)) =
      .ok (["there"] ++ seam ++ ["RB"]) := wholeValues
    exact (List.append_cancel_left (List.append_cancel_right (Except.ok.inj computed))).symm
  subst seamEq
  have parts := composes.2 's' "0s1t".toList (by decide) (by decide) (by decide)
    (by rw [wholeRead]; rfl)
  exact ⟨before, after, whole, firstRead, secondRead, wholeRead, ample_admissible 0,
    ampleGraph_acyclic, firstValues, secondValues, atSeam, wholeValues, by decide, by decide,
    by decide, parts⟩

end Template

end TransitionFeatures
