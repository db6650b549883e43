import TransitionFeatures.Proofs.Evaluation.Faults

/-!
# The focus that is carried along

Elements in a row know of each other only by the focus that a bare element leaves to the
next one.  A row that is cut in two is evaluated as its first part and then as its second,
with the focus carried over the cut: `Element.allValues_append`.

On an admissible state the carried focus puts one indicator in front of a row that begins
with a bare element, and nothing in front of any other.  It never decides how a row ends:
`State.Admissible.exists_seam`.
-/

namespace TransitionFeatures

/-- Both foci are nodes, and the first is among the parents of the second. -/
def Focus.IsParent (graph : Graph) (upper lower : Focus) : Prop :=
  ∃ parent child parents, upper = .node parent ∧ lower = .node child ∧
    graph.parents child = .ok parents ∧ parent ∈ parents

theorem Focus.isParentOf_eq_ok {graph : Graph} {upper lower : Focus} {related : Bool}
    (found : upper.isParentOf graph lower = .ok related) :
    related = true ↔ upper.IsParent graph lower := by
  match upper, lower with
  | .node parent, .node child =>
    rcases bind_eq_ok_iff.mp found with ⟨parents, asked, equal⟩
    cases equal
    simp [IsParent, asked]
  | .action _, _ =>
    cases found
    simp [IsParent]
  | .node _, .action _ =>
    cases found
    simp [IsParent]

/-- What is read where two elements in a row meet: an indicator if both are bare. -/
inductive Seam (state : State) (last next : Element) : List String → Prop
  | apart (properties : ¬ (last.isBare = true ∧ next.isBare = true)) : Seam state last next []
  | related {upper lower : Focus} (lastBare : last.isBare = true) (nextBare : next.isBare = true)
      (lastFocus : last.focus state = .ok upper) (nextFocus : next.focus state = .ok lower)
      (parent : upper.IsParent state.graph lower) : Seam state last next ["1"]
  | unrelated {upper lower : Focus} (lastBare : last.isBare = true)
      (nextBare : next.isBare = true) (lastFocus : last.focus state = .ok upper)
      (nextFocus : next.focus state = .ok lower)
      (noParent : ¬ upper.IsParent state.graph lower) : Seam state last next ["0"]

namespace Element

variable {state : State} {previous : Option Focus}

/-- A bare element behind another one reads one value, which says whether their foci are related. -/
theorem exists_seam_of_indicators {last next : Element} {upper lower : Focus}
    {values : List String} (lastBare : last.isBare = true) (nextBare : next.isBare = true)
    (lastFocus : last.focus state = .ok upper) (nextFocus : next.focus state = .ok lower)
    (indicated : indicators state.graph (some upper) lower = .ok values) :
    ∃ value, values = [value] ∧ Seam state last next [value] := by
  rcases bind_eq_ok_iff.mp indicated with ⟨related, found, equal⟩
  cases equal
  have parent := Focus.isParentOf_eq_ok found
  refine ⟨_, rfl, ?_⟩
  cases related with
  | true => exact .related lastBare nextBare lastFocus nextFocus (parent.mp rfl)
  | false =>
    apply Seam.unrelated lastBare nextBare lastFocus nextFocus
    intro isParent
    cases parent.mpr isParent

/-! ## The focus that is left -/

/-- The focus that an element leaves to the next one. -/
def leaves? (element : Element) (state : State) : Option Focus :=
  if element.isBare then (element.focus state).toOption else none

/-- The focus that elements in a row leave, the first of them having been left one. -/
def carried? (state : State) (previous : Option Focus) (elements : List Element) :
    Option Focus :=
  elements.foldl (fun _ element => element.leaves? state) previous

@[simp]
theorem carried?_cons (element : Element) (rest : List Element) :
    carried? state previous (element :: rest) = carried? state (element.leaves? state) rest :=
  rfl

/-- Only the last element of a row has a say in what is left. -/
theorem carried?_of_getLast? {elements : List Element} {last : Element}
    (ends : elements.getLast? = some last) :
    carried? state previous elements = last.leaves? state := by
  rcases List.getLast?_eq_some_iff.mp ends with ⟨before, rfl⟩
  simp [carried?, List.foldl_append]

theorem leaves?_of_focus_eq_ok {element : Element} {focus : Focus}
    (bare : element.isBare = true) (focused : element.focus state = .ok focus) :
    element.leaves? state = some focus := by
  rw [leaves?, if_pos bare, focused]
  rfl

theorem leaves?_of_properties {element : Element} (bare : ¬ element.isBare = true) :
    element.leaves? state = none :=
  if_neg bare

theorem left_eq_leaves? {element : Element} {result : List String × Option Focus}
    (evaluated : element.values state previous = .ok result) :
    result.2 = element.leaves? state := by
  rw [values_eq] at evaluated
  rcases bind_eq_ok_iff.mp evaluated with ⟨focus, focused, contributed⟩
  by_cases bare : element.isBare = true
  · rw [if_pos bare] at contributed
    rcases map_eq_ok_iff.mp contributed with ⟨values, _, rfl⟩
    exact (leaves?_of_focus_eq_ok bare focused).symm
  · rw [if_neg bare] at contributed
    rcases map_eq_ok_iff.mp contributed with ⟨values, _, rfl⟩
    exact (leaves?_of_properties bare).symm

/-! ## Rows in sequence -/

/-- A row is evaluated up to a cut and then from the cut, with the focus carried over it. -/
theorem allValues_append (first second : List Element) :
    allValues state previous (first ++ second) =
      (allValues state previous first).bind fun values =>
        (allValues state (carried? state previous first) second).map (values ++ ·) := by
  induction first generalizing previous with
  | nil =>
    change allValues state previous second =
      (allValues state previous second).map fun values => [] ++ values
    cases allValues state previous second <;> rfl
  | cons element rest inductionHypothesis =>
    rw [List.cons_append, allValues_cons, allValues_cons, carried?_cons]
    cases evaluated : element.values state previous with
    | error halt => rfl
    | ok contribution =>
      simp only [Except.bind]
      rw [inductionHypothesis, left_eq_leaves? evaluated]
      cases allValues state (element.leaves? state) rest with
      | error halt => rfl
      | ok values =>
        simp only [Except.bind, Except.map]
        cases allValues state (carried? state (element.leaves? state) rest) second with
        | error halt => rfl
        | ok later => simp

theorem allValues_cons_of_focus_eq_error {element : Element} {halt : Halt}
    (failed : element.focus state = .error halt) (rest : List Element) :
    allValues state previous (element :: rest) = .error halt := by
  rw [allValues_cons, values_eq, failed]
  rfl

/-- An element with properties takes no notice of the focus that is left to it. -/
theorem allValues_cons_of_properties {element : Element} (bare : ¬ element.isBare = true)
    (rest : List Element) :
    allValues state previous (element :: rest) = allValues state none (element :: rest) := by
  rw [allValues_cons, allValues_cons, values_eq, values_eq]
  simp only [if_neg bare]

/-- A bare element puts an indicator in front of the rest of its row. -/
theorem allValues_cons_of_bare {element : Element} {focus : Focus} {indicator : List String}
    (bare : element.isBare = true) (focused : element.focus state = .ok focus)
    (indicated : indicators state.graph previous focus = .ok indicator) (rest : List Element) :
    allValues state previous (element :: rest) =
      (allValues state (some focus) rest).map (indicator ++ ·) := by
  rw [allValues_cons, values_eq, focused]
  simp only [Except.bind, if_pos bare, indicated, Halt.lookUp_ok, Except.map]

end Element

/-! ## The seam between two rows -/

namespace State.Admissible

variable {state : State} (admissible : state.Admissible)

include admissible

/-- Behind another element a row ends as by itself, and if it has values, what is read at
the seam comes before them. -/
theorem exists_seam {last next : Element} {upper : Focus}
    (lastFocus : last.focus state = .ok upper) (rest : List Element) :
    ∃ seam, Element.allValues state (last.leaves? state) (next :: rest) =
        (Element.allValues state none (next :: rest)).map (seam ++ ·) ∧
      ∀ values, Element.allValues state none (next :: rest) = .ok values →
        Seam state last next seam := by
  have unchanged : ∀ outcome : Except Halt (List String),
      outcome = outcome.map fun values => [] ++ values := by
    intro outcome
    cases outcome <;> rfl
  -- The rows differ in the indicator of `next` alone, so only two bare elements matter.
  by_cases lastBare : last.isBare = true
  · rw [Element.leaves?_of_focus_eq_ok lastBare lastFocus]
    by_cases nextBare : next.isBare = true
    · cases nextFocus : next.focus state with
      | error halt =>
        rw [Element.allValues_cons_of_focus_eq_error nextFocus,
          Element.allValues_cons_of_focus_eq_error nextFocus]
        exact ⟨[], rfl, nofun⟩
      | ok lower =>
        have ends : FaultsOnlyIf False (Focus.Known state.graph) (next.focus state) :=
          admissible.focus_faultsOnlyIf next
        rw [nextFocus] at ends
        have known : lower.Known state.graph := ends
        rcases admissible.exists_indicators_eq_ok (some upper) known with ⟨values, indicated⟩
        rcases Element.exists_seam_of_indicators lastBare nextBare lastFocus nextFocus
          indicated with ⟨value, rfl, seam⟩
        have alone : indicators state.graph none lower = .ok [] := rfl
        rw [Element.allValues_cons_of_bare nextBare nextFocus indicated,
          Element.allValues_cons_of_bare nextBare nextFocus alone, ← unchanged]
        exact ⟨_, rfl, fun _ _ => seam⟩
    · rw [Element.allValues_cons_of_properties nextBare]
      exact ⟨[], unchanged _, fun _ _ => .apart fun both => nextBare both.2⟩
  · rw [Element.leaves?_of_properties lastBare]
    exact ⟨[], unchanged _, fun _ _ => .apart fun both => lastBare both.1⟩

end State.Admissible

end TransitionFeatures
