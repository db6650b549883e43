import TransitionFeatures.Proofs.Extraction.Gate

/-!
# Runs of properties

An element may read several properties at its focus.  It can be split into two elements that find
the same focus and share the properties, in order: `Element.readAll_split`.  The second of them
finds the focus that the first found, and neither leaves a focus, so no indicator comes or goes.
What fails first still fails first.

Taken to the end, every template comes to one in which each element reads a single property or
none: `Template.property_runs_split`.  The results are equalities in every context in which derived
data can be asked for, so a run with a memo table cannot tell the templates apart either.
-/

namespace TransitionFeatures

namespace Element

/-- The element that reads other properties at the same focus. -/
def reading (element : Element) (properties : List Property) : Element :=
  { element with properties }

@[simp]
theorem reading_properties (element : Element) (properties : List Property) :
    (element.reading properties).properties = properties :=
  rfl

@[simp]
theorem reading_reading (element : Element) (first second : List Property) :
    (element.reading first).reading second = element.reading second :=
  rfl

theorem reading_self (element : Element) : element.reading element.properties = element :=
  rfl

@[simp]
theorem focus_reading (element : Element) (properties : List Property) (state : State) :
    (element.reading properties).focus state = element.focus state :=
  rfl

theorem isBare_reading {element : Element} {properties : List Property}
    (nonempty : properties ≠ []) : ¬ (element.reading properties).isBare = true := by
  simpa [isBare] using nonempty

/-- An element for each property that is read, or a bare element as it is. -/
def singled (element : Element) : List Element :=
  if element.isBare then [element]
  else element.properties.map fun property => element.reading [property]

theorem properties_singled (element : Element) :
    element.singled.flatMap Element.properties = element.properties := by
  unfold singled
  split
  · simp
  · simp [List.flatMap_map]

theorem eq_single_of_mem_singled {element single : Element} (member : single ∈ element.singled) :
    single.isBare = true ∨ ∃ property, single.properties = [property] := by
  unfold singled at member
  split at member
  · next bare =>
    rw [List.mem_singleton.mp member]
    exact Or.inl bare
  · rcases List.mem_map.mp member with ⟨property, _, rfl⟩
    exact Or.inr ⟨property, rfl⟩

section Read

variable {m : Type → Type} [Monad m] [LawfulMonad m] [DerivedData m] (state : State)
  (previous : Option Focus)

/-- An element with properties takes no notice of the focus that is left to it and leaves none. -/
theorem readAll_cons_of_properties {element : Element} (bare : ¬ element.isBare = true)
    (rest : List Element) :
    (readAll state previous (element :: rest) : ExceptT Halt m (List String)) = do
      let focus ← element.focus state
      let values ← element.properties.mapM (Property.read state focus)
      return values ++ (← readAll state none rest) := by
  rw [readAll_cons, read, bind_assoc]
  apply bind_congr
  intro focus
  rw [if_neg bare, bind_assoc]
  apply bind_congr
  intro values
  rw [pure_bind]

/-- An element that reads two runs of properties is read as one element for each run. -/
theorem readAll_reading_append (element : Element) {first second : List Property}
    (firstNonempty : first ≠ []) (secondNonempty : second ≠ []) (rest : List Element) :
    (readAll state previous (element.reading (first ++ second) :: rest) :
        ExceptT Halt m (List String)) =
      readAll state previous (element.reading first :: element.reading second :: rest) := by
  have bothNonempty : first ++ second ≠ [] := List.append_ne_nil_of_left_ne_nil firstNonempty _
  rw [readAll_cons_of_properties _ _ (isBare_reading bothNonempty),
    readAll_cons_of_properties _ _ (isBare_reading firstNonempty)]
  simp only [focus_reading, reading_properties, readAll_cons_of_properties _ _
    (isBare_reading secondNonempty)]
  -- The focus is found twice, or not at all.
  cases element.focus state with
  | error halt => rw [liftM_error_bind, liftM_error_bind]
  | ok focus =>
    simp only [liftM_ok_bind, List.mapM_append, bind_assoc, pure_bind, List.append_assoc]

/-- Wherever it stands in a row, an element can be split between its properties. -/
theorem readAll_split {element : Element} {first second : List Property}
    (run : element.properties = first ++ second) (firstNonempty : first ≠ [])
    (secondNonempty : second ≠ []) (before after : List Element) :
    (readAll state previous (before ++ element :: after) : ExceptT Halt m (List String)) =
      readAll state previous
        (before ++ element.reading first :: element.reading second :: after) := by
  induction before generalizing previous with
  | nil =>
    rw [List.nil_append, List.nil_append, ← reading_self element, run]
    exact readAll_reading_append state previous element firstNonempty secondNonempty after
  | cons earlier rest inductionHypothesis =>
    rw [List.cons_append, List.cons_append, readAll_cons, readAll_cons]
    simp only [inductionHypothesis]

/-- Splitting off the first property again and again leaves single properties. -/
theorem readAll_singles (element : Element) {properties : List Property}
    (nonempty : properties ≠ []) (before after : List Element) :
    (readAll state previous (before ++ element.reading properties :: after) :
        ExceptT Halt m (List String)) =
      readAll state previous
        (before ++ (properties.map fun property => element.reading [property]) ++ after) := by
  induction properties generalizing before with
  | nil => exact absurd rfl nonempty
  | cons property rest inductionHypothesis =>
    cases rest with
    | nil => simp
    | cons next later =>
      have run : (element.reading (property :: next :: later)).properties =
          [property] ++ next :: later := rfl
      rw [readAll_split state previous run (List.cons_ne_nil _ _) (List.cons_ne_nil _ _),
        List.append_cons]
      simp only [reading_reading]
      rw [inductionHypothesis (List.cons_ne_nil _ _)]
      simp

theorem readAll_singled (before : List Element) (element : Element) (after : List Element) :
    (readAll state previous (before ++ element :: after) : ExceptT Halt m (List String)) =
      readAll state previous (before ++ element.singled ++ after) := by
  unfold singled
  split
  · simp
  · next properties =>
    have nonempty : element.properties ≠ [] := by simpa [isBare] using properties
    exact readAll_singles state previous element nonempty before after

theorem readAll_flatMap_singled (before elements : List Element) :
    (readAll state previous (before ++ elements) : ExceptT Halt m (List String)) =
      readAll state previous (before ++ elements.flatMap singled) := by
  induction elements generalizing before with
  | nil => rfl
  | cons element rest inductionHypothesis =>
    rw [readAll_singled, inductionHypothesis, List.flatMap_cons, List.append_assoc]

end Read

end Element

namespace Template

/-- The template with an element for each property that is read. -/
def singled (template : Template) : Template :=
  { template with elements := template.elements.flatMap Element.singled }

/-- Two templates end alike on a state, with the same values or for the same reason.  From the same
memo table they leave the same one. -/
structure SameOutcome (state : State) (template other : Template) : Prop where
  anew : template.evaluate state = other.evaluate state
  from_table : ∀ memo, template.evaluateFrom state memo = other.evaluateFrom state memo

theorem sameOutcome_of_read_eq {state : State} {template other : Template}
    (alike : ∀ {m : Type → Type} [Monad m] [LawfulMonad m] [DerivedData m],
      (template.read state : ExceptT Halt m (List String)) = other.read state) :
    SameOutcome state template other where
  anew := congrArg (fun read : ExceptT Halt Id _ => Id.run read.run) alike
  from_table memo := congrArg (fun read : ExceptT Halt (StateM Memo) _ => read.run.run memo) alike

/-- On every state a template ends as it does with one of its elements split between its
properties, and as it does with every element split into elements that read one property each. -/
theorem property_runs_split (template : Template) (state : State) :
    (∀ before element after first second, template.elements = before ++ element :: after →
        element.properties = first ++ second → first ≠ [] → second ≠ [] →
          SameOutcome state template { template with
            elements := before ++ element.reading first :: element.reading second :: after }) ∧
      SameOutcome state template template.singled ∧
      (∀ element ∈ template.singled.elements,
        element.isBare = true ∨ ∃ property, element.properties = [property]) ∧
      template.singled.elements.flatMap Element.properties =
        template.elements.flatMap Element.properties := by
  refine ⟨?_, ?_, ?_, ?_⟩
  · intro before element after first second elements run firstNonempty secondNonempty
    apply sameOutcome_of_read_eq
    intro m _ _ _
    rw [read, read, elements]
    exact Element.readAll_split state none run firstNonempty secondNonempty before after
  · apply sameOutcome_of_read_eq
    intro m _ _ _
    exact Element.readAll_flatMap_singled state none [] template.elements
  · intro single member
    rcases List.mem_flatMap.mp member with ⟨element, _, fromElement⟩
    exact Element.eq_single_of_mem_singled fromElement
  · simp only [singled, List.flatMap_assoc, Element.properties_singled]

/-- A missing tag skips a template before it is in error for the part of speech of an action, also
when the two are read apart.  Values keep their order behind an indicator. -/
theorem property_runs_split_particleVerb :
    let shifted : State := { particleVerb with actions := [{ kind := "SHIFT", tag? := none }] }
    let action : Element := ⟨.actions, 0, [], [.edgeTag, .partOfSpeech]⟩
    let unit : Element := ⟨.stack, 0, [], [.gapType, .gapLengthSum, .text]⟩
    let related : List Element := [unit.reading [], ⟨.stack, 0, [.rightmostChild], []⟩]
    let refused : Template := { name := "s0s0ra0ets0xyw", elements := related ++ action :: [unit] }
    let present : Template := { name := "s0s0rs0xyw", elements := related ++ [unit] }
    shifted.Admissible ∧ shifted.graph.Acyclic ∧
      refused.evaluate shifted = .error (.skip (.undefined .edgeTag)) ∧
      SameOutcome shifted refused { refused with
        elements := related ++ action.reading [.edgeTag] :: action.reading [.partOfSpeech] ::
          [unit] } ∧
      present.evaluate shifted = .ok ["1", "p", "1", "gave"] ∧
      SameOutcome shifted present { present with
        elements := related ++ [unit.reading [.gapType], unit.reading [.gapLengthSum],
          unit.reading [.text]] } := by
  intro shifted action unit related refused present
  have admissible : shifted.Admissible :=
    { built := ⟨particleVerbSteps, rfl⟩
      stack_lt := by decide
      buffer_lt := by decide }
  have acyclic : shifted.graph.Acyclic := Graph.acyclic_of_child_lt_parent (by decide)
  exact ⟨admissible, acyclic, by decide +kernel,
    (property_runs_split refused shifted).1 related action _ [.edgeTag] [.partOfSpeech] rfl rfl
      (by decide) (by decide),
    by decide +kernel, (property_runs_split present shifted).2.1⟩

end Template

end TransitionFeatures
