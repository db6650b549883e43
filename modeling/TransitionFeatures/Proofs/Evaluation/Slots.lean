import Mathlib.Data.List.Forall2
import TransitionFeatures.Proofs.Evaluation.Carry
import TransitionFeatures.Proofs.Extraction.Gate

/-!
# Where values come from

A template fixes how many values it has and what each of them is: the value of a property of one
of its elements, or the indicator between two bare elements, one right after the other.  These are
its slots, and a state has no say in them.  Whenever a template has values on a state, they fill
its slots one by one: `Template.values_fill_slots`.

The row of elements is followed in any context in which derived data can be asked for, by what its
computations can return.  The focus that is carried along is the one that the element before left,
which is why an indicator is there exactly where two bare elements meet:
`Element.forall₂_holds_of_readAll`.
-/

namespace TransitionFeatures

open MonadAttach (CanReturn)

/-! ## What a computation can return -/

section Returns

variable {m : Type → Type} [Monad m] [LawfulMonad m] [MonadAttach m] [LawfulMonadAttach m]
  {ε ε' α β : Type}

theorem eq_ok_of_canReturn_liftM {result : Except ε α} {value : α}
    (returned : CanReturn (liftM result : ExceptT ε m α) value) : result = .ok value :=
  have handedOn : CanReturn (pure result : m (Except ε α)) (.ok value) := returned
  LawfulMonadAttach.eq_of_canReturn_pure handedOn

theorem canReturn_of_adapt {change : ε → ε'} {asked : ExceptT ε m α} {value : α}
    (returned : CanReturn (asked.adapt change) value) : CanReturn asked value := by
  have mapped : CanReturn (Except.mapError change <$> asked.run) (.ok value) := returned
  rcases LawfulMonadAttach.canReturn_map_imp' mapped with ⟨error | found, asked, equal⟩
  · cases equal
  · cases equal
    exact asked

/-- A row of computations returns a value of each. -/
theorem forall₂_of_canReturn_mapM {read : α → m β} {items : List α} {values : List β}
    (returned : CanReturn (items.mapM read) values) :
    List.Forall₂ (fun item value => CanReturn (read item) value) items values := by
  induction items generalizing values with
  | nil =>
    rw [List.mapM_nil] at returned
    rw [← LawfulMonadAttach.eq_of_canReturn_pure returned]
    exact .nil
  | cons first rest inductionHypothesis =>
    rw [List.mapM_cons] at returned
    rcases LawfulMonadAttach.canReturn_bind_imp' returned with ⟨value, firstReturned, after⟩
    rcases LawfulMonadAttach.canReturn_bind_imp' after with ⟨others, restReturned, together⟩
    rw [← LawfulMonadAttach.eq_of_canReturn_pure together]
    exact .cons firstReturned (inductionHypothesis restReturned)

end Returns

/-! ## Slots -/

/-- Where a value of a template comes from. -/
inductive Slot
  | reading (element : Element) (property : Property)
  | indicator (last next : Element)
  deriving DecidableEq

/-- The slot where an element meets the one before it, if there is one and both are bare. -/
def Slot.between : Option Element → Element → List Slot
  | none, _ => []
  | some last, next => if last.isBare && next.isBare then [.indicator last next] else []

/-- How a slot gets its value on a state, given what the properties read. -/
inductive Slot.Holds (state : State) (reads : Property → Focus → String → Prop) :
    Slot → String → Prop
  | reading {element : Element} {property : Property} {focus : Focus} {value : String}
      (focused : element.focus state = .ok focus) (read : reads property focus value) :
      Holds state reads (.reading element property) value
  | indicator {last next : Element} {value : String} (seam : Seam state last next [value]) :
      Holds state reads (.indicator last next) value

/-- What a property can read at a focus in a context. -/
def Property.Returns (m : Type → Type) [Monad m] [MonadAttach m] [DerivedData m] (state : State)
    (property : Property) (focus : Focus) (value : String) : Prop :=
  CanReturn (property.read state focus : ExceptT Halt m String) value

namespace Element

/-- The slots of elements in a row, the first of them coming after another one or after none. -/
def slots (previous : Option Element) : List Element → List Slot
  | [] => []
  | element :: rest =>
    Slot.between previous element ++ element.properties.map (.reading element) ++
      slots (some element) rest

/-- In how many places a bare element comes right after another. -/
def bareSeams (elements : List Element) : Nat :=
  (elements.zip elements.tail).countP fun (last, next) => last.isBare && next.isBare

theorem bareSeams_cons_cons (last next : Element) (rest : List Element) :
    bareSeams (last :: next :: rest) =
      (Slot.between (some last) next).length + bareSeams (next :: rest) := by
  rw [bareSeams, bareSeams, Slot.between, List.tail_cons, List.zip_cons_cons, List.countP_cons,
    List.tail_cons, Nat.add_comm]
  by_cases bothBare : (last.isBare && next.isBare) = true
  · rw [if_pos bothBare, if_pos bothBare, List.length_singleton]
  · rw [if_neg bothBare, if_neg bothBare, List.length_nil]

theorem length_slots (previous : Option Element) (elements : List Element) :
    (slots previous elements).length =
      (elements.flatMap Element.properties).length + bareSeams (previous.toList ++ elements) := by
  induction elements generalizing previous with
  | nil => cases previous <;> rfl
  | cons element rest inductionHypothesis =>
    rw [slots, List.length_append, List.length_append, inductionHypothesis, List.flatMap_cons,
      List.length_append, List.length_map]
    cases previous with
    | none =>
      simp only [Slot.between, List.length_nil, Option.toList_none, Option.toList_some,
        List.nil_append, List.singleton_append]
      omega
    | some last =>
      simp only [Option.toList_some, List.singleton_append, bareSeams_cons_cons]
      omega

end Element

/-! ## Rows -/

theorem Halt.lookUp_eq_ok_iff {α : Type} {found : Except Fault α} {value : α} :
    lookUp found = .ok value ↔ found = .ok value := by
  cases found <;> simp

namespace Element

variable {state : State} {previous : Option Element}

/-- What a bare element reads behind the one before it fills the slot where they meet. -/
theorem forall₂_holds_between {reads : Property → Focus → String → Prop} {element : Element}
    {focus : Focus} {values : List String} (bare : element.isBare = true)
    (focused : element.focus state = .ok focus)
    (behind : ∀ last ∈ previous, ∃ upper, last.focus state = .ok upper)
    (indicated : indicators state.graph (previous.bind (leaves? · state)) focus = .ok values) :
    List.Forall₂ (Slot.Holds state reads) (Slot.between previous element) values := by
  cases previous with
  | none =>
    cases indicated
    exact .nil
  | some last =>
    rcases behind last rfl with ⟨upper, lastFocus⟩
    rw [Option.bind_some] at indicated
    by_cases lastBare : last.isBare = true
    · rw [leaves?_of_focus_eq_ok lastBare lastFocus] at indicated
      rcases exists_seam_of_indicators lastBare bare lastFocus focused indicated with
        ⟨value, rfl, seam⟩
      rw [Slot.between, if_pos (by simp [lastBare, bare])]
      exact .cons (.indicator seam) .nil
    · rw [leaves?_of_properties lastBare] at indicated
      cases indicated
      rw [Slot.between, if_neg (by simp [lastBare])]
      exact .nil

theorem between_of_properties {element : Element} (bare : ¬ element.isBare = true) :
    Slot.between previous element = [] := by
  cases previous with
  | none => rfl
  | some last => simp [Slot.between, bare]

variable {m : Type → Type} [Monad m] [LawfulMonad m] [MonadAttach m] [LawfulMonadAttach m]
  [DerivedData m]

/-- An element fills the slot where it meets the one before and those of its properties. -/
theorem forall₂_holds_of_read {element : Element} {values : List String} {left : Option Focus}
    (behind : ∀ last ∈ previous, ∃ upper, last.focus state = .ok upper)
    (returned : CanReturn (element.read state (previous.bind (leaves? · state)) :
      ExceptT Halt m (List String × Option Focus)) (values, left)) :
    (∃ focus, element.focus state = .ok focus) ∧ left = element.leaves? state ∧
      List.Forall₂ (Slot.Holds state (Property.Returns m state))
        (Slot.between previous element ++ element.properties.map (.reading element)) values := by
  rcases LawfulMonadAttach.canReturn_bind_imp' returned with ⟨focus, looked, contributed⟩
  have focused := eq_ok_of_canReturn_liftM looked
  refine ⟨⟨focus, focused⟩, ?_⟩
  by_cases bare : element.isBare = true
  · rw [if_pos bare] at contributed
    rcases LawfulMonadAttach.canReturn_bind_imp' contributed with ⟨found, asked, together⟩
    cases LawfulMonadAttach.eq_of_canReturn_pure together
    have indicated := Halt.lookUp_eq_ok_iff.mp (eq_ok_of_canReturn_liftM asked)
    rw [List.isEmpty_iff.mp bare, List.map_nil, List.append_nil]
    exact ⟨(leaves?_of_focus_eq_ok bare focused).symm,
      forall₂_holds_between bare focused behind indicated⟩
  · rw [if_neg bare] at contributed
    rcases LawfulMonadAttach.canReturn_bind_imp' contributed with ⟨read, asked, together⟩
    cases LawfulMonadAttach.eq_of_canReturn_pure together
    rw [between_of_properties bare, List.nil_append, List.forall₂_map_left_iff]
    refine ⟨(leaves?_of_properties bare).symm, ?_⟩
    exact (forall₂_of_canReturn_mapM asked).imp fun _ _ returned =>
      Slot.Holds.reading focused returned

/-- The values of a row fill its slots, in every context. -/
theorem forall₂_holds_of_readAll {elements : List Element} {values : List String}
    (behind : ∀ last ∈ previous, ∃ upper, last.focus state = .ok upper)
    (returned : CanReturn (readAll state (previous.bind (leaves? · state)) elements :
      ExceptT Halt m (List String)) values) :
    List.Forall₂ (Slot.Holds state (Property.Returns m state)) (slots previous elements)
      values := by
  -- The element before has a focus, and what it left is that focus or, with properties, none.
  induction elements generalizing previous values with
  | nil =>
    cases LawfulMonadAttach.eq_of_canReturn_pure returned
    exact .nil
  | cons element rest inductionHypothesis =>
    rw [readAll_cons] at returned
    rcases LawfulMonadAttach.canReturn_bind_imp' returned with
      ⟨⟨contribution, left⟩, elementReturned, after⟩
    rcases LawfulMonadAttach.canReturn_bind_imp' after with ⟨later, restReturned, together⟩
    cases LawfulMonadAttach.eq_of_canReturn_pure together
    obtain ⟨focused, rfl, elementHolds⟩ := forall₂_holds_of_read behind elementReturned
    have elementBehind : ∀ last ∈ some element, ∃ upper, last.focus state = .ok upper := by
      simpa using focused
    exact List.rel_append elementHolds (inductionHypothesis elementBehind restReturned)

end Element

/-! ## Templates -/

/-- The value of a property at a focus, asked with a memo table, and the table that is left. -/
def Property.valueFrom (property : Property) (state : State) (focus : Focus) (memo : Memo) :
    Except Halt String × Memo :=
  (property.read state focus : ExceptT Halt (StateM Memo) String).run.run memo

namespace Template

/-- The slots of a template. -/
def slots (template : Template) : List Slot :=
  Element.slots none template.elements

/-- Values on a state that fill the slots of a template: as many as there are properties and bare
elements right after another, each from its slot. -/
structure Fills (template : Template) (state : State) (reads : Property → Focus → String → Prop)
    (values : List String) : Prop where
  length_eq : values.length =
    (template.elements.flatMap Element.properties).length + Element.bareSeams template.elements
  holds : List.Forall₂ (Slot.Holds state reads) template.slots values

variable {template : Template} {state : State} {values : List String}

/-- In every context, the values that a template can return fill its slots. -/
theorem fills_of_canReturn {m : Type → Type} [Monad m] [LawfulMonad m] [MonadAttach m]
    [LawfulMonadAttach m] [DerivedData m]
    (returned : CanReturn (template.read state : ExceptT Halt m (List String)) values) :
    template.Fills state (Property.Returns m state) values := by
  have holds : List.Forall₂ (Slot.Holds state (Property.Returns m state)) template.slots values :=
    Element.forall₂_holds_of_readAll nofun returned
  refine ⟨?_, holds⟩
  rw [← holds.length_eq]
  exact Element.length_slots none template.elements

theorem canReturn_of_evaluateFrom {memo : Memo}
    (present : (template.evaluateFrom state memo).1 = .ok values) :
    CanReturn (template.read state : ExceptT Halt (StateM Memo) (List String)) values :=
  ⟨memo, (template.evaluateFrom state memo).2, Prod.ext present rfl⟩

theorem Fills.mono {reads otherReads : Property → Focus → String → Prop}
    (fills : template.Fills state reads values)
    (implies : ∀ property focus value, reads property focus value →
      otherReads property focus value) : template.Fills state otherReads values := by
  refine ⟨fills.length_eq, fills.holds.imp fun slot value holds => ?_⟩
  cases holds with
  | reading focused read => exact .reading focused (implies _ _ _ read)
  | indicator seam => exact .indicator seam

/-- Whatever the state, a template that has values on it has one for each of its slots, in order:
the value of the property at the focus of the element, or what there is to read where two bare
elements meet.  With a memo table the properties are asked with one. -/
theorem values_fill_slots (template : Template) (state : State) (values : List String) :
    (template.evaluate state = .ok values →
      template.Fills state
        (fun property focus value => property.value state focus = .ok value) values) ∧
      ∀ memo, (template.evaluateFrom state memo).1 = .ok values →
        template.Fills state
          (fun property focus value =>
            ∃ table, (property.valueFrom state focus table).1 = .ok value) values := by
  constructor
  · intro present
    have returned : CanReturn (template.read state : ExceptT Halt Id (List String)) values :=
      present
    exact fills_of_canReturn returned
  · intro memo present
    apply (fills_of_canReturn (canReturn_of_evaluateFrom present)).mono
    rintro property focus value ⟨table, left, returned⟩
    exact ⟨table, congrArg Prod.fst returned⟩

/-- An indicator in front of the three values of an element, without a table and with one. -/
theorem values_fill_slots_particleVerb :
    let unit : Element := ⟨.stack, 0, [], [.gapType, .gapLengthSum, .text]⟩
    let above : Element := ⟨.stack, 0, [], []⟩
    let below : Element := ⟨.stack, 0, [.rightmostChild], []⟩
    let template : Template := { name := "s0s0rs0xyw", elements := [above, below, unit] }
    template.slots = [.indicator above below, .reading unit .gapType,
        .reading unit .gapLengthSum, .reading unit .text] ∧
      template.evaluate particleVerb = .ok ["1", "p", "1", "gave"] ∧
      (template.evaluateFrom particleVerb .empty).1 = .ok ["1", "p", "1", "gave"] ∧
      template.Fills particleVerb
        (fun property focus value => property.value particleVerb focus = .ok value)
        ["1", "p", "1", "gave"] ∧
      template.Fills particleVerb
        (fun property focus value =>
          ∃ table, (property.valueFrom particleVerb focus table).1 = .ok value)
        ["1", "p", "1", "gave"] := by
  intro unit above below template
  have anew : template.evaluate particleVerb = .ok ["1", "p", "1", "gave"] := by decide +kernel
  have built : Graph.build particleVerbSteps = .ok particleVerb.graph := rfl
  have wellFormed := Graph.wellFormed_of_build built
  have acyclic : particleVerb.graph.Acyclic := Graph.acyclic_of_child_lt_parent (by decide)
  have withTable : (template.evaluateFrom particleVerb .empty).1 = .ok ["1", "p", "1", "gave"] :=
    (evaluateFrom_eq_evaluate wellFormed acyclic (Memo.correct_empty _) template).trans anew
  have filled := values_fill_slots template particleVerb ["1", "p", "1", "gave"]
  exact ⟨by decide, anew, withTable, filled.1 anew, filled.2 .empty withTable⟩

end Template

end TransitionFeatures
