import TransitionFeatures.Evaluation.Core
import TransitionFeatures.Proofs.Evaluation.Focus
import TransitionFeatures.Proofs.Results
import TransitionFeatures.Template.Requirements

/-!
# Agreement of contexts

Readers are written for any context in which heads and yields can be asked for.
An `Agreement` relates the computations of two such contexts; single values are
related to themselves and sequencing keeps the relation.  Whatever a template
reads is then related in the two contexts as soon as their answers about heads
and yields are: `Template.read_agree`.  Only the answers that the requirements of
the template announce are ever asked for.
-/

namespace TransitionFeatures

/-- A relation between the computations of two contexts that values satisfy and
sequencing keeps. -/
structure Agreement (m n : Type → Type) [Monad m] [Monad n] where
  Agree : {α : Type} → m α → n α → Prop
  agree_pure : ∀ {α : Type} (value : α), Agree (pure value : m α) (pure value)
  agree_bind : ∀ {α β : Type} {first : m α} {other : n α} {later : α → m β} {otherLater : α → n β},
    Agree first other → (∀ value, Agree (later value) (otherLater value)) →
      Agree (first >>= later) (other >>= otherLater)

namespace Agreement

variable {m n : Type → Type} [Monad m] [Monad n] (agreement : Agreement m n)

/-- Computations that may fail agree in their failures as well. -/
def AgreeOrFail {ε α : Type} (first : ExceptT ε m α) (other : ExceptT ε n α) : Prop :=
  agreement.Agree first.run other.run

section OrFail

variable {ε ε' α β : Type}

theorem pure_orFail (value : α) :
    agreement.AgreeOrFail (pure value : ExceptT ε m α) (pure value) :=
  agreement.agree_pure (Except.ok value)

theorem throw_orFail (error : ε) :
    agreement.AgreeOrFail (throw error : ExceptT ε m α) (throw error) :=
  agreement.agree_pure (Except.error error)

/-- A look-up that asks for no head and no yield. -/
theorem liftM_orFail (found : Except ε α) :
    agreement.AgreeOrFail (liftM found : ExceptT ε m α) (liftM found) :=
  agreement.agree_pure found

variable {agreement}

theorem bind_orFail {first : ExceptT ε m α} {other : ExceptT ε n α}
    {later : α → ExceptT ε m β} {otherLater : α → ExceptT ε n β}
    (agree : agreement.AgreeOrFail first other)
    (laterAgree : ∀ value, agreement.AgreeOrFail (later value) (otherLater value)) :
    agreement.AgreeOrFail (first >>= later) (other >>= otherLater) := by
  apply agreement.agree_bind agree
  intro result
  cases result with
  | ok value => exact laterAgree value
  | error error => exact agreement.agree_pure (Except.error error)

/-- What comes after a look-up has to agree on the value that is found. -/
theorem bind_liftM_orFail [LawfulMonad m] [LawfulMonad n] {found : Except ε α}
    {later : α → ExceptT ε m β} {otherLater : α → ExceptT ε n β}
    (laterAgree : ∀ value, found = .ok value →
      agreement.AgreeOrFail (later value) (otherLater value)) :
    agreement.AgreeOrFail (liftM found >>= later) (liftM found >>= otherLater) := by
  cases found with
  | ok value =>
    rw [liftM_ok_bind, liftM_ok_bind]
    exact laterAgree value rfl
  | error error =>
    rw [liftM_error_bind, liftM_error_bind]
    exact agreement.throw_orFail error

theorem adapt_orFail (change : ε → ε') {first : ExceptT ε m α} {other : ExceptT ε n α}
    (agree : agreement.AgreeOrFail first other) [LawfulMonad m] [LawfulMonad n] :
    agreement.AgreeOrFail (first.adapt change) (other.adapt change) := by
  unfold AgreeOrFail ExceptT.adapt ExceptT.mk ExceptT.run
  rw [map_eq_pure_bind, map_eq_pure_bind]
  exact agreement.agree_bind agree fun result => agreement.agree_pure _

theorem mapM_orFail [LawfulMonad m] [LawfulMonad n] {read : β → ExceptT ε m α}
    {otherRead : β → ExceptT ε n α} {items : List β}
    (agree : ∀ item ∈ items, agreement.AgreeOrFail (read item) (otherRead item)) :
    agreement.AgreeOrFail (items.mapM read) (items.mapM otherRead) := by
  induction items with
  | nil => exact agreement.pure_orFail []
  | cons first rest inductionHypothesis =>
    rw [List.mapM_cons, List.mapM_cons]
    apply bind_orFail (agree first List.mem_cons_self)
    intro value
    have restAgree := inductionHypothesis fun item member =>
      agree item (List.mem_cons_of_mem first member)
    exact bind_orFail restAgree fun values => agreement.pure_orFail (value :: values)

theorem anyM_orFail {test : β → ExceptT ε m Bool} {otherTest : β → ExceptT ε n Bool}
    (agree : ∀ item, agreement.AgreeOrFail (test item) (otherTest item)) (items : List β) :
    agreement.AgreeOrFail (items.anyM test) (items.anyM otherTest) := by
  induction items with
  | nil => exact agreement.pure_orFail false
  | cons first rest inductionHypothesis =>
    rw [List.anyM_cons, List.anyM_cons]
    apply bind_orFail (agree first)
    intro passed
    cases passed with
    | true => exact agreement.pure_orFail true
    | false => exact inductionHypothesis

end OrFail

variable [DerivedData m] [DerivedData n]

/-- The two contexts give the same answers about the heads of a graph. -/
def SameHeads (graph : Graph) : Prop :=
  ∀ id, agreement.AgreeOrFail (DerivedData.head graph id) (DerivedData.head graph id)

/-- The two contexts give the same answers about the yields of a graph. -/
def SameYields (graph : Graph) : Prop :=
  ∀ id, agreement.AgreeOrFail (DerivedData.yield graph id) (DerivedData.yield graph id)

end Agreement

section Readers

variable {m n : Type → Type} [Monad m] [Monad n] [DerivedData m] [DerivedData n]
  {agreement : Agreement m n}

open Agreement

/-! ## Derived data -/

theorem Graph.headNode?_agree {graph : Graph} (heads : agreement.SameHeads graph)
    (id : NodeId) : agreement.AgreeOrFail (graph.headNode? id) (graph.headNode? id) := by
  apply bind_orFail (heads id)
  intro head?
  cases head? with
  | none => exact agreement.pure_orFail none
  | some head =>
    exact bind_orFail (agreement.liftM_orFail _) fun node =>
      agreement.pure_orFail (some node)

theorem Graph.headPosition?_agree {graph : Graph} (heads : agreement.SameHeads graph)
    (id : NodeId) :
    agreement.AgreeOrFail (graph.headPosition? id) (graph.headPosition? id) :=
  bind_orFail (Graph.headNode?_agree heads id) fun _ => agreement.pure_orFail _

theorem State.separators?_agree {state : State} (heads : agreement.SameHeads state.graph) :
    agreement.AgreeOrFail state.separators? state.separators? := by
  unfold State.separators?
  split
  · apply bind_orFail (Graph.headPosition?_agree heads _)
    intro first?
    cases first? with
    | none => exact agreement.pure_orFail none
    | some first =>
      apply bind_orFail (Graph.headPosition?_agree heads _)
      intro second?
      cases second? with
      | none => exact agreement.pure_orFail none
      | some second =>
        exact bind_orFail (agreement.liftM_orFail _) fun separators =>
          agreement.pure_orFail (some separators)
  · exact agreement.pure_orFail none

theorem Graph.isGappedUnit_agree {graph : Graph} (yields : agreement.SameYields graph)
    (id : NodeId) :
    agreement.AgreeOrFail (graph.isGappedUnit id) (graph.isGappedUnit id) := by
  apply bind_orFail (agreement.liftM_orFail _)
  intro node
  split
  · exact agreement.pure_orFail false
  · exact bind_orFail (yields id) fun positions => agreement.liftM_orFail _

theorem Graph.gapType_agree {graph : Graph} (yields : agreement.SameYields graph)
    (id : NodeId) : agreement.AgreeOrFail (graph.gapType id) (graph.gapType id) := by
  apply bind_orFail (agreement.liftM_orFail _)
  intro node
  split
  · exact agreement.pure_orFail GapType.none
  · apply bind_orFail (yields id)
    intro positions
    apply bind_orFail (agreement.liftM_orFail _)
    intro gapped
    split
    · exact agreement.pure_orFail GapType.pass
    · apply bind_orFail (agreement.liftM_orFail _)
      intro children
      apply bind_orFail (anyM_orFail (Graph.isGappedUnit_agree yields) children)
      intro gappedBelow
      split
      · exact agreement.pure_orFail GapType.source
      · exact agreement.pure_orFail GapType.none

theorem Graph.gapLengthSum_agree {graph : Graph} (yields : agreement.SameYields graph)
    (id : NodeId) :
    agreement.AgreeOrFail (graph.gapLengthSum id) (graph.gapLengthSum id) :=
  bind_orFail (yields id) fun _ => agreement.liftM_orFail _

/-! ## Properties -/

/-- A property at a node asks for heads or yields only if it is said to require them. -/
theorem Property.atNode_agree {state : State} {property : Property}
    (heads : .head ∈ property.required → agreement.SameHeads state.graph)
    (yields : .gaps ∈ property.required → agreement.SameYields state.graph) (id : NodeId) :
    agreement.AgreeOrFail (property.atNode state id) (property.atNode state id) := by
  apply bind_orFail (agreement.liftM_orFail (state.graph.node id))
  intro node
  cases property with
  | text | partOfSpeech =>
    have sameHeads := heads (by decide)
    exact bind_orFail (Graph.headNode?_agree sameHeads id) fun _ => agreement.pure_orFail _
  | separator =>
    have sameHeads := heads (by decide)
    apply bind_orFail (State.separators?_agree sameHeads)
    intro separators?
    split
    · exact agreement.pure_orFail _
    · exact agreement.pure_orFail none
  | separatorCount =>
    have sameHeads := heads (by decide)
    exact bind_orFail (State.separators?_agree sameHeads) fun _ => agreement.pure_orFail _
  | gapType =>
    have sameYields := yields (by decide)
    exact bind_orFail (Graph.gapType_agree sameYields id) fun _ => agreement.pure_orFail _
  | gapLengthSum =>
    have sameYields := yields (by decide)
    exact bind_orFail (Graph.gapLengthSum_agree sameYields id) fun _ =>
      agreement.pure_orFail _
  | parentCount | childCount => exact agreement.pure_orFail _
  | edgeTag | implicitCount | remoteCount =>
    exact bind_orFail (agreement.liftM_orFail _) fun _ => agreement.pure_orFail _

variable [LawfulMonad m] [LawfulMonad n]

/-- A property at a focus; an action is asked without regard to the context. -/
theorem Property.read_agree {state : State} {property : Property} {focus : Focus}
    (heads : (∃ id, focus = .node id) → .head ∈ property.required →
      agreement.SameHeads state.graph)
    (yields : (∃ id, focus = .node id) → .gaps ∈ property.required →
      agreement.SameYields state.graph) :
    agreement.AgreeOrFail (property.read state focus) (property.read state focus) := by
  have sameValue : agreement.AgreeOrFail (property.at? state focus)
      (property.at? state focus) := by
    cases focus with
    | node id =>
      exact adapt_orFail _ (Property.atNode_agree (heads ⟨id, rfl⟩) (yields ⟨id, rfl⟩) id)
    | action action => exact agreement.liftM_orFail _
  apply bind_orFail sameValue
  intro value?
  cases value? with
  | some value => exact agreement.pure_orFail value
  | none => exact agreement.throw_orFail _

/-! ## Elements and templates -/

theorem Element.read_agree {state : State} {element : Element}
    (heads : .head ∈ element.required → agreement.SameHeads state.graph)
    (yields : .gaps ∈ element.required → agreement.SameYields state.graph)
    (previous : Option Focus) :
    agreement.AgreeOrFail (element.read state previous) (element.read state previous) := by
  apply bind_liftM_orFail
  intro focus focused
  by_cases bare : element.isBare = true
  · rw [if_pos bare, if_pos bare]
    exact bind_orFail (agreement.liftM_orFail _) fun values => agreement.pure_orFail _
  · rw [if_neg bare, if_neg bare]
    have requires : (∃ id, focus = .node id) → ∀ property ∈ element.properties,
        ∀ requirement ∈ property.required, requirement ∈ element.required := by
      rintro ⟨id, rfl⟩ property member requirement needed
      have source := Element.source_ne_actions_of_focus_eq_node focused
      rw [Element.required, if_neg bare, if_neg source]
      exact List.mem_cons_of_mem _ (List.mem_flatMap.mpr ⟨property, member, needed⟩)
    refine bind_orFail (mapM_orFail fun property member => ?_) fun values =>
      agreement.pure_orFail _
    exact Property.read_agree
      (fun atNode needed => heads (requires atNode property member _ needed))
      (fun atNode needed => yields (requires atNode property member _ needed))

theorem Element.readAll_agree {state : State} {elements : List Element}
    (heads : ∀ element ∈ elements, .head ∈ element.required →
      agreement.SameHeads state.graph)
    (yields : ∀ element ∈ elements, .gaps ∈ element.required →
      agreement.SameYields state.graph)
    (previous : Option Focus) :
    agreement.AgreeOrFail (Element.readAll state previous elements)
      (Element.readAll state previous elements) := by
  induction elements generalizing previous with
  | nil => exact agreement.pure_orFail []
  | cons element rest inductionHypothesis =>
    have elementAgree := Element.read_agree (heads element List.mem_cons_self)
      (yields element List.mem_cons_self) previous
    apply bind_orFail elementAgree
    rintro ⟨values, left⟩
    have restAgree := inductionHypothesis
      (fun element member => heads element (List.mem_cons_of_mem _ member))
      (fun element member => yields element (List.mem_cons_of_mem _ member)) left
    exact bind_orFail restAgree fun later => agreement.pure_orFail (values ++ later)

/-- The values of a template agree in two contexts that agree on the derived data
among its requirements. -/
theorem Template.read_agree {state : State} {template : Template}
    (heads : .head ∈ template.requirements → agreement.SameHeads state.graph)
    (yields : .gaps ∈ template.requirements → agreement.SameYields state.graph) :
    agreement.AgreeOrFail (template.read state) (template.read state) :=
  Element.readAll_agree
    (fun element member needed =>
      heads (Template.mem_requirements.mpr ⟨element, member, needed⟩))
    (fun element member needed =>
      yields (Template.mem_requirements.mpr ⟨element, member, needed⟩)) none

end Readers

end TransitionFeatures
