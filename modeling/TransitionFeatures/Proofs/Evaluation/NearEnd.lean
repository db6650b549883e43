import TransitionFeatures.Proofs.Evaluation.Faults
import TransitionFeatures.Proofs.Graph.Memo

/-!
# The near end of a state

Elements count the entries of the stack and the actions from the end and those of the buffer from
the front, and separators are read off the two topmost stack entries.  What a state gets at the
other end is therefore never looked at where there was something to look at before: an outcome is
kept, unless it was a skip for want of an entry, be it the one that an element selects or one of
the two tops.  `Template.near_end_decides` states this for every template.
-/

namespace TransitionFeatures

open DerivedData

/-! ## Results that are kept -/

/-- A computation keeps the result of another one, unless that is an error of a given kind. -/
def KeepsUnless {ε α : Type} (fleeting : ε → Prop) (far near : Except ε α) : Prop :=
  (∃ error, near = .error error ∧ fleeting error) ∨ far = near

namespace KeepsUnless

variable {ε α β : Type} {fleeting : ε → Prop} {far near : Except ε α}

theorem bind {later otherLater : α → Except ε β} (keeps : KeepsUnless fleeting far near)
    (laterKeeps : ∀ value, KeepsUnless fleeting (later value) (otherLater value)) :
    KeepsUnless fleeting (far.bind later) (near.bind otherLater) := by
  rcases keeps with ⟨error, rfl, lost⟩ | rfl
  · exact Or.inl ⟨error, rfl, lost⟩
  · cases far with
    | error error => exact Or.inr rfl
    | ok value => exact laterKeeps value

theorem map (keeps : KeepsUnless fleeting far near) (change : α → β) :
    KeepsUnless fleeting (far.map change) (near.map change) := by
  rcases keeps with ⟨error, rfl, lost⟩ | rfl
  · exact Or.inl ⟨error, rfl, lost⟩
  · exact Or.inr rfl

theorem mapM {find otherFind : α → Except ε β} {items : List α}
    (keeps : ∀ item ∈ items, KeepsUnless fleeting (find item) (otherFind item)) :
    KeepsUnless fleeting (items.mapM find) (items.mapM otherFind) := by
  induction items with
  | nil => exact Or.inr rfl
  | cons first rest inductionHypothesis =>
    rw [List.forall_mem_cons] at keeps
    rw [List.mapM_cons, List.mapM_cons]
    apply keeps.1.bind
    intro value
    apply (inductionHypothesis keeps.2).bind
    exact fun values => Or.inr rfl

end KeepsUnless

/-! ## Longer states -/

/-- A state with more below the stack, behind the buffer and before the actions of another one
over the same graph. -/
structure State.Extends (far near : State) : Prop where
  graph_eq : far.graph = near.graph
  stack_end : near.stack <:+ far.stack
  buffer_start : near.buffer <+: far.buffer
  actions_end : near.actions <:+ far.actions

/-- What may change on a longer state: that an entry is out of range, and that there are no
separators for want of a second stack entry. -/
inductive Halt.Fleeting (near : State) : Halt → Prop
  | outOfRange (source : Source) (index : Nat) : Fleeting near (.skip (.outOfRange source index))
  | separator {property : Property} (separator : property.isSeparator = true)
      (short : near.stack.length < 2) : Fleeting near (.skip (.undefined property))

/-- An entry of a list is found at its place in a longer one. -/
theorem getElem?_eq_some_of_isPrefix {α : Type} {near far : List α} (start : near <+: far)
    {index : Nat} {item : α} (entry : near[index]? = some item) : far[index]? = some item := by
  obtain ⟨bound, rfl⟩ := List.getElem?_eq_some_iff.mp entry
  exact List.prefix_iff_getElem?.mp start index bound

namespace State.Extends

variable {far near : State} (longer : far.Extends near)

include longer

theorem tops_eq (long : 2 ≤ near.stack.length) :
    far.stack.reverse.take 2 = near.stack.reverse.take 2 := by
  obtain ⟨older, same⟩ := longer.stack_end.reverse
  rw [← List.length_reverse] at long
  rw [← same, List.take_append_of_le_length long]

/-- What an element selects on a state it selects on a longer one. -/
theorem select?_eq_some {element : Element} {focus : Focus}
    (selected : element.select? near = some focus) : element.select? far = some focus := by
  unfold Element.select? at selected ⊢
  cases own : element.source
  all_goals
    rw [own] at selected
    dsimp only at selected ⊢
    obtain ⟨entry, found, rfl⟩ := Option.map_eq_some_iff.mp selected
  case stack =>
    rw [getElem?_eq_some_of_isPrefix longer.stack_end.reverse found, Option.map_some]
  case buffer =>
    rw [getElem?_eq_some_of_isPrefix longer.buffer_start found, Option.map_some]
  case actions =>
    rw [getElem?_eq_some_of_isPrefix longer.actions_end.reverse found, Option.map_some]

theorem focus_keepsUnless (element : Element) :
    KeepsUnless (Halt.Fleeting near) (element.focus far) (element.focus near) := by
  unfold Element.focus
  cases selected : element.select? near with
  | none => exact Or.inl ⟨_, rfl, .outOfRange element.source element.index⟩
  | some focus =>
    rw [longer.select?_eq_some selected, longer.graph_eq]
    exact Or.inr rfl

/-- At one focus only the separators can come to be read where they were not. -/
theorem value_keepsUnless (focus : Focus) (property : Property) :
    KeepsUnless (Halt.Fleeting near) (property.value far focus) (property.value near focus) := by
  cases focus with
  | action action =>
    rw [Property.value_action, Property.value_action]
    exact Or.inr rfl
  | node id =>
    rw [Property.value_node, Property.value_node]
    by_cases missing : property.isSeparator = true ∧ near.stack.length < 2
    · obtain ⟨separator, short⟩ := missing
      rw [Property.nodeValue?_of_length_lt separator short id, Property.nodeValue?_eq,
        longer.graph_eq]
      cases near.graph.node id with
      | error cause => exact Or.inr rfl
      | ok node => exact Or.inl ⟨_, rfl, .separator separator short⟩
    · have topsEq : property.isSeparator = true →
          far.stack.reverse.take 2 = near.stack.reverse.take 2 := fun separator =>
        longer.tops_eq (Nat.le_of_not_lt fun short => missing ⟨separator, short⟩)
      rw [Property.nodeValue?_congr longer.graph_eq topsEq]
      exact Or.inr rfl

theorem values_keepsUnless (element : Element) (previous : Option Focus) :
    KeepsUnless (Halt.Fleeting near) (element.values far previous)
      (element.values near previous) := by
  rw [Element.values_eq, Element.values_eq, longer.graph_eq]
  apply (longer.focus_keepsUnless element).bind
  intro focus
  by_cases bare : element.isBare = true
  · rw [if_pos bare, if_pos bare]
    exact Or.inr rfl
  · rw [if_neg bare, if_neg bare]
    apply KeepsUnless.map
    exact KeepsUnless.mapM fun property _ => longer.value_keepsUnless focus property

/-- Up to the first element that is not kept, a row of elements is. -/
theorem allValues_keepsUnless (elements : List Element) (previous : Option Focus) :
    KeepsUnless (Halt.Fleeting near) (Element.allValues far previous elements)
      (Element.allValues near previous elements) := by
  induction elements generalizing previous with
  | nil => exact Or.inr rfl
  | cons element rest inductionHypothesis =>
    rw [Element.allValues_cons, Element.allValues_cons]
    apply (longer.values_keepsUnless element previous).bind
    rintro ⟨values, left⟩
    exact (inductionHypothesis left).map (values ++ ·)

end State.Extends

namespace Template

/-- On a state that is longer at the far ends a template has the outcome that it had before: the
values, an error, or a skip for any reason but an entry out of range and, if there were fewer than
two stack entries, an undefined separator property.  On a state that can be made over a graph
without cycles, answers from a correct memo table make no difference. -/
theorem near_end_decides {template : Template} {far near : State} (longer : far.Extends near)
    (lasting : ∀ halt, template.evaluate near = .error halt → ¬ halt.Fleeting near) :
    template.evaluate far = template.evaluate near ∧
      (far.Admissible → far.graph.Acyclic → ∀ memo : Memo, memo.Correct far.graph →
        ((template.read far : ExceptT Halt (StateM Memo) _).run.run memo).1 =
          template.evaluate near) := by
  have kept : template.evaluate far = template.evaluate near := by
    rcases longer.allValues_keepsUnless template.elements none with ⟨halt, halted, fleeting⟩ | kept
    · exact absurd fleeting (lasting halt halted)
    · exact kept
  refine ⟨kept, fun admissible acyclic memo correct => ?_⟩
  have sameHeads := Memo.agreement_sameHeads far.graph
  have sameYields := Memo.agreement_sameYields admissible.wellFormed acyclic
  rw [← kept]
  exact (Template.read_agree (fun _ => sameHeads) (fun _ => sameYields) memo correct).1

/-- A list of two names, of which the words after the second one are still to be read. -/
def namesSteps : List BuildStep :=
  [.terminal "John" "NNP", .punctuation "," ",", .terminal "Mary" "NNP", .terminal "left" "VBD",
    .punctuation "." "."]

/-- What is read with the second name alone on the stack is read with the first one below it as
well, but then there is a comma between the two which was not looked for before. -/
theorem near_end_decides_names :
    let word : Template := { name := "s0wb0wa0w", elements :=
      [⟨.stack, 0, [], [.text]⟩, ⟨.buffer, 0, [], [.text]⟩, ⟨.actions, 0, [], [.text]⟩] }
    let mark : Template := { name := "b0p", elements := [⟨.buffer, 0, [], [.separator]⟩] }
    let shift : Action := { kind := "SHIFT", tag? := none }
    ∃ graph, Graph.build namesSteps = .ok graph ∧
      let near : State := { graph, stack := [2], buffer := [3], actions := [shift] }
      let far : State := { graph, stack := [0, 2], buffer := [3, 4], actions := [shift, shift] }
      far.Extends near ∧ far.Admissible ∧ far.graph.Acyclic ∧
        word.evaluate near = .ok ["Mary", "left", "SHIFT"] ∧
        word.evaluate far = .ok ["Mary", "left", "SHIFT"] ∧
        mark.evaluate near = .error (.skip (.undefined .separator)) ∧
        mark.evaluate far = .ok [","] := by
  intro word mark shift
  obtain ⟨graph, built, size, wordRead, markMissing, markRead, down⟩ : ∃ graph,
      Graph.build namesSteps = .ok graph ∧ graph.nodes.size = 5 ∧
        word.evaluate ⟨graph, [2], [3], [shift]⟩ = .ok ["Mary", "left", "SHIFT"] ∧
        mark.evaluate ⟨graph, [2], [3], [shift]⟩ = .error (.skip (.undefined .separator)) ∧
        mark.evaluate ⟨graph, [0, 2], [3, 4], [shift, shift]⟩ = .ok [","] ∧
        ∀ edge ∈ graph.edges, edge.remote = false → edge.child < edge.parent :=
    ⟨_, rfl, rfl, rfl, rfl, rfl, by decide⟩
  refine ⟨graph, built, ?_⟩
  intro near far
  have longer : far.Extends near := ⟨rfl, ⟨[0], rfl⟩, ⟨[4], rfl⟩, ⟨[shift], rfl⟩⟩
  have stackKnown : ∀ id ∈ [0, 2], id < graph.nodes.size := by
    rw [size]
    decide
  have bufferKnown : ∀ id ∈ [3, 4], id < graph.nodes.size := by
    rw [size]
    decide
  have admissible : far.Admissible := ⟨⟨namesSteps, built⟩, stackKnown, bufferKnown⟩
  have acyclic : far.graph.Acyclic := Graph.acyclic_of_child_lt_parent down
  have present : ∀ halt, word.evaluate near = .error halt → ¬ halt.Fleeting near := by
    intro halt halted
    cases wordRead.symm.trans halted
  have kept := (near_end_decides longer present).1
  exact ⟨longer, admissible, acyclic, wordRead, kept.trans wordRead, markMissing, markRead⟩

end Template

end TransitionFeatures
