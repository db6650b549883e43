import Mathlib.Data.Finset.Card
import Mathlib.Data.List.Permutation
import TransitionFeatures.Proofs.Evaluation.Separator

/-!
# What the separators read

The two separator properties do not look at the focus.  They count the punctuation marks between
the heads of the two stack tops, and take the text of the only one, so they are defined if and
only if there are two such heads and, for the text, one such mark.  The tops may be exchanged, and
nothing else of the state has a say: `State.separators_between_heads`.
-/

namespace TransitionFeatures

open DerivedData

namespace Graph

variable {graph : Graph} {first second : Nat}

/-! ## Marks between two positions -/

/-- A node is a punctuation mark whose position lies strictly between two positions, whichever
of them comes first. -/
def IsMarkBetween (graph : Graph) (first second : Nat) (id : NodeId) : Prop :=
  ∃ node position, graph.node id = .ok node ∧ node.isPunctuation = true ∧
    node.position? = some position ∧ min first second < position ∧ position < max first second

open Classical in
/-- The punctuation marks of the sentence strictly between two positions. -/
noncomputable def marksBetween (graph : Graph) (first second : Nat) : Finset NodeId :=
  (Finset.range graph.nodes.size).filter (graph.IsMarkBetween first second)

@[simp]
theorem mem_marksBetween {id : NodeId} :
    id ∈ graph.marksBetween first second ↔ graph.IsMarkBetween first second id := by
  simp only [marksBetween, Finset.mem_filter, Finset.mem_range, and_iff_right_iff_imp]
  rintro ⟨node, _, found, _⟩
  exact exists_node_iff.mp ⟨node, found⟩

/-- Whether a node of the graph is a punctuation mark. -/
def isMark (graph : Graph) (id : NodeId) : Bool :=
  graph.nodes[id]?.any Node.isPunctuation

theorem isMark_eq_isPunctuation {id : NodeId} {node : Node} (found : graph.node id = .ok node) :
    graph.isMark id = node.isPunctuation := by
  rw [isMark, node_eq_ok_iff.mp found, Option.any_some]

theorem punctuationBetween_comm (graph : Graph) (first second : Nat) :
    graph.punctuationBetween first second = graph.punctuationBetween second first := by
  unfold punctuationBetween
  rw [Nat.min_comm, Nat.max_comm]

theorem punctuationBetween_eq_ok_iff {marks : List Node} :
    graph.punctuationBetween first second = .ok marks ↔
      ∃ nodes, ((graph.terminalsBetween? (min first second) (max first second)).getD []).mapM
        graph.node = .ok nodes ∧ nodes.filter Node.isPunctuation = marks := by
  unfold punctuationBetween
  exact map_eq_ok_iff

/-- A node without a head has none whose position could be taken. -/
theorem run_headPosition?_of_none {id : NodeId} (found : graph.head id = .ok none) :
    Id.run (graph.headPosition? id).run = .ok none := by
  rw [run_headPosition?, run_headNode?, found]
  rfl

namespace WellFormed

variable (wellFormed : graph.WellFormed)

include wellFormed

/-- A stretch holds no terminal twice. -/
theorem nodup_terminalsBetween? : ((graph.terminalsBetween? first second).getD []).Nodup := by
  have all : graph.terminals.toList.Nodup := by
    rw [List.nodup_iff_getElem?_ne_getElem?]
    intro earlier later before bound same
    rw [Array.getElem?_toList, Array.getElem?_toList] at same
    have entry := Array.getElem?_eq_getElem bound
    exact before.ne (wellFormed.position_unique (same.trans entry) entry)
  unfold terminalsBetween?
  split
  · rw [Option.getD_some, Array.toList_extract, List.extract_eq_take_drop]
    exact all.sublist ((List.take_sublist _ _).trans (List.drop_sublist _ _))
  · exact List.nodup_nil

omit wellFormed in
/-- Between two positions of the sentence stand the terminals of the positions between. -/
theorem mem_terminalsBetween?_iff (bound : second ≤ graph.terminals.size) {token : NodeId} :
    token ∈ (graph.terminalsBetween? first second).getD [] ↔
      ∃ position, first < position ∧ position < second ∧
        graph.terminals[position]? = some token := by
  cases stretch : graph.terminalsBetween? first second with
  | some between => exact mem_iff_of_terminalsBetween?_eq_some stretch
  | none =>
    have notAfter : second ≤ first := by
      rcases terminalsBetween?_eq_none_iff.mp stretch with notAfter | beyond
      · exact notAfter
      · omega
    simp only [Option.getD_none, List.not_mem_nil, false_iff, not_exists]
    omega

/-- The terminals that are sifted out of a stretch are the marks between its ends. -/
theorem toFinset_filter_terminalsBetween? (firstBound : first < graph.terminals.size)
    (secondBound : second < graph.terminals.size) :
    (((graph.terminalsBetween? (min first second) (max first second)).getD []).filter
      graph.isMark).toFinset = graph.marksBetween first second := by
  have bound : max first second ≤ graph.terminals.size := by omega
  ext id
  rw [List.mem_toFinset, List.mem_filter, mem_terminalsBetween?_iff bound, mem_marksBetween]
  simp only [wellFormed.terminals_iff, IsMarkBetween]
  constructor
  · rintro ⟨⟨position, after, before, node, entry, place⟩, mark⟩
    have found := node_eq_ok_iff.mpr entry
    rw [isMark_eq_isPunctuation found] at mark
    exact ⟨node, position, found, mark, place, after, before⟩
  · rintro ⟨node, position, found, mark, place, after, before⟩
    rw [isMark_eq_isPunctuation found]
    exact ⟨⟨position, after, before, node, node_eq_ok_iff.mp found, place⟩, mark⟩

/-- The marks that are found are those of the sentence between the two positions. -/
theorem exists_marks (firstBound : first < graph.terminals.size)
    (secondBound : second < graph.terminals.size) :
    ∃ marks, graph.punctuationBetween first second = .ok marks ∧
      marks.length = (graph.marksBetween first second).card ∧
      ∀ node ∈ marks, ∃ id ∈ graph.marksBetween first second, graph.node id = .ok node := by
  obtain ⟨marks, found⟩ := wellFormed.exists_punctuationBetween_eq_ok first second
  refine ⟨marks, found, ?_⟩
  obtain ⟨nodes, looked, rfl⟩ := punctuationBetween_eq_ok_iff.mp found
  rw [← wellFormed.toFinset_filter_terminalsBetween? firstBound secondBound]
  constructor
  · rw [List.toFinset_card_of_nodup (wellFormed.nodup_terminalsBetween?.filter _)]
    exact length_filter_of_mapM_eq_ok looked fun _ _ => isMark_eq_isPunctuation
  · intro node member
    obtain ⟨nodeMember, mark⟩ := List.mem_filter.mp member
    obtain ⟨id, idMember, idFound⟩ := (mem_iff_of_mapM_eq_ok looked).mp nodeMember
    rw [← isMark_eq_isPunctuation idFound] at mark
    exact ⟨id, List.mem_toFinset.mpr (List.mem_filter.mpr ⟨idMember, mark⟩), idFound⟩

end WellFormed

end Graph

/-! ## The two tops -/

namespace State

/-- The positions of the heads of the two topmost stack entries, that of the top first. -/
def TopPositions (state : State) (first second : Nat) : Prop :=
  ∃ head other, state.TopHeads head other ∧ state.graph.terminals[first]? = some head ∧
    state.graph.terminals[second]? = some other

/-- Two states over one graph with the same two topmost stack entries, in either order. -/
structure SameTops (first second : State) : Prop where
  graph_eq : first.graph = second.graph
  tops_perm : (first.stack.reverse.take 2).Perm (second.stack.reverse.take 2)

theorem SameTops.symm {first second : State} (same : first.SameTops second) :
    second.SameTops first where
  graph_eq := same.graph_eq.symm
  tops_perm := same.tops_perm.symm

variable {state : State}

theorem topHeads_iff {head other : NodeId} :
    state.TopHeads head other ↔
      ∃ top second, state.stack.reverse.take 2 = [top, second] ∧
        state.graph.head top = .ok (some head) ∧ state.graph.head second = .ok (some other) := by
  constructor
  · rintro ⟨top, second, deeper, entries, heads⟩
    exact ⟨top, second, by rw [entries]; rfl, heads⟩
  · rintro ⟨top, second, tops, heads⟩
    refine ⟨top, second, state.stack.reverse.drop 2, ?_, heads⟩
    rw [← List.take_append_drop 2 state.stack.reverse, tops]
    simp

/-- Tops that are exchanged exchange their heads. -/
theorem SameTops.topPositions {other : State} (same : state.SameTops other) {first second : Nat}
    (places : state.TopPositions first second) :
    other.TopPositions first second ∨ other.TopPositions second first := by
  obtain ⟨head, otherHead, heads, entry, otherEntry⟩ := places
  obtain ⟨top, below, tops, topHead, belowHead⟩ := topHeads_iff.mp heads
  have perm := same.tops_perm
  rw [tops] at perm
  rw [same.graph_eq] at entry otherEntry topHead belowHead
  rcases List.perm_pair.mp perm.symm with kept | exchanged
  · exact Or.inl ⟨head, otherHead, topHeads_iff.mpr ⟨top, below, kept, topHead, belowHead⟩,
      entry, otherEntry⟩
  · exact Or.inr ⟨otherHead, head, topHeads_iff.mpr ⟨below, top, exchanged, belowHead, topHead⟩,
      otherEntry, entry⟩

namespace Admissible

variable (admissible : state.Admissible)

include admissible

/-- Heads have positions. -/
theorem exists_topPositions {head other : NodeId} (heads : state.TopHeads head other) :
    ∃ first second, state.TopPositions first second := by
  obtain ⟨first, second, entry, otherEntry, _⟩ := admissible.exists_separators?_eq heads
  exact ⟨first, second, head, other, heads, entry, otherEntry⟩

/-- The separators are the marks between the positions of the two heads. -/
theorem run_separators?_of_topPositions {first second : Nat}
    (places : state.TopPositions first second) :
    Id.run state.separators?.run =
      (state.graph.punctuationBetween first second).map some := by
  obtain ⟨head, other, heads, entry, otherEntry⟩ := places
  obtain ⟨place, otherPlace, placeEntry, otherPlaceEntry, separated, _⟩ :=
    admissible.exists_separators?_eq heads
  rw [separated, admissible.wellFormed.position_unique entry placeEntry,
    admissible.wellFormed.position_unique otherEntry otherPlaceEntry]

theorem exists_marks_of_topPositions {first second : Nat}
    (places : state.TopPositions first second) :
    ∃ marks, Id.run state.separators?.run = .ok (some marks) ∧
      marks.length = (state.graph.marksBetween first second).card ∧
      ∀ node ∈ marks, ∃ id ∈ state.graph.marksBetween first second,
        state.graph.node id = .ok node := by
  obtain ⟨head, other, _, entry, otherEntry⟩ := id places
  obtain ⟨marks, found, counted⟩ := admissible.wellFormed.exists_marks
    (Array.getElem?_eq_some_iff.mp entry).1 (Array.getElem?_eq_some_iff.mp otherEntry).1
  refine ⟨marks, ?_, counted⟩
  rw [admissible.run_separators?_of_topPositions places, found]
  rfl

variable (acyclic : state.graph.Acyclic)

include acyclic

/-- Without two heads there are no separators. -/
theorem run_separators?_of_not_topPositions
    (noPlaces : ∀ first second, ¬ state.TopPositions first second) :
    Id.run state.separators?.run = .ok none := by
  have wellFormed := admissible.wellFormed
  unfold separators?
  split
  · rename_i top second deeper entries
    obtain ⟨topKnown, secondKnown⟩ := admissible.tops_lt entries
    obtain ⟨head?, headFound, _⟩ := wellFormed.exists_head_eq_ok acyclic topKnown
    obtain ⟨other?, otherFound, _⟩ := wellFormed.exists_head_eq_ok acyclic secondKnown
    cases head? with
    | none =>
      rw [run_bind, Graph.run_headPosition?_of_none headFound]
      rfl
    | some head =>
      obtain ⟨place, _, atPlace⟩ := wellFormed.exists_headPosition?_eq_ok topKnown headFound
      cases other? with
      | none =>
        rw [run_bind, atPlace]
        simp only [Except.bind]
        rw [run_bind, Graph.run_headPosition?_of_none otherFound]
        rfl
      | some other =>
        obtain ⟨first, second, places⟩ := admissible.exists_topPositions
          ⟨_, _, _, entries, headFound, otherFound⟩
        exact absurd places (noPlaces first second)
  · rfl

/-- States with the same tops have the same separators. -/
theorem run_separators?_eq_of_sameTops {other : State} (otherAdmissible : other.Admissible)
    (same : state.SameTops other) :
    Id.run other.separators?.run = Id.run state.separators?.run := by
  by_cases places : ∃ first second, state.TopPositions first second
  · obtain ⟨first, second, places⟩ := places
    rw [admissible.run_separators?_of_topPositions places, same.graph_eq]
    rcases same.topPositions places with kept | exchanged
    · exact otherAdmissible.run_separators?_of_topPositions kept
    · rw [otherAdmissible.run_separators?_of_topPositions exchanged,
        Graph.punctuationBetween_comm]
  · simp only [not_exists] at places
    rw [admissible.run_separators?_of_not_topPositions acyclic places]
    apply otherAdmissible.run_separators?_of_not_topPositions (same.graph_eq ▸ acyclic)
    intro first second otherPlaces
    rcases same.symm.topPositions otherPlaces with kept | exchanged
    · exact places _ _ kept
    · exact places _ _ exchanged

end Admissible

end State

/-! ## Readings -/

/-- On an admissible state an element of the stack or the buffer looks at a known node. -/
theorem State.Admissible.exists_node_of_source_ne_actions {state : State}
    (admissible : state.Admissible) {element : Element} {focus : Focus}
    (source : element.source ≠ .actions) (focused : element.focus state = .ok focus) :
    ∃ id node, focus = .node id ∧ state.graph.node id = .ok node := by
  have ends : FaultsOnlyIf False (Focus.Known state.graph) (element.focus state) :=
    admissible.focus_faultsOnlyIf element
  rw [focused] at ends
  have known : focus.Known state.graph := ends
  cases focus with
  | node id =>
    obtain ⟨node, looked⟩ := Graph.exists_node_of_lt (known id rfl)
    exact ⟨id, node, rfl, looked⟩
  | action action => exact absurd (Element.source_eq_actions_of_focus_eq_action focused) source

namespace Property

/-- What a separator property reads off the separators. -/
def ofSeparators (separators? : Option (List Node)) : Property → Option String
  | separator => match separators? with
    | some [only] => only.text?
    | _ => none
  | separatorCount => separators?.map fun separators => toString separators.length
  | _ => none

section Separators

variable {state : State} {property : Property} (separator : property.isSeparator = true)
  {separators? : Option (List Node)} (found : Id.run state.separators?.run = .ok separators?)

include separator found

theorem knownValue?_of_separators? (id : NodeId) (node : Node) :
    property.knownValue? state id node = .ok (property.ofSeparators separators?) := by
  cases property with
  | separator =>
    rw [knownValue?, atKnownNode, run_bind, found]
    rcases separators? with nothing | nil | ⟨only, nil | ⟨other, rest⟩⟩
    all_goals rfl
  | separatorCount =>
    rw [knownValue?, atKnownNode, run_bind, found]
    rfl
  | _ => cases separator

/-- A separator property reads the separators at every node that is found. -/
theorem value_of_separators? (id : NodeId) :
    property.value state (.node id) = (Halt.lookUp (state.graph.node id)).bind fun _ =>
      property.orSkip (property.ofSeparators separators?) := by
  rw [value_node, nodeValue?_eq]
  simp only [knownValue?_of_separators? separator found]
  cases state.graph.node id <;> rfl

theorem value_of_separators?_of_node {id : NodeId} {node : Node}
    (looked : state.graph.node id = .ok node) :
    property.value state (.node id) = property.orSkip (property.ofSeparators separators?) := by
  rw [value_of_separators? separator found, looked]
  rfl

end Separators

variable {property : Property}

theorem orSkip_eq_ok_iff {value? : Option String} {value : String} :
    property.orSkip value? = .ok value ↔ value? = some value := by
  cases value? <;> simp [orSkip]

/-- A text is read off one mark only. -/
theorem ofSeparators_separator_eq_some_iff {separators? : Option (List Node)} {text : String} :
    Property.separator.ofSeparators separators? = some text ↔
      ∃ only : Node, separators? = some [only] ∧ only.text? = some text := by
  rcases separators? with nothing | nil | ⟨only, nil | ⟨other, rest⟩⟩
  all_goals simp [ofSeparators]

end Property

theorem Node.exists_text_of_isPunctuation {node : Node} (mark : node.isPunctuation = true) :
    ∃ text, node.text? = some text := by
  obtain ⟨token, held, _⟩ := (Option.any_eq_true _ _).mp mark
  exact ⟨token.text, by rw [text?, held, Option.map_some]⟩

namespace State

namespace Admissible

variable {state : State} (admissible : state.Admissible)

include admissible

section Places

variable {first second : Nat} (places : state.TopPositions first second) {id : NodeId}
  {node : Node} (looked : state.graph.node id = .ok node)

include places looked

/-- Between two heads the marks are counted. -/
theorem value_separatorCount :
    Property.separatorCount.value state (.node id) =
      .ok (toString (state.graph.marksBetween first second).card) := by
  obtain ⟨marks, found, counted, _⟩ := admissible.exists_marks_of_topPositions places
  rw [Property.value_of_separators?_of_node rfl found looked, ← counted]
  rfl

/-- The text of the one mark between two heads is read. -/
theorem exists_value_separator {mark : NodeId}
    (single : state.graph.marksBetween first second = {mark}) :
    ∃ only text, state.graph.node mark = .ok only ∧ only.text? = some text ∧
      Property.separator.value state (.node id) = .ok text := by
  obtain ⟨marks, found, counted, located⟩ := admissible.exists_marks_of_topPositions places
  rw [single, Finset.card_singleton, List.length_eq_one_iff] at counted
  obtain ⟨only, rfl⟩ := counted
  obtain ⟨other, member, markLooked⟩ := located only List.mem_cons_self
  obtain ⟨_, _, otherLooked, isMark, _⟩ := Graph.mem_marksBetween.mp member
  rw [single, Finset.mem_singleton] at member
  subst member
  cases markLooked.symm.trans otherLooked
  obtain ⟨text, held⟩ := only.exists_text_of_isPunctuation isMark
  refine ⟨only, text, markLooked, held, ?_⟩
  rw [Property.value_of_separators?_of_node rfl found looked, Property.orSkip_eq_ok_iff]
  exact held

/-- No text is read if there is not one mark. -/
theorem card_marksBetween_of_value_separator {text : String}
    (read : Property.separator.value state (.node id) = .ok text) :
    (state.graph.marksBetween first second).card = 1 := by
  obtain ⟨marks, found, counted, _⟩ := admissible.exists_marks_of_topPositions places
  rw [Property.value_of_separators?_of_node rfl found looked, Property.orSkip_eq_ok_iff,
    Property.ofSeparators_separator_eq_some_iff] at read
  obtain ⟨only, same, _⟩ := read
  cases same
  exact counted.symm

end Places

variable (acyclic : state.graph.Acyclic) {id : NodeId} {node : Node}
  (looked : state.graph.node id = .ok node)

include acyclic looked

/-- A separator property that is read has two heads to look between. -/
theorem exists_topPositions_of_value {property : Property} (separator : property.isSeparator = true)
    {value : String} (read : property.value state (.node id) = .ok value) :
    ∃ first second, state.TopPositions first second := by
  by_contra places
  simp only [not_exists] at places
  have nothing := admissible.run_separators?_of_not_topPositions acyclic places
  rw [Property.value_of_separators?_of_node separator nothing looked] at read
  cases property <;> cases read

/-- A separator property that is not read is undefined. -/
theorem value_eq_ok_or_undefined {property : Property}
    (separator : property.isSeparator = true) :
    (∃ value, property.value state (.node id) = .ok value) ∨
      property.value state (.node id) = .error (.skip (.undefined property)) := by
  obtain ⟨separators?, found, _⟩ :=
    admissible.separators?_endsUnless.exists_eq_ok (not_not_intro acyclic)
  rw [Property.value_of_separators?_of_node separator found looked]
  cases property.ofSeparators separators? with
  | some value => exact Or.inl ⟨value, rfl⟩
  | none => exact Or.inr rfl

end Admissible

/-- How the two separator properties are read at a focus. -/
structure ReadsSeparators (state : State) (focus : Focus) : Prop where
  /-- There is a count if and only if the two topmost stack entries have heads, and then it counts
  the punctuation marks strictly between their positions. -/
  count_defined : (∃ value, Property.separatorCount.value state focus = .ok value) ↔
    ∃ head other, state.TopHeads head other
  positions : ∀ head other, state.TopHeads head other →
    ∃ first second, state.TopPositions first second
  count : ∀ first second, state.TopPositions first second →
    Property.separatorCount.value state focus =
      .ok (toString (state.graph.marksBetween first second).card)
  /-- There is a text if and only if there is one such mark, and then it is the text of this one. -/
  text_defined : (∃ value, Property.separator.value state focus = .ok value) ↔
    ∃ first second, state.TopPositions first second ∧
      (state.graph.marksBetween first second).card = 1
  text : ∀ first second mark, state.TopPositions first second →
    state.graph.marksBetween first second = {mark} → ∃ node text, state.graph.node mark = .ok node ∧
      node.text? = some text ∧ Property.separator.value state focus = .ok text
  /-- What is not defined skips the template. -/
  undefined : ∀ property : Property, property.isSeparator = true →
    (∃ value, property.value state focus = .ok value) ∨
      property.value state focus = .error (.skip (.undefined property))
  /-- Every stack or buffer element reads the same, on this state and on all with these tops. -/
  same : ∀ other : State, other.Admissible → state.SameTops other →
    ∀ (element : Element) (otherFocus : Focus), element.source ≠ .actions →
      element.focus other = .ok otherFocus →
        ∀ property : Property, property.isSeparator = true →
          property.value other otherFocus = property.value state focus
  /-- Answers from a correct memo table make no difference. -/
  kept : ∀ property : Property, property.isSeparator = true →
    ∀ memo : Memo, memo.Correct state.graph →
      ((property.read state focus : ExceptT Halt (StateM Memo) String).run.run memo).1 =
        property.value state focus

/-- On every state that can be made over a graph without cycles the separators are read at a focus
in the stack or the buffer as the punctuation marks between the heads of the two stack tops. -/
theorem separators_between_heads {state : State} (admissible : state.Admissible)
    (acyclic : state.graph.Acyclic) {element : Element} (source : element.source ≠ .actions)
    {focus : Focus} (focused : element.focus state = .ok focus) : state.ReadsSeparators focus := by
  obtain ⟨id, node, rfl, looked⟩ := admissible.exists_node_of_source_ne_actions source focused
  constructor
  case positions => exact fun _ _ => admissible.exists_topPositions
  case count => exact fun _ _ places => admissible.value_separatorCount places looked
  case count_defined =>
    constructor
    · rintro ⟨value, read⟩
      obtain ⟨_, _, head, other, heads, _⟩ :=
        admissible.exists_topPositions_of_value acyclic looked rfl read
      exact ⟨head, other, heads⟩
    · rintro ⟨head, other, heads⟩
      obtain ⟨first, second, places⟩ := admissible.exists_topPositions heads
      exact ⟨_, admissible.value_separatorCount places looked⟩
  case text =>
    exact fun _ _ _ places single => admissible.exists_value_separator places looked single
  case text_defined =>
    constructor
    · rintro ⟨value, read⟩
      obtain ⟨first, second, places⟩ :=
        admissible.exists_topPositions_of_value acyclic looked rfl read
      exact ⟨first, second, places,
        admissible.card_marksBetween_of_value_separator places looked read⟩
    · rintro ⟨first, second, places, one⟩
      obtain ⟨mark, single⟩ := Finset.card_eq_one.mp one
      obtain ⟨_, text, _, _, read⟩ := admissible.exists_value_separator places looked single
      exact ⟨text, read⟩
  case undefined =>
    exact fun _ separator => admissible.value_eq_ok_or_undefined acyclic looked separator
  case same =>
    intro other otherAdmissible tops otherElement otherFocus otherSource otherFocused property
      separator
    obtain ⟨otherId, otherNode, rfl, otherLooked⟩ :=
      otherAdmissible.exists_node_of_source_ne_actions otherSource otherFocused
    obtain ⟨separators?, found, _⟩ :=
      admissible.separators?_endsUnless.exists_eq_ok (not_not_intro acyclic)
    have otherFound := admissible.run_separators?_eq_of_sameTops acyclic otherAdmissible tops
    rw [Property.value_of_separators?_of_node separator found looked,
      Property.value_of_separators?_of_node separator (otherFound.trans found) otherLooked]
  case kept =>
    intro property separator memo correct
    have sameHeads := Memo.agreement_sameHeads state.graph
    have sameYields := Memo.agreement_sameYields admissible.wellFormed acyclic
    exact (Property.read_agree (fun _ _ => sameHeads) (fun _ _ => sameYields) memo correct).1

/-- How two coordinated names are annotated, each under a unit of its own. -/
def coordinationSteps : List BuildStep :=
  [.terminal "John" "NNP", .punctuation "," ",", .terminal "Mary" "NNP", .punctuation "." ".",
    .unit, .unit, .edge EdgeTag.center 4 0, .edge EdgeTag.center 5 2]

/-- Both units on the stack with the full stop below them, and the comma in the buffer. -/
def coordination : State where
  graph :=
    { nodes := #[
        { content := .token ⟨"John", "NNP", false, 0⟩, outgoing := [], incoming := [0] },
        { content := .token ⟨",", ",", true, 1⟩, outgoing := [], incoming := [] },
        { content := .token ⟨"Mary", "NNP", false, 2⟩, outgoing := [], incoming := [1] },
        { content := .token ⟨".", ".", true, 3⟩, outgoing := [], incoming := [] },
        { content := .unit false, outgoing := [0], incoming := [] },
        { content := .unit false, outgoing := [1], incoming := [] }]
      edges := #[⟨"C", 4, 0, false⟩, ⟨"C", 5, 2, false⟩]
      terminals := #[0, 1, 2, 3] }
  stack := [3, 4, 5]
  buffer := [1]
  actions := []

/-- At the buffer the one comma between the two names is read, and at the first name it is still
read when the units are exchanged and nothing else is left. -/
theorem separators_between_heads_coordination :
    let atBuffer : Element := ⟨.buffer, 0, [], [.separatorCount, .separator]⟩
    let atName : Element := ⟨.stack, 0, [.onlyChild], [.separator]⟩
    let exchanged : State := { coordination with stack := [5, 4], buffer := [] }
    coordination.Admissible ∧ coordination.graph.Acyclic ∧ atBuffer.source ≠ .actions ∧
      atBuffer.focus coordination = .ok (.node 1) ∧ atName.focus exchanged = .ok (.node 0) ∧
      Property.separatorCount.value coordination (.node 1) = .ok "1" ∧
      Property.separator.value coordination (.node 1) = .ok "," ∧
      (∃ first second, coordination.TopPositions first second ∧
        (coordination.graph.marksBetween first second).card = 1) ∧
      Property.separator.value exchanged (.node 0) = .ok "," := by
  intro atBuffer atName exchanged
  have admissible : coordination.Admissible :=
    { built := ⟨coordinationSteps, rfl⟩
      stack_lt := by decide
      buffer_lt := by decide }
  have exchangedAdmissible : exchanged.Admissible :=
    { built := ⟨coordinationSteps, rfl⟩
      stack_lt := by decide
      buffer_lt := by decide }
  have acyclic : coordination.graph.Acyclic := Graph.acyclic_of_child_lt_parent (by decide)
  have focused : atBuffer.focus coordination = .ok (.node 1) := rfl
  have exchangedFocused : atName.focus exchanged = .ok (.node 0) := rfl
  have tops : coordination.SameTops exchanged := ⟨rfl, by decide⟩
  have text : Property.separator.value coordination (.node 1) = .ok "," := rfl
  have reads := separators_between_heads admissible acyclic (by decide) focused
  refine ⟨admissible, acyclic, by decide, focused, exchangedFocused, rfl, text,
    reads.text_defined.mp ⟨",", text⟩, ?_⟩
  rw [reads.same exchanged exchangedAdmissible tops atName _ (by decide) exchangedFocused
    .separator rfl]
  exact text

end State

end TransitionFeatures
