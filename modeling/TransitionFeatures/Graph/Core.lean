/-!
# Annotation graphs

Nodes and edges are numbered in creation order.  A node stores the numbers of
its outgoing and incoming edges, again in creation order, so that both ends of
an edge can be found from either side.  A node is either a token of the sentence
or a unit above the tokens; tokens have a position in the sentence.

All look-ups are checked: a number outside the graph is a `Fault`.
-/

namespace TransitionFeatures

/-- The place of a node in creation order. -/
abbrev NodeId := Nat

/-- The place of an edge in creation order. -/
abbrev EdgeId := Nat

/-- A look-up that finds nothing, or a walk through a graph that is not in order. -/
inductive Fault
  | unknownNode (node : NodeId)
  | unknownEdge (edge : EdgeId)
  /-- A set has no template at a place. -/
  | unknownTemplate (template : Nat)
  /-- A descent along primary edges went on for longer than the graph has nodes. -/
  | endless
  /-- Two positions that had to be in ascending order are not. -/
  | unordered (earlier later : Nat)
  deriving DecidableEq

/-- A word or punctuation mark of the sentence. -/
structure Token where
  text : String
  partOfSpeech : String
  punctuation : Bool
  position : Nat
  deriving DecidableEq

/-- A node is a token or a unit; an implicit unit has no surface realisation. -/
inductive Content
  | token (token : Token)
  | unit (implicit : Bool)
  deriving DecidableEq

/-- The category of a node. -/
inductive Category
  | word
  | punctuation
  | foundational
  deriving DecidableEq

/-- A node with the numbers of its edges in creation order. -/
structure Node where
  content : Content
  outgoing : List EdgeId
  incoming : List EdgeId
  deriving DecidableEq

namespace Node

/-- The token at a node; a unit has none. -/
def token? (node : Node) : Option Token :=
  match node.content with
  | .token token => some token
  | .unit _ => none

/-- Surface text of a token. -/
def text? (node : Node) : Option String :=
  node.token?.map Token.text

/-- Part of speech of a token. -/
def partOfSpeech? (node : Node) : Option String :=
  node.token?.map Token.partOfSpeech

/-- Sentence position of a token. -/
def position? (node : Node) : Option Nat :=
  node.token?.map Token.position

/-- Terminals are the nodes that hold a token. -/
def isTerminal (node : Node) : Bool :=
  node.token?.isSome

/-- Whether a node holds a punctuation mark. -/
def isPunctuation (node : Node) : Bool :=
  node.token?.any Token.punctuation

/-- Whether a node is a unit without surface realisation. -/
def isImplicit (node : Node) : Bool :=
  match node.content with
  | .token _ => false
  | .unit implicit => implicit

/-- Tokens are words or punctuation; all units are foundational. -/
def category (node : Node) : Category :=
  match node.content with
  | .token token => if token.punctuation then .punctuation else .word
  | .unit _ => .foundational

theorem isTerminal_eq_isSome_position? (node : Node) :
    node.isTerminal = node.position?.isSome := by
  simp [isTerminal, position?]

/-- A node without edges. -/
def isolated (content : Content) : Node :=
  { content, outgoing := [], incoming := [] }

end Node

/-- A labelled edge.  Remote edges are secondary: heads and yields are found
along the primary ones alone. -/
structure Edge where
  tag : String
  parent : NodeId
  child : NodeId
  remote : Bool
  deriving DecidableEq

/-- An annotation graph.  `terminals` lists the terminals in sentence order. -/
structure Graph where
  nodes : Array Node
  edges : Array Edge
  terminals : Array NodeId

namespace Graph

/-- The graph without nodes. -/
def empty : Graph :=
  { nodes := #[], edges := #[], terminals := #[] }

/-- Look a node up. -/
def node (graph : Graph) (id : NodeId) : Except Fault Node :=
  match graph.nodes[id]? with
  | some node => .ok node
  | none => .error (.unknownNode id)

/-- Look an edge up. -/
def edge (graph : Graph) (id : EdgeId) : Except Fault Edge :=
  match graph.edges[id]? with
  | some edge => .ok edge
  | none => .error (.unknownEdge id)

theorem node_eq_ok_iff {graph : Graph} {id : NodeId} {found : Node} :
    graph.node id = .ok found ↔ graph.nodes[id]? = some found := by
  unfold node
  split <;> simp_all

theorem exists_node_iff {graph : Graph} {id : NodeId} :
    (∃ found, graph.node id = .ok found) ↔ id < graph.nodes.size := by
  simp only [node_eq_ok_iff, Array.getElem?_eq_some_iff]
  exact ⟨fun ⟨_, bound, _⟩ => bound, fun bound => ⟨_, bound, rfl⟩⟩

theorem edge_eq_ok_iff {graph : Graph} {id : EdgeId} {found : Edge} :
    graph.edge id = .ok found ↔ graph.edges[id]? = some found := by
  unfold edge
  split <;> simp_all

/-- The edges that leave a node, in creation order. -/
def outEdges (graph : Graph) (id : NodeId) : Except Fault (List Edge) := do
  (← graph.node id).outgoing.mapM graph.edge

/-- The edges that enter a node, in creation order. -/
def inEdges (graph : Graph) (id : NodeId) : Except Fault (List Edge) := do
  (← graph.node id).incoming.mapM graph.edge

/-- The lower ends of the edges that leave a node, remote ones and repetitions
included. -/
def children (graph : Graph) (id : NodeId) : Except Fault (List NodeId) := do
  return (← graph.outEdges id).map Edge.child

/-- The upper ends of the edges that enter a node, remote ones and repetitions
included. -/
def parents (graph : Graph) (id : NodeId) : Except Fault (List NodeId) := do
  return (← graph.inEdges id).map Edge.parent

/-- The nodes at the lower ends of the edges that leave a node. -/
def childNodes (graph : Graph) (id : NodeId) : Except Fault (List Node) := do
  (← graph.children id).mapM graph.node

/-- The first edge into a node. -/
def firstInEdge? (graph : Graph) (id : NodeId) : Except Fault (Option Edge) := do
  return (← graph.inEdges id).head?

/-- The terminals strictly between two sentence positions.  There is no such
stretch of the sentence if `second` does not come after `first` or lies beyond
its end. -/
def terminalsBetween? (graph : Graph) (first second : Nat) : Option (List NodeId) :=
  if first + 1 ≤ second ∧ second ≤ graph.terminals.size then
    some (graph.terminals.extract (first + 1) second).toList
  else none

theorem terminalsBetween?_eq_none_iff {graph : Graph} {first second : Nat} :
    graph.terminalsBetween? first second = none ↔
      second ≤ first ∨ graph.terminals.size < second := by
  unfold terminalsBetween?
  split <;> simp <;> omega

end Graph

end TransitionFeatures
