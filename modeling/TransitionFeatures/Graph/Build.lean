import TransitionFeatures.Graph.Core

/-!
# Building annotation graphs

Graphs grow by single nodes and edges and nothing is ever removed.  A new node
or edge takes the next number, a new terminal also the next sentence position.
Adding a node always succeeds; adding an edge fails if one of its ends is not a
node of the graph.  A `BuildStep` is one such addition and `build` runs a list of
them from the empty graph.
-/

namespace TransitionFeatures

namespace Node

/-- Enter an edge that leaves a node. -/
def addOutgoing (node : Node) (edge : EdgeId) : Node :=
  { node with outgoing := node.outgoing ++ [edge] }

/-- Enter an edge that enters a node. -/
def addIncoming (node : Node) (edge : EdgeId) : Node :=
  { node with incoming := node.incoming ++ [edge] }

end Node

namespace Graph

/-- Add a node without edges. -/
def push (graph : Graph) (content : Content) : Graph :=
  { graph with nodes := graph.nodes.push (.isolated content) }

@[simp]
theorem push_nodes (graph : Graph) (content : Content) :
    (graph.push content).nodes = graph.nodes.push (.isolated content) :=
  rfl

@[simp]
theorem push_edges (graph : Graph) (content : Content) :
    (graph.push content).edges = graph.edges :=
  rfl

@[simp]
theorem push_terminals (graph : Graph) (content : Content) :
    (graph.push content).terminals = graph.terminals :=
  rfl

/-- Add a terminal at the next sentence position. -/
def pushToken (graph : Graph) (text partOfSpeech : String) (punctuation : Bool) :
    Graph :=
  let position := graph.terminals.size
  { graph.push (.token { text, partOfSpeech, punctuation, position }) with
    terminals := graph.terminals.push graph.nodes.size }

/-- Add a word. -/
def addTerminal (graph : Graph) (text partOfSpeech : String) : Graph :=
  graph.pushToken text partOfSpeech false

/-- Add a punctuation mark. -/
def addPunctuation (graph : Graph) (text partOfSpeech : String) : Graph :=
  graph.pushToken text partOfSpeech true

/-- Add a unit. -/
def addUnit (graph : Graph) : Graph :=
  graph.push (.unit false)

/-- Add a unit without surface realisation. -/
def addImplicit (graph : Graph) : Graph :=
  graph.push (.unit true)

/-- Enter the next edge at the node it leaves and at the node it enters. -/
def attach (graph : Graph) (edge : Edge) : Graph :=
  let leaving := graph.nodes.modify edge.parent (·.addOutgoing graph.edges.size)
  { graph with
    nodes := leaving.modify edge.child (·.addIncoming graph.edges.size)
    edges := graph.edges.push edge }

@[simp]
theorem attach_size (graph : Graph) (edge : Edge) :
    (graph.attach edge).nodes.size = graph.nodes.size := by
  simp [attach]

@[simp]
theorem attach_edges (graph : Graph) (edge : Edge) :
    (graph.attach edge).edges = graph.edges.push edge :=
  rfl

@[simp]
theorem attach_terminals (graph : Graph) (edge : Edge) :
    (graph.attach edge).terminals = graph.terminals :=
  rfl

/-- Add an edge between known nodes. -/
def connect (graph : Graph) (edge : Edge) : Except Fault Graph := do
  let _ ← graph.node edge.parent
  let _ ← graph.node edge.child
  return graph.attach edge

theorem connect_eq_ok_iff {graph next : Graph} {edge : Edge} :
    graph.connect edge = .ok next ↔
      edge.parent < graph.nodes.size ∧ edge.child < graph.nodes.size ∧
        next = graph.attach edge := by
  rw [← exists_node_iff, ← exists_node_iff]
  unfold connect
  cases graph.node edge.parent with
  | error cause => simp [bind, Except.bind]
  | ok parent =>
    cases graph.node edge.child with
    | error cause => simp [bind, Except.bind]
    | ok child =>
      simp only [bind, Except.bind, pure, Except.pure, Except.ok.injEq, exists_eq',
        true_and]
      exact eq_comm

/-- Add a primary edge. -/
def addEdge (graph : Graph) (tag : String) (parent child : NodeId) :
    Except Fault Graph :=
  graph.connect { tag, parent, child, remote := false }

/-- Add a remote edge. -/
def addRemote (graph : Graph) (tag : String) (parent child : NodeId) :
    Except Fault Graph :=
  graph.connect { tag, parent, child, remote := true }

end Graph

/-- One addition to a graph. -/
inductive BuildStep
  | terminal (text partOfSpeech : String)
  | punctuation (text partOfSpeech : String)
  | unit
  | implicit
  | edge (tag : String) (parent child : NodeId)
  | remote (tag : String) (parent child : NodeId)
  deriving DecidableEq

namespace Graph

/-- Carry out one addition. -/
def extend (graph : Graph) : BuildStep → Except Fault Graph
  | .terminal text partOfSpeech => .ok (graph.addTerminal text partOfSpeech)
  | .punctuation text partOfSpeech => .ok (graph.addPunctuation text partOfSpeech)
  | .unit => .ok graph.addUnit
  | .implicit => .ok graph.addImplicit
  | .edge tag parent child => graph.addEdge tag parent child
  | .remote tag parent child => graph.addRemote tag parent child

/-- Carry out additions in order. -/
def extendAll (graph : Graph) (steps : List BuildStep) : Except Fault Graph :=
  steps.foldlM extend graph

/-- The graph that a list of additions makes. -/
def build (steps : List BuildStep) : Except Fault Graph :=
  empty.extendAll steps

@[simp]
theorem extendAll_nil (graph : Graph) : graph.extendAll [] = .ok graph :=
  rfl

theorem extendAll_cons (graph : Graph) (step : BuildStep) (steps : List BuildStep) :
    graph.extendAll (step :: steps) =
      (graph.extend step).bind fun next => next.extendAll steps :=
  rfl

end Graph

end TransitionFeatures
