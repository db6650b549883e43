import TransitionFeatures.Graph.Core

/-!
# Parser states

A state of a transition-based parser over an annotation graph: the stack with its
top last, the buffer with the next item first and the actions taken so far with
the latest one last.
-/

namespace TransitionFeatures

/-- A transition that was taken. -/
structure Action where
  kind : String
  tag? : Option String
  deriving DecidableEq

/-- A parser state. -/
structure State where
  graph : Graph
  stack : List NodeId
  buffer : List NodeId
  actions : List Action

namespace State

/-- The state over a graph in which nothing is on the stack or in the buffer. -/
def fresh (graph : Graph) : State :=
  { graph, stack := [], buffer := [], actions := [] }

/-- The state in which a parse begins: every terminal waits in the buffer. -/
def initial (graph : Graph) : State :=
  { fresh graph with buffer := graph.terminals.toList }

@[simp]
theorem initial_stack (graph : Graph) : (initial graph).stack = [] :=
  rfl

@[simp]
theorem initial_buffer (graph : Graph) :
    (initial graph).buffer = graph.terminals.toList :=
  rfl

end State

end TransitionFeatures
