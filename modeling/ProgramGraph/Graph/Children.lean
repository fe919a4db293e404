import ProgramGraph.Graph.Basic

set_option autoImplicit false

/-!
# The syntax tree in a graph

The links that say what a node is made of turn the graph into a forest of syntax trees. A member
access is made of its base and its member only while these are expressions; once they are resolved
they are declarations that belong elsewhere.

## Main definitions

* `ProgramGraph.Graph.children` — the parts of a node, in source order.
* `ProgramGraph.Graph.preorder` — all parts of a node down to a depth, parents first.
* `ProgramGraph.Graph.subnodes` — all parts of a node.
-/

namespace ProgramGraph

/-- The parts of a node other than a member access, in source order. -/
def Payload.parts : Payload → List NodeId
  | .unit declarations => declarations
  | .record body => body.fields ++ body.methods ++ body.constructors ++ body.records
  | .enum entries _ => entries
  | .field _ initializer => initializer.toList
  | .var initializer => initializer.toList
  | .function _ _ parameters body => parameters ++ body.toList
  | .block statements => statements
  | .declarationStatement declarations => declarations
  | .returnStatement value => value.toList
  | .call base arguments => base.toList ++ arguments
  | .enumConstant | .parameter _ | .reference .. | .memberAccess .. | .literal _ => []

namespace Graph

/-- Whether the node with a number is an expression. -/
def isExpression (g : Graph) (id : NodeId) : Except Fault Bool :=
  return (← g.node id).tag.isExpression

/-- The numbers in a list whose nodes are expressions. -/
def expressions (g : Graph) : List NodeId → Except Fault (List NodeId)
  | [] => .ok []
  | id :: rest => do
    let isExpression ← g.isExpression id
    let others ← g.expressions rest
    return if isExpression then id :: others else others

/-- The parts of a node in the syntax tree, in source order. -/
def children (g : Graph) (id : NodeId) : Except Fault (List NodeId) := do
  match (← g.node id).payload with
  | .memberAccess base member => g.expressions (base :: member.toList)
  | other => return other.parts

/-- All parts of a node down to a depth, the node itself first and every node before its parts. -/
def preorder (g : Graph) : Nat → NodeId → Except Fault (List NodeId)
  | 0, _ => .error .circular
  | depth + 1, id => do
    let parts ← g.children id
    let below ← parts.mapM (g.preorder depth)
    return id :: below.flatten

/-- All parts of a node. Where links do not run in a circle, no chain of parts is longer than the
number of nodes. -/
def subnodes (g : Graph) (id : NodeId) : Except Fault (List NodeId) :=
  g.preorder (g.size + 1) id

/-- All parts of a node that are of one kind. -/
def subnodesTagged (g : Graph) (id : NodeId) (tag : Tag) : Except Fault (List NodeId) :=
  return (← g.subnodes id).filter fun sub => (g.node? sub).any fun node => node.tag == tag

end Graph

end ProgramGraph
