import ProgramGraph.Graph.Basic

set_option autoImplicit false

/-!
# Counting nodes

How many nodes of which sort a graph has, and how many usages are resolved.

## Main definitions

* `ProgramGraph.Statistics` — the counts, and `ProgramGraph.Statistics.render`, their text.
* `ProgramGraph.Graph.statistics` — the counts of a graph.
-/

namespace ProgramGraph

/-- The counts of a graph. -/
structure Statistics where
  units : Nat
  nodes : Nat
  typed : Nat
  references : Nat
  resolvedReferences : Nat
  memberAccesses : Nat
  resolvedMembers : Nat
  dummies : Nat
deriving DecidableEq, Repr

/-- The counts as text, one line for each sort. -/
def Statistics.render (s : Statistics) : String :=
  "Program Graph Statistics:\n" ++
    s!"  Units: {s.units}\n" ++
    s!"  Nodes: {s.nodes} (typed: {s.typed}, dummy: {s.dummies})\n" ++
    s!"  References: {s.references} (resolved: {s.resolvedReferences})\n" ++
    s!"  Member accesses: {s.memberAccesses} (resolved: {s.resolvedMembers})\n"

/-- Whether a node is a reference that points at a declaration. -/
def Node.isResolvedReference (node : Node) : Bool :=
  match node.payload with
  | .reference (some _) _ => true
  | _ => false

namespace Graph

/-- Whether the node with a number is a value declaration. -/
def isValueDeclaration (g : Graph) (id : NodeId) : Except Fault Bool :=
  return (← g.node id).tag.isValueDeclaration

/-- Whether a node is a member access whose member is a declaration. -/
def isResolvedMember (g : Graph) (node : Node) : Except Fault Bool :=
  match node.payload with
  | .memberAccess _ (some member) => g.isValueDeclaration member
  | _ => .ok false

/-- The counts of a graph. -/
def statistics (g : Graph) : Except Fault Statistics := do
  let nodes := g.nodes.toList
  let resolved ← nodes.mapM g.isResolvedMember
  return {
    units := g.units.length
    nodes := g.size
    typed := nodes.countP fun node => node.belief.isSome
    references := nodes.countP fun node => node.tag == .reference
    resolvedReferences := nodes.countP Node.isResolvedReference
    memberAccesses := nodes.countP fun node => node.tag == .memberAccess
    resolvedMembers := resolved.count true
    dummies := nodes.countP Node.dummy }

end Graph

end ProgramGraph
