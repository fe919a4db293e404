import ProgramGraph.Graph.Propagation

set_option autoImplicit false

/-!
# Creating typed nodes

A node that carries a value is created together with the first observation of its type, and a
record together with the implicit field that stands for the record itself.

## Main definitions

* `ProgramGraph.Graph.addTyped` — a new node and a first observation.
* `ProgramGraph.Graph.addRecord` — a new record with its implicit field.
* `ProgramGraph.Node.selfField` — that field.
-/

namespace ProgramGraph

/-- The implicit field of a record, which stands for the record itself. -/
def Node.selfField (dummy : Bool) : Node :=
  { Node.make "this" (.field [] none) with code := some "this", dummy }

namespace Graph

/-- Adds a node and observes its type. -/
def addTyped (g : Graph) (node : Node) (o : Observation) : NodeId × Graph :=
  let (id, g) := g.add node
  (id, g.observe id o)

/-- Adds a record together with its implicit field, which is created first and has the type that
the name of the record spells. The record is not put anywhere yet. -/
def addRecord (g : Graph) (name sort : String) (superTypes : List Descriptor) (dummy : Bool) :
    NodeId × Graph :=
  let (self, g) := g.addTyped (.selfField dummy) { type := .parse name }
  let body : RecordBody := { sort, superTypes, fields := [self], self := some self }
  g.add { Node.make name (.record body) with dummy }

end Graph

end ProgramGraph
