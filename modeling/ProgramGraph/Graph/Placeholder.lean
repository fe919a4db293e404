import ProgramGraph.Graph.Creation

set_option autoImplicit false

/-!
# The unit for declarations that are missing

Declarations that are made up because none was found live in one compilation unit of their own,
which is made when it is first needed and shared by everyone who makes up declarations.

## Main definitions

* `ProgramGraph.Graph.placeholderUnit` — that unit, found or made.
-/

namespace ProgramGraph

/-- The name of the unit for made-up declarations. -/
def placeholderUnitName : String := "unknown declarations"

/-- Whether a node is the unit for made-up declarations. -/
def Node.isPlaceholderUnit (node : Node) : Bool :=
  node.dummy && node.name == placeholderUnitName

namespace Graph

/-- The unit for made-up declarations, if there is one. -/
def placeholderUnit? (g : Graph) : Option NodeId :=
  g.units.find? fun id => (g.node? id).any Node.isPlaceholderUnit

/-- The unit for made-up declarations, which is made if there is none. -/
def placeholderUnit (g : Graph) : NodeId × Graph :=
  match g.placeholderUnit? with
  | some unit => (unit, g)
  | none =>
    let (unit, g) := g.addUnit placeholderUnitName
    (unit, g.modify unit fun node => { node with dummy := true })

end Graph

end ProgramGraph
