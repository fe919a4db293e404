import ProgramGraph.Assoc
import ProgramGraph.Graph.Node

set_option autoImplicit false

/-!
# Program graphs

A program graph is an arena: nodes are numbered in order of creation and never removed, and every
link between nodes is a number. The compilation units are listed in order of creation, and an index
lists the nodes under each name.

## Main definitions

* `ProgramGraph.Graph` — the arena, `ProgramGraph.NameIndex` — its index by name.
* `ProgramGraph.Fault` — what can go wrong when a link is followed.
* `ProgramGraph.Graph.add`, `ProgramGraph.Graph.addUnit` — new nodes.
* `ProgramGraph.Graph.node`, `ProgramGraph.Graph.modify` — reading and changing a node.
* `ProgramGraph.Graph.named`, `ProgramGraph.Graph.find?` — looking nodes up by their names.
* `ProgramGraph.Graph.checked` — fails if the graph has a fault.

## Main results

* `ProgramGraph.Graph.node?_add`, `ProgramGraph.Graph.node?_modify` — what is read after a write.
* `ProgramGraph.Graph.fault_modify` — a write to a node is no fault.

## Design

A link can be written before its target exists, so an access to a node by number can fail with a
`Fault`. A read that fails answers the fault. A write that fails leaves it in the graph, where the first
fault stays, whatever is done next; whoever writes to a graph answers it `checked` in the end, so that
the fault comes to light.
-/

namespace ProgramGraph

/-- What can go wrong when links are followed. -/
inductive Fault where
  /-- A link points at a number that has no node. -/
  | dangling (id : NodeId)
  /-- Links that should form a tree run in a circle. -/
  | circular
deriving DecidableEq, Repr

/-- The numbers of the nodes under each name, in order of creation. -/
abbrev NameIndex := Assoc String (List NodeId)

namespace NameIndex

/-- The numbers under a name. -/
def under (index : NameIndex) (name : String) : List NodeId := (index.get? name).getD []

/-- Enters a number under a name, behind those that are there. -/
def enter (index : NameIndex) (id : NodeId) (name : String) : NameIndex :=
  index.put name (index.under name ++ [id])

end NameIndex

/-- The arena of nodes. -/
structure Graph where
  /-- The nodes by number. -/
  nodes : Array Node := #[]
  /-- The compilation units in order of creation. -/
  units : List NodeId := []
  /-- The nodes by name. -/
  names : NameIndex := ∅
  /-- The first failed access to a node, if there was one. -/
  fault : Option Fault := none
  /-- The key for the next listener. -/
  nextKey : Nat := 0
  /-- What the recording listeners were told, oldest first. -/
  journal : Array Event := #[]
deriving DecidableEq

namespace Graph

/-- The graph without nodes. -/
def empty : Graph := {}

/-- The number of nodes. -/
def size (g : Graph) : Nat := g.nodes.size

/-! ## Reading -/

/-- The node with a number, if there is one. -/
def node? (g : Graph) (id : NodeId) : Option Node := g.nodes[id]?

/-- The node with a number. -/
def node (g : Graph) (id : NodeId) : Except Fault Node :=
  match g.node? id with
  | some node => .ok node
  | none => .error (.dangling id)

/-- The payload of the node with a number, if there is one. -/
def payload? (g : Graph) (id : NodeId) : Option Payload := (g.node? id).map Node.payload

/-- All numbers of nodes, in order. -/
def ids (g : Graph) : List NodeId := List.range g.size

/-- The numbers of the nodes that satisfy a condition, in order. -/
def filter (g : Graph) (p : Node → Bool) : List NodeId :=
  g.ids.filter fun id => (g.node? id).any p

/-- The numbers of the nodes with a name, in order, as they are listed in the index. -/
def named (g : Graph) (name : String) : List NodeId := g.names.under name

/-- The numbers of the nodes of a kind. -/
def tagged (g : Graph) (tag : Tag) : List NodeId := g.filter fun node => node.tag == tag

/-- The first of several nodes that has a kind. -/
def firstTagged (g : Graph) (tag : Tag) : List NodeId → Except Fault (Option NodeId)
  | [] => .ok none
  | id :: rest => do
    if (← g.node id).tag = tag then return some id
    g.firstTagged tag rest

/-- The first node of a kind with a name. -/
def find? (g : Graph) (tag : Tag) (name : String) : Except Fault (Option NodeId) :=
  g.firstTagged tag (g.named name)

/-- The graph, unless an access to a node failed before. -/
def checked (g : Graph) : Except Fault Graph :=
  match g.fault with
  | some fault => .error fault
  | none => .ok g

/-! ## Writing -/

/-- Adds a node, which gets the next number and is listed under its name. -/
def add (g : Graph) (node : Node) : NodeId × Graph :=
  (g.size, { g with nodes := g.nodes.push node, names := g.names.enter g.size node.name })

/-- Expects a node with a number: if there is none, that is a fault, unless there was one before. -/
def expect (g : Graph) (id : NodeId) : Graph :=
  { g with fault := if id < g.size then g.fault else g.fault.or (some (.dangling id)) }

/-- Changes the node with a number, which is expected to be there. -/
def modify (g : Graph) (id : NodeId) (f : Node → Node) : Graph :=
  { g.expect id with nodes := g.nodes.modify id f }

/-- Changes the payload of the node with a number. -/
def modifyPayload (g : Graph) (id : NodeId) (f : Payload → Payload) : Graph :=
  g.modify id fun node => { node with payload := f node.payload }

/-- Adds a compilation unit at the end of the list of units. -/
def addUnit (g : Graph) (name : String) : NodeId × Graph :=
  let (id, g) := g.add (.make name (.unit []))
  (id, { g with units := g.units ++ [id] })

/-! ## Reading after writing -/

/-- A graph without faults is answered as it is. -/
theorem checked_eq_ok {g : Graph} (h : g.fault = none) : g.checked = .ok g := by
  rw [checked, h]

/-- Exactly the graphs without faults are answered. -/
theorem checked_eq_ok_iff {g g' : Graph} : g.checked = .ok g' ↔ g.fault = none ∧ g' = g := by
  unfold checked
  cases g.fault <;> simp [eq_comm]

/-- A node that is there may well be expected. -/
theorem expect_eq_self {g : Graph} {id : NodeId} (h : id < g.size) : g.expect id = g := by
  rw [expect, if_pos h]

/-- Reading succeeds exactly where there is a node. -/
theorem node_eq_ok {g : Graph} {id : NodeId} {node : Node} :
    g.node id = .ok node ↔ g.node? id = some node := by
  unfold Graph.node
  cases g.node? id <;> simp

/-- Nodes have numbers below the size. -/
theorem lt_size {g : Graph} {id : NodeId} {node : Node} (h : g.node? id = some node) :
    id < g.size := by
  unfold node? at h
  exact (Array.getElem?_eq_some_iff.mp h).1

/-- Every number below the size has a node. -/
theorem exists_node {g : Graph} {id : NodeId} (h : id < g.size) :
    ∃ node, g.node? id = some node :=
  ⟨_, Array.getElem?_eq_getElem h⟩

/-- The nodes are those that have numbers. -/
theorem mem_nodes_iff {g : Graph} {node : Node} : node ∈ g.nodes.toList ↔ ∃ id, g.node? id = some node :=
  Array.mem_toList_iff.trans Array.mem_iff_getElem?

/-- Whoever reads all numbers in order gets all nodes. -/
theorem map_node?_ids (g : Graph) : g.ids.map g.node? = g.nodes.toList.map some := by
  refine List.ext_getElem (by simp [ids, size]) fun n _ _ => ?_
  simp [ids, node?]

/-- There is no node beyond the size. -/
theorem node?_eq_none {g : Graph} {id : NodeId} (h : g.size ≤ id) : g.node? id = none :=
  Array.getElem?_eq_none h

/-- There is one node more when one is added. -/
@[simp] theorem size_add (g : Graph) (node : Node) : (g.add node).2.size = g.size + 1 := by
  simp [add, size]

/-- A new node is not a compilation unit by itself. -/
@[simp] theorem units_add (g : Graph) (node : Node) : (g.add node).2.units = g.units := rfl

/-- Expecting a node changes none. -/
@[simp] theorem node?_expect (g : Graph) (id other : NodeId) : (g.expect id).node? other = g.node? other := rfl

/-- Expecting a node adds none. -/
@[simp] theorem size_expect (g : Graph) (id : NodeId) : (g.expect id).size = g.size := rfl

/-- **A new node gets the next number,** and the others are left alone. -/
theorem node?_add (g : Graph) (node : Node) (id : NodeId) :
    (g.add node).2.node? id = if id = g.size then some node else g.node? id := by
  simp only [add, node?, size, Array.getElem?_push]
  rfl

/-- There are as many nodes after a change as before it. -/
@[simp] theorem size_modify (g : Graph) (id : NodeId) (f : Node → Node) :
    (g.modify id f).size = g.size := by
  simp [modify, size]

/-- A change of a node leaves the list of units alone. -/
@[simp] theorem units_modify (g : Graph) (id : NodeId) (f : Node → Node) :
    (g.modify id f).units = g.units := rfl

/-- **A change is seen at the changed node only.** -/
theorem node?_modify (g : Graph) (id other : NodeId) (f : Node → Node) :
    (g.modify id f).node? other =
      if id = other then (g.node? other).map f else g.node? other := by
  simp only [modify, node?, Array.getElem?_modify]

/-- Changes of a node that come to the same node come to the same graph. -/
theorem modify_congr {g : Graph} {id : NodeId} {f f' : Node → Node}
    (h : ∀ node, g.node? id = some node → f node = f' node) : g.modify id f = g.modify id f' := by
  have hnodes : g.nodes.modify id f = g.nodes.modify id f' := by
    refine Array.ext_getElem? fun i => ?_
    rw [Array.getElem?_modify, Array.getElem?_modify]
    split
    · next hi =>
      subst hi
      exact Option.map_congr fun node hnode => h node hnode
    · rfl
  rw [modify, modify, hnodes]

/-- A change that leaves its node as it is leaves the graph as it is. -/
theorem modify_eq_self {g : Graph} {id : NodeId} {f : Node → Node} {node : Node}
    (hnode : g.node? id = some node) (h : f node = node) : g.modify id f = g := by
  have hnodes : g.nodes.modify id f = g.nodes := by
    refine Array.ext_getElem? fun i => ?_
    rw [Array.getElem?_modify]
    split
    · next hi =>
      subst hi
      rw [show g.nodes[id]? = some node from hnode, Option.map_some, h]
    · rfl
  rw [modify, hnodes, expect_eq_self (lt_size hnode)]

/-- A new node that is changed might as well be added as it is then, unless it is renamed. -/
theorem modify_add (g : Graph) {node : Node} {f : Node → Node} (hname : (f node).name = node.name) :
    (g.add node).2.modify g.size f = (g.add (f node)).2 := by
  have hnodes : (g.nodes.push node).modify g.size f = g.nodes.push (f node) := by
    refine Array.ext_getElem? fun i => ?_
    rw [Array.getElem?_modify, Array.getElem?_push, Array.getElem?_push, size]
    by_cases hi : i = g.nodes.size
    · rw [if_pos hi, if_pos hi.symm, if_pos hi, Option.map_some]
    · rw [if_neg hi, if_neg (Ne.symm hi), if_neg hi]
  have hlt : g.size < (g.add node).2.size := Nat.lt_of_lt_of_eq (Nat.lt_succ_self _) (size_add g node).symm
  rw [modify, expect_eq_self hlt]
  simp only [add, hnodes, hname]

/-- **A write to a node is no fault.** -/
theorem fault_modify {g : Graph} {id : NodeId} (h : id < g.size) (f : Node → Node) :
    (g.modify id f).fault = g.fault :=
  if_pos h

/-- A write to a number without a node is a fault. -/
theorem checked_modify {g : Graph} {id : NodeId} (h : g.size ≤ id) (f : Node → Node) :
    ∃ fault, (g.modify id f).checked = .error fault := by
  have hfault : (g.modify id f).fault = g.fault.or (some (.dangling id)) := if_neg (Nat.not_lt.mpr h)
  rw [checked, hfault]
  cases g.fault <;> exact ⟨_, rfl⟩

/-! ## Links -/

/-- The declaration a reference points at. -/
def target? (g : Graph) (id : NodeId) : Except Fault (Option NodeId) := do
  match (← g.node id).payload with
  | .reference target _ => return target
  | _ => return none

/-- Lets a reference point at a declaration, or at nothing. -/
def setTarget (g : Graph) (id : NodeId) (target : Option NodeId) : Graph :=
  g.modifyPayload id fun
    | .reference _ isStatic => .reference target isStatic
    | other => other

/-- Base and member of a member access. -/
def access? (g : Graph) (id : NodeId) : Except Fault (Option (NodeId × Option NodeId)) := do
  match (← g.node id).payload with
  | .memberAccess base member => return some (base, member)
  | _ => return none

/-- Sets base and member of a member access. -/
def setAccess (g : Graph) (id base : NodeId) (member : Option NodeId) : Graph :=
  g.modifyPayload id fun
    | .memberAccess _ _ => .memberAccess base member
    | other => other

/-- The fields of a record, its implicit one included. -/
def fields (g : Graph) (id : NodeId) : Except Fault (List NodeId) := do
  match (← g.node id).payload with
  | .record body => return body.fields
  | _ => return []

/-- The implicit field that stands for a record itself. -/
def self? (g : Graph) (id : NodeId) : Except Fault (Option NodeId) := do
  match (← g.node id).payload with
  | .record body => return body.self
  | _ => return none

/-- The declared supertypes of a record or an enumeration. -/
def superTypes (g : Graph) (id : NodeId) : Except Fault (List Descriptor) := do
  match (← g.node id).payload with
  | .record body => return body.superTypes
  | .enum _ superTypes => return superTypes
  | _ => return []

/-- The constants of an enumeration. -/
def entries (g : Graph) (id : NodeId) : Except Fault (List NodeId) := do
  match (← g.node id).payload with
  | .enum entries _ => return entries
  | _ => return []

/-- Appends a field to a record. -/
def appendField (g : Graph) (record field : NodeId) : Graph :=
  g.modifyPayload record fun
    | .record body => .record { body with fields := body.fields ++ [field] }
    | other => other

/-- Appends a declaration to a unit. -/
def appendDeclaration (g : Graph) (unit declaration : NodeId) : Graph :=
  g.modifyPayload unit fun
    | .unit declarations => .unit (declarations ++ [declaration])
    | other => other

end Graph

end ProgramGraph
