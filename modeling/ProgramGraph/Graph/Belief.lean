import ProgramGraph.Type.Observation

set_option autoImplicit false

/-!
# Beliefs about types

What is known about the type of a node is a belief: the types observed so far, the type they add up
to, and the listeners that want to hear of changes. A listener either carries the type on to a node
of its own, or keeps a record of what it is told.

## Main definitions

* `ProgramGraph.Listener` — a subscriber, and `ProgramGraph.Reaction` — what it does when told.
* `ProgramGraph.Belief` — the type information of one node.
* `ProgramGraph.Event` — one entry in the record of a recording listener.
-/

namespace ProgramGraph

/-- The number of a node. Nodes are numbered in order of creation. -/
abbrev NodeId := Nat

/-- What a listener does when it is told of a change. -/
inductive Reaction where
  /-- It carries the type over to a target node, on whose behalf it acts. -/
  | follow (target : NodeId)
  /-- It records the change, on behalf of an owner if it has one. -/
  | record (owner : Option NodeId)
deriving DecidableEq, Repr

/-- A subscriber to the type of a node. Two listeners are the same when their keys agree. -/
structure Listener where
  /-- The identity of the listener. -/
  key : Nat
  /-- What it does. -/
  reaction : Reaction
deriving DecidableEq, Repr

/-- The node a listener acts for, if any. A node tells nothing to listeners that act for it. -/
def Listener.owner (l : Listener) : Option NodeId :=
  match l.reaction with
  | .follow target => some target
  | .record owner => owner

/-- What is believed about the type of a node. -/
structure Belief where
  /-- The current type. -/
  type : Observation := .unknown
  /-- The types observed so far. -/
  observed : TypeSet := ∅
  /-- The subscribers, in order of subscription. -/
  listeners : List Listener := []
deriving DecidableEq

/-- A change as a recording listener sees it: what held before, and what holds when it is told. -/
inductive Change where
  | type (old now : Descriptor)
  | observed (old now : List Descriptor)
deriving DecidableEq, Repr

/-- One entry in the record of a recording listener. -/
structure Event where
  /-- The key of the listener. -/
  listener : Nat
  /-- The node whose type is concerned. -/
  source : NodeId
  /-- What the listener was told. -/
  change : Change
deriving DecidableEq, Repr

end ProgramGraph
