import ProgramGraph.Graph.Basic

set_option autoImplicit false

/-!
# Propagation of types

What is believed about a node is refined by observations: an observed type joins the set of the
node, and the type of the node becomes the join of that set. Each strict change is announced to
the listeners of the node. A listener that follows the node then observes the new type, or takes
over the new set, at its own target, which may cause announcements in turn; around a circle of
followers this goes on until nothing changes any more.

## Main definitions

* `ProgramGraph.Belief.observe`, `ProgramGraph.Belief.widen`, `ProgramGraph.Belief.pin` — the three
  changes to one belief.
* `ProgramGraph.Notice` — something a listener is still to be told.
* `ProgramGraph.Graph.deliver` — telling one listener.
* `ProgramGraph.Graph.drain`, `ProgramGraph.Graph.settle` — telling all of them.
* `ProgramGraph.Graph.observe`, `ProgramGraph.Graph.widen`, `ProgramGraph.Graph.pin`,
  `ProgramGraph.Graph.subscribe`, `ProgramGraph.Graph.unsubscribe`,
  `ProgramGraph.Graph.rebroadcast` — the operations on a graph.

## Design

Notices that are still to be delivered form a stack. Whatever a delivery gives rise to is delivered
before the rest of the stack, so every change has all its consequences in place before the next
listener is told. A listener reads the state of the node at the time it is told.

The number of deliveries is bounded in advance. All types that can ever turn up are those present,
their forms without modifier, and the unknown type; a set can only grow within these. Each growth
leaves at most one node behind whose type is not the join of its set, and each change of a type
without growth mends one such node. Every change gives rise to at most two notices for each
listener.
-/

namespace ProgramGraph

/-! ## Changes to one belief -/

namespace Belief

/-- Whether an observation says nothing new by its nature: it is unknown, or it is primitive while a
primitive type is known already. -/
def ignores (b : Belief) (o : Observation) : Bool :=
  o.type.isUnknown ||
    (!b.type.type.isUnknown && b.type.type.isPrimitive && o.type.isPrimitive)

/-- Refines a belief by an observed type: it joins the set, and the join of the set becomes the
type. -/
def observe (b : Belief) (o : Observation) : Belief :=
  if b.ignores o then b
  else
    let observed := b.observed.insert o
    { b with observed, type := observed.join?.getD o }

/-- Adds types to the set without touching the type. Primitive types alone add nothing to a set that
has members. -/
def widen (b : Belief) (os : List Observation) : Belief :=
  if (os.all fun o => o.type.isPrimitive) && b.observed.size != 0 then b
  else { b with observed := b.observed.insertAll os }

/-- Sets the type and forgets what was observed. -/
def pin (b : Belief) (o : Observation) : Belief :=
  { b with type := o, observed := ∅ }

/-- Adds a listener, unless it is there already. -/
def join (b : Belief) (l : Listener) : Belief :=
  if b.listeners.any fun other => other.key == l.key then b
  else { b with listeners := b.listeners ++ [l] }

/-- The listeners that a node with this belief tells of changes: all but those that act for the
node itself. -/
def audience (b : Belief) (id : NodeId) : List Listener :=
  b.listeners.filter fun l => l.owner != some id

end Belief

/-! ## Notices -/

/-- What a node held before a change. -/
inductive Former where
  /-- The type changed. -/
  | type (old : Descriptor)
  /-- The set of observed types changed. -/
  | observed (old : TypeSet)
deriving DecidableEq

/-- Something a listener is still to be told about a node. -/
structure Notice where
  /-- The node that changed. -/
  source : NodeId
  /-- Who is to be told. -/
  listener : Listener
  /-- What the node held before. -/
  former : Former
deriving DecidableEq

/-- The notices to the audience of a node that one thing about it changed. -/
def Belief.announce (b : Belief) (id : NodeId) (former : Former) : List Notice :=
  (b.audience id).map fun listener => { source := id, listener, former }

/-- The notices that a refinement from `b` to `next` gives rise to: first that the set grew, then
that the type changed. -/
def Belief.announceRefined (b next : Belief) (id : NodeId) : List Notice :=
  (if b.observed.size < next.observed.size then next.announce id (.observed b.observed) else []) ++
    if b.type.type = next.type.type then [] else next.announce id (.type b.type.type)

namespace Graph

/-! ## Beliefs of nodes -/

/-- The belief of a node, if it has one. -/
def belief? (g : Graph) (id : NodeId) : Option Belief := (g.node? id).bind Node.belief

/-- Replaces the belief of a node. -/
def setBelief (g : Graph) (id : NodeId) (belief : Belief) : Graph :=
  g.modify id fun node => { node with belief := some belief }

/-- **A belief is replaced where it is set,** and only there. -/
theorem belief?_setBelief {g : Graph} {id : NodeId} {b : Belief} (h : g.belief? id = some b)
    (next : Belief) (other : NodeId) :
    (g.setBelief id next).belief? other =
      if id = other then some next else g.belief? other := by
  obtain ⟨node, hnode, -⟩ := Option.bind_eq_some_iff.mp h
  simp only [setBelief, belief?, node?_modify]
  split
  · next heq => subst heq; simp [hnode]
  · rfl

/-- The current type of a node; unknown for nodes without a value. -/
def typeOf (g : Graph) (id : NodeId) : Observation :=
  match g.belief? id with
  | some belief => belief.type
  | none => .unknown

/-- The types observed on a node; none for nodes without a value. -/
def observedAt (g : Graph) (id : NodeId) : TypeSet :=
  match g.belief? id with
  | some belief => belief.observed
  | none => ∅

/-- The listeners of a node. -/
def listenersAt (g : Graph) (id : NodeId) : List Listener :=
  match g.belief? id with
  | some belief => belief.listeners
  | none => []

/-- A new listener, different from all others. -/
def mintListener (g : Graph) (reaction : Reaction) : Listener × Graph :=
  ({ key := g.nextKey, reaction }, { g with nextKey := g.nextKey + 1 })

/-! ## Delivery -/

/-- Refines the belief of a node. The notices are those the change gives rise to. -/
def refine (g : Graph) (id : NodeId) (f : Belief → Belief) : Graph × List Notice :=
  match g.belief? id with
  | some belief => (g.setBelief id (f belief), belief.announceRefined (f belief) id)
  | none => (g, [])

/-- The entry that a recording listener makes of a notice. -/
def eventOf (g : Graph) (notice : Notice) : Event where
  listener := notice.listener.key
  source := notice.source
  change := match notice.former with
    | .type old => .type old (g.typeOf notice.source).type
    | .observed old => .observed old.types (g.observedAt notice.source).types

/-- Tells a listener. A follower refines the belief of its target, a recorder makes an entry. -/
def deliver (g : Graph) (notice : Notice) : Graph × List Notice :=
  match notice.listener.reaction, notice.former with
  | .follow target, .type _ => g.refine target fun b => b.observe (g.typeOf notice.source)
  | .follow target, .observed _ =>
    g.refine target fun b => b.widen (g.observedAt notice.source).observations
  | .record _, _ => ({ g with journal := g.journal.push (g.eventOf notice) }, [])

/-- At most `n` deliveries, with the consequences of each before the rest. -/
def drain : Nat → Graph → List Notice → Graph
  | _, g, [] => g
  | 0, g, _ :: _ => g
  | n + 1, g, notice :: rest =>
    let (next, consequences) := g.deliver notice
    drain n next (consequences ++ rest)

/-- The beliefs of a graph. -/
def beliefs (g : Graph) : List Belief := g.nodes.toList.filterMap Node.belief

/-- No fewer types than can ever turn up. -/
def typeBound (g : Graph) : Nat :=
  2 * (g.beliefs.map fun b => b.observed.size + 1).foldr (· + ·) 0 + 1

/-- The number of subscriptions. -/
def subscriptions (g : Graph) : Nat :=
  (g.beliefs.map fun b => b.listeners.length).foldr (· + ·) 0

/-- No fewer deliveries than the pending notices and all their consequences take. -/
def deliveryBound (g : Graph) (pending : List Notice) : Nat :=
  let beliefs := g.beliefs.length
  pending.length + 2 * g.subscriptions * (2 * (beliefs * g.typeBound) + beliefs)

/-- Delivers the pending notices and all their consequences. -/
def settle (g : Graph) (pending : List Notice) : Graph :=
  if pending.isEmpty then g else drain (g.deliveryBound pending) g pending

/-! ## The operations -/

/-- Refines the type of a node by an observed type. -/
def observe (g : Graph) (id : NodeId) (o : Observation) : Graph :=
  let (next, pending) := g.refine id fun b => b.observe o
  next.settle pending

/-- Adds types to the set of a node. -/
def widen (g : Graph) (id : NodeId) (os : List Observation) : Graph :=
  let (next, pending) := g.refine id fun b => b.widen os
  next.settle pending

/-- Sets the type of a node and forgets what was observed of it. The change of the type is announced
first; the change of the set is announced unless the type alone stood in it. -/
def pin (g : Graph) (id : NodeId) (o : Observation) : Graph :=
  match g.belief? id with
  | some b =>
    (g.setBelief id (b.pin o)).settle <|
      (if b.type.type = o.type then [] else b.announce id (.type b.type.type)) ++
        if b.observed.types = [o.type] then [] else b.announce id (.observed b.observed)
  | none => g

/-- Adds a listener to a node and tells it the present state. -/
def subscribe (g : Graph) (id : NodeId) (l : Listener) : Graph :=
  match g.belief? id with
  | some b =>
    let next := g.setBelief id (b.join l)
    if l.owner = some id then next
    else next.settle [⟨id, l, .type b.type.type⟩, ⟨id, l, .observed b.observed⟩]
  | none => g

/-- Keeps of the listeners of a node those that satisfy a condition. -/
def keepListeners (g : Graph) (id : NodeId) (p : Listener → Bool) : Graph :=
  match g.belief? id with
  | some b => g.setBelief id { b with listeners := b.listeners.filter p }
  | none => g

/-- Removes a listener from a node. -/
def unsubscribe (g : Graph) (id : NodeId) (l : Listener) : Graph :=
  g.keepListeners id fun other => other.key != l.key

/-- Removes all listeners from a node that act for an owner. -/
def unsubscribeOwned (g : Graph) (id owner : NodeId) : Graph :=
  g.keepListeners id fun other => other.owner != some owner

/-- Tells every listener of a node the present state once more. -/
def rebroadcast (g : Graph) (id : NodeId) : Graph :=
  match g.belief? id with
  | some b => g.settle <| (b.audience id).flatMap fun l =>
      [⟨id, l, .type b.type.type⟩, ⟨id, l, .observed b.observed⟩]
  | none => g

end Graph

end ProgramGraph
