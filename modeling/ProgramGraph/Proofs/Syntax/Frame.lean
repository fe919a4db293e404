import ProgramGraph.Graph.Creation
import ProgramGraph.Proofs.Syntax.Typing

set_option autoImplicit false

/-!
# What propagation leaves alone

Observations and subscriptions change what is believed about nodes, and nothing else: names,
payloads, notes from the source, units and the marks of made-up nodes stay what they are.

## Main definitions

* `ProgramGraph.Node.bare` — a node without notes and beliefs.
* `ProgramGraph.Graph.SameTree` — two graphs differ in notes and beliefs at most.
* `ProgramGraph.Node.source` — a node without what is believed about it.
* `ProgramGraph.Graph.SameSource` — two graphs differ in beliefs at most.

## Main results

* `ProgramGraph.Graph.SameTree.wellFormed` — such graphs are well formed together.
* `ProgramGraph.Graph.sameSource_observe` and its siblings — the operations that propagate types.
-/

namespace ProgramGraph

/-- A node without notes and beliefs. -/
def Node.bare (node : Node) : Node :=
  { name := node.name, payload := node.payload, dummy := node.dummy }

/-- A node without what is believed about it. It can be seen whether there was a belief. -/
def Node.source (node : Node) : Node := { node with belief := node.belief.map fun _ => {} }

namespace Graph

/-- Two graphs differ in notes and beliefs at most. -/
structure SameTree (g g' : Graph) : Prop where
  /-- The units are the same. -/
  units : g'.units = g.units
  /-- The nodes are the same but for notes and beliefs. -/
  nodes : ∀ id, (g'.node? id).map Node.bare = (g.node? id).map Node.bare
  /-- The index by name is the same. -/
  names : g'.names = g.names
  /-- No access to a node failed in between. -/
  fault : g'.fault = g.fault

namespace SameTree

variable {g g' g'' : Graph}

/-- A graph has the same syntax trees as itself. -/
@[refl] theorem refl (g : Graph) : g.SameTree g := ⟨rfl, fun _ => rfl, rfl, rfl⟩

/-- The syntax trees are the same the other way round. -/
theorem symm (h : g.SameTree g') : g'.SameTree g :=
  ⟨h.units.symm, fun id => (h.nodes id).symm, h.names.symm, h.fault.symm⟩

/-- The syntax trees are the same step by step. -/
theorem trans (h : g.SameTree g') (h' : g'.SameTree g'') : g.SameTree g'' :=
  ⟨h'.units.trans h.units, fun id => (h'.nodes id).trans (h.nodes id), h'.names.trans h.names,
    h'.fault.trans h.fault⟩

/-- The counterpart of a node. -/
theorem exists_node (h : g.SameTree g') {id : NodeId} {node : Node} (hnode : g.node? id = some node) :
    ∃ node', g'.node? id = some node' ∧ node'.name = node.name ∧ node'.payload = node.payload ∧
      node'.dummy = node.dummy := by
  have hbare := h.nodes id
  rw [hnode] at hbare
  obtain ⟨node', hnode', heq⟩ := Option.map_eq_some_iff.mp hbare
  simp only [Node.bare, Node.mk.injEq] at heq
  exact ⟨node', hnode', heq.1, heq.2.1, heq.2.2.2.2.1⟩

/-- What depends on the bare nodes only is the same. -/
theorem map_node? {α : Type} (h : g.SameTree g') (f : Node → α) (hf : ∀ node, f node.bare = f node)
    (id : NodeId) : (g'.node? id).map f = (g.node? id).map f := by
  have hmap : ∀ o : Option Node, o.map f = (o.map Node.bare).map f := by
    intro o
    cases o <;> simp [hf]
  rw [hmap, hmap (g.node? id), h.nodes]

/-- Nodes are of the same kinds. -/
theorem tag? (h : g.SameTree g') (id : NodeId) : g'.tag? id = g.tag? id :=
  h.map_node? Node.tag (fun _ => rfl) id

/-- Nodes have the same names. -/
theorem name? (h : g.SameTree g') (id : NodeId) : g'.name? id = g.name? id :=
  h.map_node? Node.name (fun _ => rfl) id

/-- Nodes have the same payloads. -/
theorem payload? (h : g.SameTree g') (id : NodeId) : g'.payload? id = g.payload? id :=
  h.map_node? Node.payload (fun _ => rfl) id

/-- There are as many nodes. -/
theorem size (h : g.SameTree g') : g'.size = g.size := by
  have hle : ∀ {a b : Graph}, a.SameTree b → a.size ≤ b.size := by
    intro a b hab
    rcases Nat.lt_or_ge b.size a.size with hlt | hge
    · obtain ⟨node, hnode⟩ := Graph.exists_node hlt
      obtain ⟨node', hnode', -⟩ := hab.exists_node hnode
      exact absurd (Graph.lt_size hnode') (Nat.lt_irrefl _)
    · exact hge
  exact Nat.le_antisymm (hle h.symm) (hle h)

/-- A payload has the same parts. -/
theorem partsOf (h : g.SameTree g') (payload : Payload) :
    g'.partsOf payload = g.partsOf payload := by
  cases payload <;> simp only [Graph.partsOf, h.tag?]

/-- A node has the same parts. -/
theorem parts (h : g.SameTree g') (id : NodeId) : g'.parts id = g.parts id := by
  have hmatch : ∀ a : Graph, a.parts id = ((a.payload? id).map a.partsOf).getD [] := by
    intro a
    unfold Graph.parts Graph.payload?
    cases a.node? id <;> rfl
  have hfun : g'.partsOf = g.partsOf := funext h.partsOf
  rw [hmatch, hmatch, h.payload?, hfun]

/-- Nodes are still of their kinds. -/
theorem keeps (h : g.SameTree g') : g.Keeps g' where
  tag id tag htag := by rw [h.tag?, htag]
  name id name hname := by rw [h.name?, hname]
  entries id := by
    simp only [entriesOf, h.payload?]
    exact List.Subset.refl _

/-- Where the syntax trees are the same, payloads still fit. -/
theorem wellTyped (h : g.SameTree g') (typed : g.WellTyped) : g'.WellTyped where
  units := by
    rw [h.units]
    exact typed.units.keep h.keeps
  nodes id node' hnode' := by
    obtain ⟨node, hnode, hname, hpayload, -⟩ := h.symm.exists_node hnode'
    rw [← hname, ← hpayload]
    exact (typed.nodes id node hnode).keep h.keeps

/-- Where the syntax trees are the same, they are trees still. -/
theorem tree {loose : List NodeId} (h : g.SameTree g') (tree : g.Tree loose) : g'.Tree loose where
  roots := h.units ▸ tree.roots
  root_lt id hid := by
    rw [h.size]
    exact tree.root_lt id (h.units ▸ hid)
  root_notMem id hid whole := by
    rw [h.parts]
    exact tree.root_notMem id (h.units ▸ hid) whole
  parts_nodup id := by
    rw [h.parts]
    exact tree.parts_nodup id
  part_lt whole id hid := by
    rw [h.size]
    exact tree.part_lt whole id (h.parts whole ▸ hid)
  whole_unique id whole other hwhole hother :=
    tree.whole_unique id whole other (h.parts whole ▸ hwhole) (h.parts other ▸ hother)

/-- **Well formed together.** -/
theorem wellFormed {loose : List NodeId} (h : g.SameTree g') (wf : g.WellFormed loose) :
    g'.WellFormed loose :=
  ⟨h.tree wf.tree, h.wellTyped wf.typed, wf.listed.congr h.names h.name?, h.fault.trans wf.faultless⟩

end SameTree

/-! ## Writing notes and beliefs -/

/-- A change of notes and beliefs of a node. -/
theorem sameTree_modify {g : Graph} {id : NodeId} (h : id < g.size) {f : Node → Node}
    (hf : ∀ node, (f node).bare = node.bare) : g.SameTree (g.modify id f) := by
  refine ⟨rfl, fun other => ?_, rfl, fault_modify h f⟩
  rw [node?_modify]
  split
  · rw [Option.map_map]
    congr 1
    exact funext hf
  · rfl

/-! ## Writing beliefs -/

/-- Two graphs differ in beliefs at most: the same nodes have a belief, and all else is the same. -/
structure SameSource (g g' : Graph) : Prop where
  /-- The units are the same. -/
  units : g'.units = g.units
  /-- The nodes are the same but for beliefs. -/
  nodes : ∀ id, (g'.node? id).map Node.source = (g.node? id).map Node.source
  /-- The index by name is the same. -/
  names : g'.names = g.names
  /-- No access to a node failed in between. -/
  fault : g'.fault = g.fault

namespace SameSource

variable {g g' g'' : Graph}

/-- A graph differs from itself in nothing. -/
@[refl] theorem refl (g : Graph) : g.SameSource g := ⟨rfl, fun _ => rfl, rfl, rfl⟩

/-- Graphs that differ in beliefs at most, one after the other. -/
theorem trans (h : g.SameSource g') (h' : g'.SameSource g'') : g.SameSource g'' :=
  ⟨h'.units.trans h.units, fun id => (h'.nodes id).trans (h.nodes id), h'.names.trans h.names,
    h'.fault.trans h.fault⟩

/-- The counterpart of a node. -/
theorem exists_node (h : g.SameSource g') {id : NodeId} {node : Node} (hnode : g.node? id = some node) :
    ∃ node', g'.node? id = some node' ∧ node'.source = node.source := by
  have hsource := h.nodes id
  rw [hnode] at hsource
  exact Option.map_eq_some_iff.mp hsource

/-- Where no more than beliefs differ, the syntax trees are the same. -/
theorem sameTree (h : g.SameSource g') : g.SameTree g' := by
  refine ⟨h.units, fun id => ?_, h.names, h.fault⟩
  have hbare : ∀ o : Option Node, o.map Node.bare = (o.map Node.source).map Node.bare := by
    intro o
    rw [Option.map_map]
    rfl
  rw [hbare, hbare (g.node? id), h.nodes]

end SameSource

/-- A belief takes the place of another one. -/
theorem sameSource_setBelief {g : Graph} {id : NodeId} {b : Belief} (h : g.belief? id = some b)
    (next : Belief) : g.SameSource (g.setBelief id next) := by
  obtain ⟨node, hnode, hbelief⟩ := Option.bind_eq_some_iff.mp h
  refine ⟨rfl, fun other => ?_, rfl, fault_modify (lt_size hnode) _⟩
  rw [setBelief, node?_modify]
  split
  · next heq =>
    subst heq
    simp [hnode, Node.source, hbelief]
  · rfl

/-- Making a listener leaves all nodes alone. -/
theorem sameSource_mintListener (g : Graph) (r : Reaction) : g.SameSource (g.mintListener r).2 :=
  ⟨rfl, fun _ => rfl, rfl, rfl⟩

/-- A refinement changes beliefs at most. -/
theorem sameSource_refine (g : Graph) (id : NodeId) (f : Belief → Belief) :
    g.SameSource (g.refine id f).1 := by
  unfold refine
  split
  · next hbelief => exact sameSource_setBelief hbelief _
  · exact SameSource.refl g

/-- Telling a listener. -/
theorem sameSource_deliver (g : Graph) (notice : Notice) : g.SameSource (g.deliver notice).1 := by
  unfold deliver
  split
  · exact g.sameSource_refine _ _
  · exact g.sameSource_refine _ _
  · exact ⟨rfl, fun _ => rfl, rfl, rfl⟩

/-- Telling several listeners. -/
theorem sameSource_drain (n : Nat) (g : Graph) (pending : List Notice) :
    g.SameSource (drain n g pending) := by
  induction n generalizing g pending with
  | zero => cases pending <;> exact SameSource.refl g
  | succ n ih =>
    cases pending with
    | nil => exact SameSource.refl g
    | cons notice rest => exact (g.sameSource_deliver notice).trans (ih _ _)

/-- Delivering notices changes beliefs at most, with all the consequences. -/
theorem sameSource_settle (g : Graph) (pending : List Notice) : g.SameSource (g.settle pending) := by
  unfold settle
  split
  · exact SameSource.refl g
  · exact sameSource_drain _ g pending

/-- **Observing.** -/
theorem sameSource_observe (g : Graph) (id : NodeId) (o : Observation) :
    g.SameSource (g.observe id o) :=
  (g.sameSource_refine id _).trans (sameSource_settle _ _)

/-- **Widening.** -/
theorem sameSource_widen (g : Graph) (id : NodeId) (os : List Observation) :
    g.SameSource (g.widen id os) :=
  (g.sameSource_refine id _).trans (sameSource_settle _ _)

/-- **Subscribing.** -/
theorem sameSource_subscribe (g : Graph) (id : NodeId) (l : Listener) :
    g.SameSource (g.subscribe id l) := by
  unfold subscribe
  split
  · next hbelief =>
    dsimp only
    split
    · exact sameSource_setBelief hbelief _
    · exact (sameSource_setBelief hbelief _).trans (sameSource_settle _ _)
  · exact SameSource.refl g

/-- **Unsubscribing.** -/
theorem sameSource_unsubscribeOwned (g : Graph) (id owner : NodeId) :
    g.SameSource (g.unsubscribeOwned id owner) := by
  unfold unsubscribeOwned keepListeners
  split
  · next hbelief => exact sameSource_setBelief hbelief _
  · exact SameSource.refl g

/-- **Creating.** The first observation of a new node changes what is believed about it only. -/
theorem sameSource_addTyped (g : Graph) (node : Node) (o : Observation) :
    (g.add node).2.SameSource (g.addTyped node o).2 :=
  sameSource_observe _ _ _

/-- It makes no unit. -/
theorem units_addTyped (g : Graph) (node : Node) (o : Observation) : (g.addTyped node o).2.units = g.units :=
  (g.sameSource_addTyped node o).units

/-! ## The tree meanwhile -/

/-- A belief that is replaced leaves the syntax trees. -/
theorem sameTree_setBelief {g : Graph} {id : NodeId} {b : Belief} (h : g.belief? id = some b)
    (next : Belief) : g.SameTree (g.setBelief id next) :=
  (sameSource_setBelief h next).sameTree

/-- Refining a belief leaves the syntax trees. -/
theorem sameTree_refine (g : Graph) (id : NodeId) (f : Belief → Belief) :
    g.SameTree (g.refine id f).1 :=
  (g.sameSource_refine id f).sameTree

/-- An observation leaves the syntax trees. -/
theorem sameTree_observe (g : Graph) (id : NodeId) (o : Observation) :
    g.SameTree (g.observe id o) :=
  (g.sameSource_observe id o).sameTree

/-- Widening leaves the syntax trees. -/
theorem sameTree_widen (g : Graph) (id : NodeId) (os : List Observation) :
    g.SameTree (g.widen id os) :=
  (g.sameSource_widen id os).sameTree

/-- A first observation leaves the syntax trees, among them that of the new node. -/
theorem sameTree_addTyped (g : Graph) (node : Node) (o : Observation) :
    (g.add node).2.SameTree (g.addTyped node o).2 :=
  (g.sameSource_addTyped node o).sameTree

end Graph

end ProgramGraph
