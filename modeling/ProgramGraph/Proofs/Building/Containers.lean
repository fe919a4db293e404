import ProgramGraph.Proofs.Building.Raw
import ProgramGraph.Proofs.Building.Stack

set_option autoImplicit false

/-!
# Containers of a builder

A builder makes nodes that are loose at first, and hangs each of them up in a container: in the
unit or in something open inside it. All its functions keep the graph under construction in order,
and the graph that it builds on as it is.

## Main definitions

* `ProgramGraph.Payload.Takes` — how a container takes up a node.
* `ProgramGraph.Builder.Ok` — a builder in order, with some loose nodes.
* `ProgramGraph.Builder.Follows` — how a builder may go on.
* `ProgramGraph.Builder.Goes` — a builder goes on and is in order afterwards.

## Main results

* `ProgramGraph.Builder.Ok.add`, `ProgramGraph.Builder.Ok.addTyped` — nodes are made.
* `ProgramGraph.Builder.Ok.take` — a node is hung up.
-/

namespace ProgramGraph

/-- How a container takes up a node. -/
inductive Payload.Takes (g : Graph) (id : NodeId) : Payload → Payload → Prop where
  /-- A unit takes a declaration. -/
  | declaration {declarations : List NodeId} (h : g.All Tag.isTopLevel [id]) :
    Takes g id (.unit declarations) (.unit (declarations ++ [id]))
  /-- A record takes a record or an enumeration. -/
  | record {body : RecordBody} (h : g.All Tag.isNominal [id]) :
    Takes g id (.record body) (.record { body with records := body.records ++ [id] })
  /-- A record takes a field. -/
  | field {body : RecordBody} (h : g.tag? id = some .field) :
    Takes g id (.record body) (.record { body with fields := body.fields ++ [id] })
  /-- A record takes a method. -/
  | method {body : RecordBody} (h : g.tag? id = some .function) :
    Takes g id (.record body) (.record { body with methods := body.methods ++ [id] })
  /-- A record takes a constructor. -/
  | constructor {body : RecordBody} (h : g.tag? id = some .function) :
    Takes g id (.record body) (.record { body with constructors := body.constructors ++ [id] })
  /-- An enumeration takes a constant. -/
  | constant {entries : List NodeId} {superTypes : List Descriptor}
    (h : g.tag? id = some .enumConstant) :
    Takes g id (.enum entries superTypes) (.enum (entries ++ [id]) superTypes)
  /-- A function takes a parameter. -/
  | parameter {kind : FunctionKind} {isStatic : Bool} {parameters : List NodeId}
    (h : g.tag? id = some .parameter) :
    Takes g id (.function kind isStatic parameters none)
      (.function kind isStatic (parameters ++ [id]) none)
  /-- A function takes a body. -/
  | body {kind : FunctionKind} {isStatic : Bool} {parameters : List NodeId}
    (h : g.tag? id = some .block) :
    Takes g id (.function kind isStatic parameters none) (.function kind isStatic parameters (some id))
  /-- A block takes a statement. -/
  | statement {statements : List NodeId} (h : g.All Tag.isStatement [id]) :
    Takes g id (.block statements) (.block (statements ++ [id]))

namespace Payload.Takes

variable {g : Graph} {id : NodeId} {old new : Payload}

/-- A container stays what it is. -/
theorem tag (h : Takes g id old new) : new.tag = old.tag := by
  cases h <;> rfl

/-- The node becomes a part. -/
theorem partsOf (h : Takes g id old new) : (g.partsOf new).Perm (g.partsOf old ++ [id]) := by
  cases h with
  | record _ =>
    simp only [Graph.partsOf, parts, List.append_assoc]
    exact List.Perm.refl _
  | field _ =>
    simp only [Graph.partsOf, parts, List.append_assoc]
    refine List.Perm.append_left _ (List.Perm.trans List.perm_append_comm ?_)
    simp only [List.append_assoc]
    exact List.Perm.refl _
  | method _ =>
    simp only [Graph.partsOf, parts, List.append_assoc]
    refine List.Perm.append_left _ (List.Perm.append_left _ ?_)
    refine List.Perm.trans List.perm_append_comm ?_
    simp only [List.append_assoc]
    exact List.Perm.refl _
  | constructor _ =>
    simp only [Graph.partsOf, parts, List.append_assoc]
    refine List.Perm.append_left _ (List.Perm.append_left _ (List.Perm.append_left _ ?_))
    exact List.perm_append_comm
  | parameter _ =>
    simp only [Graph.partsOf, parts, Option.toList_none, List.append_nil]
    exact List.Perm.refl _
  | body _ =>
    simp only [Graph.partsOf, parts, Option.toList_none, Option.toList_some, List.append_nil]
    exact List.Perm.refl _
  | _ => exact List.Perm.refl _

/-- The contents stay of the right kind. -/
theorem fits (h : Takes g id old new) {name : String} (hfits : g.Fits name old) :
    g.Fits name new := by
  cases h with
  | declaration h | statement h => exact Graph.All.append hfits h
  | constant h => exact Graph.All.append hfits (.single h rfl)
  | record h => exact ⟨hfits.1, hfits.2.1, hfits.2.2.1.append h, hfits.2.2.2⟩
  | field h =>
    obtain ⟨hfields, hfunctions, hrecords, self, hself, hhead, hname⟩ := hfits
    refine ⟨hfields.append (.single h rfl), hfunctions, hrecords, self, hself, ?_, hname⟩
    rw [List.head?_append, hhead]
    rfl
  | method h =>
    refine ⟨hfits.1, ?_, hfits.2.2⟩
    exact (hfits.2.1.left.append (.single h rfl)).append hfits.2.1.right
  | constructor h =>
    refine ⟨hfits.1, ?_, hfits.2.2⟩
    exact hfits.2.1.left.append (hfits.2.1.right.append (.single h rfl))
  | parameter h => exact ⟨hfits.1.append (.single h rfl), hfits.2⟩
  | body h => exact ⟨hfits.1, .single h rfl⟩

/-- An enumeration keeps its constants. -/
theorem entries (h : Takes g id old new) {entries : List NodeId} {superTypes : List Descriptor}
    (heq : old = .enum entries superTypes) :
    ∃ entries' superTypes', new = .enum entries' superTypes' ∧ entries ⊆ entries' := by
  subst heq
  cases h with
  | constant _ => exact ⟨_, _, rfl, List.subset_append_left ..⟩

/-- A container is no usage, and the field that stands for a record stays. -/
theorem isRaw (h : Takes g id old new) {name : String} (hraw : old.IsRaw g name) :
    new.IsRaw g name := by
  cases h with
  | record _ => exact hraw
  | field _ => exact hraw
  | method _ => exact hraw
  | constructor _ => exact hraw
  | _ => trivial

end Payload.Takes

namespace Graph

/-- How a graph under construction may go on: kinds, names, constants, units and parts stay, and nobody
is told of anything. -/
structure Sprouts (g g' : Graph) : Prop where
  /-- Kinds, names and constants stay. -/
  keeps : g.Keeps g'
  /-- Units stay, and none is added. -/
  units : g'.units = g.units
  /-- Nothing is recorded. -/
  journal : g'.journal = g.journal
  /-- Parts stay. -/
  parts : ∀ whole, ∀ part ∈ g.parts whole, part ∈ g'.parts whole

namespace Sprouts

variable {g g' g'' : Graph}

/-- A graph on which nothing grows. -/
theorem refl (g : Graph) : g.Sprouts g :=
  ⟨.refl g, rfl, rfl, fun _ _ h => h⟩

/-- What grows is added step by step. -/
theorem trans (h : g.Sprouts g') (h' : g'.Sprouts g'') : g.Sprouts g'' :=
  ⟨h.keeps.trans h'.keeps, h'.units.trans h.units, h'.journal.trans h.journal,
    fun whole part hpart => h'.parts whole part (h.parts whole part hpart)⟩

/-- What hangs on a unit goes on doing so. -/
theorem hangs (h : g.Sprouts g') {id : NodeId} (hid : g.Hangs [] id) : g'.Hangs [] id := by
  refine hid.mono (fun root hroot => .root ?_) h.parts
  rwa [h.units]

/-- A new node. -/
theorem adds {node : Node} (h : g.Adds g' node) (typed : g.WellTyped) (units : g'.units = g.units)
    (journal : g'.journal = g.journal) : g.Sprouts g' := by
  refine ⟨h.keeps, units, journal, fun whole part hpart => ?_⟩
  obtain ⟨old, hold, -⟩ := exists_node_of_mem_parts hpart
  rwa [h.parts_other typed (Nat.ne_of_lt (lt_size hold))]

/-- Notes change. -/
theorem of_sameTree (h : g.SameTree g') (journal : g'.journal = g.journal) : g.Sprouts g' :=
  ⟨h.keeps, h.units, journal, fun whole part hpart => by rwa [h.parts]⟩

end Sprouts

end Graph

namespace Builder

variable {g₀ : Graph} {b b' b'' : Builder} {loose rest outer : List NodeId} {id c : NodeId}

/-- A builder in order, on top of a graph, with some loose nodes. -/
structure Ok (g₀ : Graph) (b : Builder) (loose : List NodeId) : Prop where
  /-- The graph is under construction. -/
  graph : g₀.BuildsOn b.graph loose
  /-- The unit is one. -/
  unit : b.graph.tag? b.unit = some .unit
  /-- The unit is at the bottom of the stack. -/
  rooted : b.Rooted
  /-- The open containers hang somewhere, and not on loose nodes. -/
  containers : ∀ c ∈ b.containers, b.graph.Hangs [] c
  /-- The open containers were built. -/
  built : ∀ c ∈ b.containers, g₀.size ≤ c

/-- How a builder may go on. -/
structure Follows (b b' : Builder) : Prop where
  /-- The unit stays. -/
  unit : b'.unit = b.unit
  /-- The graph goes on. -/
  graph : b.graph.Sprouts b'.graph

namespace Follows

/-- A builder that does nothing. -/
theorem refl (b : Builder) : b.Follows b := ⟨rfl, .refl _⟩

/-- A builder goes on step by step. -/
theorem trans (h : b.Follows b') (h' : b'.Follows b'') : b.Follows b'' :=
  ⟨h'.unit.trans h.unit, h.graph.trans h'.graph⟩

/-- Nodes are still of their kinds when a builder goes on. -/
theorem tag? (h : b.Follows b') {tag : Tag} (htag : b.graph.tag? id = some tag) :
    b'.graph.tag? id = some tag :=
  h.graph.keeps.tag _ _ htag

end Follows

/-- A builder goes on and is in order afterwards, with the same containers open. -/
structure Goes (g₀ : Graph) (b b' : Builder) (rest : List NodeId) : Prop where
  /-- The builder is in order. -/
  ok : b'.Ok g₀ rest
  /-- It went on. -/
  follows : b.Follows b'
  /-- The same containers are open. -/
  containers : b'.containers = b.containers

/-- A builder in order that does nothing. -/
theorem Goes.refl (h : b.Ok g₀ loose) : b.Goes g₀ b loose := ⟨h, .refl b, rfl⟩

/-- A builder in order goes on step by step. -/
theorem Goes.trans (h : b.Goes g₀ b' loose) (h' : b'.Goes g₀ b'' rest) : b.Goes g₀ b'' rest :=
  ⟨h'.ok, h.follows.trans h'.follows, h'.containers.trans h.containers⟩

/-- The order of the loose nodes does not matter. -/
theorem Goes.perm (h : b.Goes g₀ b' loose) (hperm : loose.Perm rest) : b.Goes g₀ b' rest :=
  ⟨⟨h.ok.graph.perm hperm, h.ok.unit, h.ok.rooted, h.ok.containers, h.ok.built⟩, h.follows, h.containers⟩

/-- The innermost open container stays the same. -/
theorem Goes.current (h : b.Goes g₀ b' rest) : b'.current = b.current := by
  unfold Builder.current
  rw [h.containers, h.follows.unit]

/-- A new node with a first observation. -/
theorem addTyped_eq {node : Node} (new : Graph.IsNew node) (b : Builder) (o : Observation) :
    b.addTyped node o = b.add (Graph.firstSeen node o) := by
  unfold addTyped add
  rw [Graph.addTyped_eq fun belief hbelief => by rw [new.belief belief hbelief]]

namespace Ok

/-- A builder whose graph goes on. -/
theorem goes (h : b.Ok g₀ loose) {g : Graph} (hgraph : b.graph.Sprouts g)
    (hg : g₀.BuildsOn g rest) : b.Goes g₀ { b with graph := g } rest :=
  ⟨⟨hg, hgraph.keeps.tag _ _ h.unit, h.rooted, fun c hc => hgraph.hangs (h.containers c hc), h.built⟩,
    ⟨rfl, hgraph⟩, rfl⟩

/-! ## Making and hanging up nodes -/

/-- **Making a node** of loose nodes. -/
theorem add (h : b.Ok g₀ loose) (node : Node) (fresh : b.graph.IsFresh node)
    (fits : b.graph.Fits node.name node.payload)
    (before : loose.Perm (b.graph.partsOf node.payload ++ rest)) :
    b.Goes g₀ (b.add node).2 (b.graph.size :: rest) ∧
      (b.add node).2.graph.node? b.graph.size = some node := by
  have hadds := b.graph.adds_add node
  exact ⟨h.goes (.adds hadds h.graph.wellFormed.typed rfl rfl) (h.graph.adds hadds fresh fits rfl rfl before),
    hadds.found⟩

/-- **Making a node** of loose nodes, with a first observation. -/
theorem addTyped (h : b.Ok g₀ loose) (node : Node) (o : Observation) (new : Graph.IsNew node)
    (hraw : node.payload.IsRaw b.graph node.name) (fits : b.graph.Fits node.name node.payload)
    (before : loose.Perm (b.graph.partsOf node.payload ++ rest)) :
    b.Goes g₀ (b.addTyped node o).2 (b.graph.size :: rest) ∧
      (b.addTyped node o).2.graph.node? b.graph.size = some (Graph.firstSeen node o) := by
  rw [addTyped_eq new]
  exact h.add _ (new.isFresh_firstSeen hraw o) fits before

/-- **Hanging a loose node up** in a container.

**Proof sketch.** The payload of the container changes and nothing else does, so that nothing loses a part.
The node that is hung up becomes a part of the container, which itself hangs below a root that is not loose.
-/
theorem take (h : b.Ok g₀ (id :: rest)) (hc : c ∈ b.containers) {old : Payload}
    (hold : b.graph.payload? c = some old) {f : Payload → Payload}
    (htakes : old.Takes b.graph id (f old)) :
    b.Goes g₀ { b with graph := b.graph.modifyPayload c f } rest ∧
      (b.graph.modifyPayload c f).Hangs [] id ∧
        (b.graph.modifyPayload c f).payload? c = some (f old) := by
  obtain ⟨node, hnode, rfl⟩ := Graph.exists_node_of_payload? hold
  have hkeeps : b.graph.Keeps (b.graph.modifyPayload c f) :=
    Graph.keeps_modifyPayload hnode htakes.tag fun _ _ heq => htakes.entries heq
  have hfits := htakes.fits (h.graph.wellFormed.typed.nodes c node hnode)
  have habove : b.graph.Hangs rest c := by
    refine (h.containers c hc).mono (fun root hroot => .root ?_) fun _ _ hpart => hpart
    exact List.mem_append_left _ (by simpa using hroot)
  have hself := Graph.parts_modifyPayload_self hnode hkeeps hfits
  have hsprouts : b.graph.Sprouts (b.graph.modifyPayload c f) := by
    refine ⟨hkeeps, rfl, rfl, fun whole part hpart => ?_⟩
    by_cases hwhole : whole = c
    · subst hwhole
      rw [Graph.parts_eq hnode] at hpart
      rw [hself]
      exact htakes.partsOf.mem_iff.mpr (List.mem_append_left _ hpart)
    · rwa [Graph.parts_modifyPayload_of_ne h.graph.wellFormed.typed hkeeps hwhole]
  have hraw := htakes.isRaw (h.graph.raw.payload c node (h.built c hc) hnode)
  have hattached := h.graph.attach (h.built c hc) hnode hkeeps htakes.partsOf hfits hraw habove
  refine ⟨h.goes hsprouts hattached, ?_, ?_⟩
  · refine (hsprouts.hangs (h.containers c hc)).part ?_
    rw [hself]
    exact htakes.partsOf.mem_iff.mpr (List.mem_append_right _ (List.mem_singleton.mpr rfl))
  · rw [Graph.payload?_eq (Graph.node?_modifyPayload_self hnode)]

/-- Opening a container that hangs somewhere. -/
theorem push (h : b.Ok g₀ loose) (hid : b.graph.Hangs [] id) (hle : g₀.size ≤ id) :
    (b.push id).Ok g₀ loose := by
  refine ⟨h.graph, h.unit, h.rooted.push id, fun c hc => ?_, fun c hc => ?_⟩
  · rcases List.mem_cons.mp hc with rfl | hc
    · exact hid
    · exact h.containers c hc
  · rcases List.mem_cons.mp hc with rfl | hc
    · exact hle
    · exact h.built c hc

/-- Taking a container from the stack that is not the only one. -/
theorem pop (h : b.Ok g₀ loose) (hopen : 1 < b.containers.length) : b.pop.Ok g₀ loose :=
  ⟨h.graph, h.unit, h.rooted.pop hopen, fun c hc => h.containers c (List.mem_of_mem_tail hc),
    fun c hc => h.built c (List.mem_of_mem_tail hc)⟩

/-- The open containers are there. -/
theorem lt_size (h : b.Ok g₀ loose) (hc : c ∈ b.containers) : c < b.graph.size :=
  (h.containers c hc).lt_size h.graph.wellFormed.tree

/-- The innermost container is there. -/
theorem expect_current (h : b.Ok g₀ loose) : b.expect b.current = b :=
  expect_eq_self (h.lt_size h.rooted.current_mem)

end Ok

end Builder

end ProgramGraph
