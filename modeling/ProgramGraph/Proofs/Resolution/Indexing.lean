import ProgramGraph.Proofs.Syntax.Preorder
import ProgramGraph.Proofs.Walks.Declared
import ProgramGraph.Resolution.Index

set_option autoImplicit false

/-!
# The index of a well-formed graph

Indexing a well-formed graph never fails. It visits all nodes in preorder, and the record that the
index holds for a type is the first one visited whose name spells the type, as is the enumeration.

## Main definitions

* `ProgramGraph.Graph.spells` — the name of a node of a kind spells a type.
* `ProgramGraph.Graph.superTypesOf`, `ProgramGraph.Graph.fieldsOf` — contents of records.
* `ProgramGraph.Index.Lists` — the index lists the declared types of visited nodes.
* `ProgramGraph.Index.Indexed` — what indexing a graph comes to.

## Main results

* `ProgramGraph.Index.build_ok` — indexing a well-formed graph.
-/

namespace ProgramGraph

namespace Graph

/-! ## Contents of records -/

/-- The fields of the record with a number. -/
def fieldsOf (g : Graph) (id : NodeId) : List NodeId :=
  match g.payload? id with
  | some (.record body) => body.fields
  | _ => []

/-- The field that stands for the record with a number. -/
def selfOf (g : Graph) (id : NodeId) : Option NodeId :=
  match g.payload? id with
  | some (.record body) => body.self
  | _ => none

/-- The declared supertypes of the record or the enumeration with a number. -/
def superTypesOf (g : Graph) (id : NodeId) : List Descriptor :=
  match g.payload? id with
  | some (.record body) => body.superTypes
  | some (.enum _ superTypes) => superTypes
  | _ => []

variable {g : Graph} {id : NodeId} {node : Node}

/-- The fields of a node can be read. -/
theorem fields_eq (h : g.node? id = some node) : g.fields id = .ok (g.fieldsOf id) := by
  rw [fields, node_eq_ok.mpr h, fieldsOf, payload?_eq h]
  simp only [bind, Except.bind]
  cases node.payload <;> rfl

/-- The field that stands for a node can be read. -/
theorem self?_eq (h : g.node? id = some node) : g.self? id = .ok (g.selfOf id) := by
  rw [self?, node_eq_ok.mpr h, selfOf, payload?_eq h]
  simp only [bind, Except.bind]
  cases node.payload <;> rfl

/-- The supertypes of a node can be read. -/
theorem superTypes_eq (h : g.node? id = some node) :
    g.superTypes id = .ok (g.superTypesOf id) := by
  rw [superTypes, node_eq_ok.mpr h, superTypesOf, payload?_eq h]
  simp only [bind, Except.bind]
  cases node.payload <;> rfl

/-- The constants of a node can be read. -/
theorem entries_eq (h : g.node? id = some node) : g.entries id = .ok (g.entriesOf id) := by
  rw [entries, node_eq_ok.mpr h, entriesOf, payload?_eq h]
  simp only [bind, Except.bind]
  cases node.payload <;> rfl

/-- The name of a node of a kind spells a type. -/
def spells (g : Graph) (tag : Tag) (type : Descriptor) (id : NodeId) : Bool :=
  (g.node? id).any fun node => node.tag == tag && Descriptor.parse node.name == type

/-- Whose name spells a type. -/
theorem spells_iff {tag : Tag} {type : Descriptor} :
    g.spells tag type id = true ↔
      ∃ node, g.node? id = some node ∧ node.tag = tag ∧ Descriptor.parse node.name = type := by
  simp [spells, Option.any_eq_true]

end Graph

/-! ## Entering nodes -/

namespace Index

/-- The index lists the declared types of the nodes visited so far, and nothing else. -/
structure Lists (g : Graph) (V : List NodeId) (index : Index) : Prop where
  /-- The first record of a type is listed. -/
  records : ∀ type, index.record? type = V.find? (g.spells .record type)
  /-- The first enumeration of a type is listed. -/
  enums : ∀ type, index.enum? type = V.find? (g.spells .enum type)
  /-- What is listed is there. -/
  found : ∀ p ∈ index.records.entries, ∃ node, g.node? p.2 = some node
  /-- No type is listed twice. -/
  nodup : index.records.keys.Nodup ∧ index.enums.keys.Nodup
  /-- Nothing stands in for a member yet. -/
  dummies : index.dummies = ∅
  /-- The unit for made-up declarations is not needed yet. -/
  placeholderUnit : index.placeholderUnit = none

variable {g : Graph} {V : List NodeId} {index : Index} {id : NodeId} {node : Node}

/-- Nothing is listed at the start. -/
theorem Lists.start (g : Graph) : Lists g [] {} :=
  ⟨fun _ => rfl, fun _ => rfl, fun _ h => absurd h List.not_mem_nil, ⟨List.nodup_nil, List.nodup_nil⟩,
    rfl, rfl⟩

/-- Searching on. -/
theorem find?_append_spells {tag : Tag} {type : Descriptor} (hnode : g.node? id = some node) :
    (V ++ [id]).find? (g.spells tag type) =
      (V.find? (g.spells tag type)).or
        (if node.tag = tag ∧ Descriptor.parse node.name = type then some id else none) := by
  rw [List.find?_append]
  congr 1
  rw [List.find?_singleton]
  by_cases hspells : g.spells tag type id = true
  · obtain ⟨node', hnode', htag, htype⟩ := Graph.spells_iff.mp hspells
    obtain rfl := Option.some.inj (hnode.symm.trans hnode')
    rw [if_pos hspells, if_pos ⟨htag, htype⟩]
  · rw [if_neg hspells, if_neg fun h => hspells (Graph.spells_iff.mpr ⟨node, hnode, h.1, h.2⟩)]

/-- **Entering a node.**

**Proof sketch.** By the kind of the node. A record or an enumeration is put under its type unless one is
there, which is what the first hit in the longer list is; any other node is not asked for. -/
theorem Lists.enter (h : Lists g V index) (hnode : g.node? id = some node) :
    Lists g (V ++ [id]) (index.enter id node) := by
  have hsame : ∀ {tag : Tag} {o : Option NodeId} {type : Descriptor}, node.tag ≠ tag →
      o.or (if node.tag = tag ∧ Descriptor.parse node.name = type then some id else none) = o := by
    intro tag o type hne
    rw [if_neg fun h => hne h.1, Option.or_none]
  have hrecord : ∀ {type : Descriptor} {o : Option NodeId},
      o.or (if type = Descriptor.parse node.name then some id else none) =
        o.or (if Descriptor.parse node.name = type then some id else none) := by
    intro type o
    simp only [eq_comm]
  unfold Index.enter
  split
  · next htag =>
    refine ⟨fun type => ?_, fun type => ?_, fun p hp => ?_,
      ⟨Assoc.nodup_keys_putNew _ _ h.nodup.1, h.nodup.2⟩, h.dummies, h.placeholderUnit⟩
    · rw [find?_append_spells hnode, ← h.records, record?, Assoc.get?_putNew, hrecord]
      simp only [htag, true_and]
      rfl
    · rw [find?_append_spells hnode, ← h.enums, hsame (by rw [htag]; decide)]
      rfl
    · simp only [Assoc.putNew] at hp
      split at hp
      · exact h.found p hp
      · rcases Assoc.mem_entries_put hp with hp | hp
        · exact h.found p hp
        · exact ⟨node, hp ▸ hnode⟩
  · next htag =>
    refine ⟨fun type => ?_, fun type => ?_, h.found,
      ⟨h.nodup.1, Assoc.nodup_keys_putNew _ _ h.nodup.2⟩, h.dummies, h.placeholderUnit⟩
    · rw [find?_append_spells hnode, ← h.records, hsame (by rw [htag]; decide)]
      rfl
    · rw [find?_append_spells hnode, ← h.enums, enum?, Assoc.get?_putNew, hrecord]
      simp only [htag, true_and]
      rfl
  · next hrec henum =>
    refine ⟨fun type => ?_, fun type => ?_, h.found, h.nodup, h.dummies, h.placeholderUnit⟩
    · rw [find?_append_spells hnode, ← h.records, hsame hrec]
    · rw [find?_append_spells hnode, ← h.enums, hsame henum]

/-- Nothing is counted meanwhile. -/
theorem counters_enter (index : Index) (id : NodeId) (node : Node) :
    (index.enter id node).counters = index.counters := by
  unfold Index.enter
  split <;> rfl

/-! ## Supertypes -/

/-- The supertypes of the listed records can be read. -/
theorem mapM_superTypes {entries : List (Descriptor × NodeId)}
    (h : ∀ p ∈ entries, ∃ node, g.node? p.2 = some node) :
    (entries.mapM fun (type, record) => do return (type, ← g.superTypes record)) =
      (.ok (entries.map fun p => (p.1, g.superTypesOf p.2)) : Except Fault _) := by
  refine mapM_eq_ok fun p hp => ?_
  obtain ⟨node, hnode⟩ := h p hp
  simp only [Graph.superTypes_eq hnode]
  rfl

/-- What indexing a graph comes to: the table of its scopes, and the index of the nodes in
preorder. -/
structure Indexed (g : Graph) (t : ScopeTable) (index : Index) (V : List NodeId) : Prop where
  /-- All nodes are visited, each before its parts. -/
  preorder : Preorder g.parts g.units V
  /-- Nothing is visited twice. -/
  nodup : V.Nodup
  /-- Whatever stands somewhere is visited. -/
  complete : ∀ p id, g.Stands p id → id ∈ V
  /-- What is visited stands somewhere. -/
  placed : ∀ id ∈ V, ∃ p, g.Stands p id
  /-- The index lists the visited nodes. -/
  lists : Lists g V index
  /-- The declared types are counted, and nothing else. -/
  counters : index.counters = { recordsIndexed := index.records.size, enumsIndexed := index.enums.size }
  /-- The supertypes of a type are those that its record declares. -/
  superTypes : ∀ type, index.superTypesOf type =
    ((index.record? type).map g.superTypesOf).getD []
  /-- What the table says of scopes around scopes is right. -/
  nests : t.Nests g []
  /-- The table holds the declarations of all scopes. -/
  holds : t.Holds g

/-- **Completing the index** does not fail. -/
theorem Lists.complete (h : Lists g V index) :
    ∃ completed, index.complete g = .ok completed ∧ Lists g V completed ∧
      completed.counters = { index.counters with
        recordsIndexed := completed.records.size, enumsIndexed := completed.enums.size } ∧
      ∀ type, completed.superTypesOf type = ((completed.record? type).map g.superTypesOf).getD [] := by
  unfold Index.complete
  rw [mapM_superTypes h.found]
  refine ⟨_, rfl, ⟨h.records, h.enums, h.found, h.nodup, h.dummies, h.placeholderUnit⟩, rfl, fun type => ?_⟩
  simp only [superTypesOf, record?, Assoc.get?]
  rw [Assoc.find_map]

/-! ## The walk -/

/-- Indexing under way: the walk, its table and its index, and the preorder it follows. -/
structure Indexing (g : Graph) (V rest : List NodeId) (s : Walk.State Index) : Prop where
  /-- The walk is under way. -/
  walk : Walk.Underway g.size V rest s
  /-- The graph does not change. -/
  graph : s.graph = g
  /-- The declarations are entered into the table. -/
  declares : Walk.Declares V s
  /-- The scopes are entered into the table. -/
  nests : s.table.Nests g V
  /-- The types are entered into the index. -/
  lists : Lists g V s.carried
  /-- Nothing is counted yet. -/
  counters : s.carried.counters = {}
  /-- What was visited begins the preorder. -/
  preorder : ∀ after, Preorder g.parts (Walk.entered s.todo ++ rest) after →
    Preorder g.parts g.units (V ++ after)

/-- Indexing begins. -/
theorem Indexing.start (wf : g.WellFormed []) :
    Indexing g [] g.units { todo := [], table := ∅, graph := g, carried := {} } := by
  refine ⟨.start wf _ _ _, rfl, .start g _, ⟨?_, ?_⟩, .start g, rfl, fun after hafter => hafter⟩
  · exact fun scope outer h => nomatch (show none = some outer from h)
  · exact fun scope h => absurd h List.not_mem_nil

/-- The invariant of the walk that indexes a graph.

**Proof sketch.** The handler never changes the graph and never fails. So a visit notes a scope and enters one
node in the index, and the invariant of the walk itself does the rest. -/
theorem indexing_keeps (g : Graph) : Walk.Keeps Index.handler g.size (Indexing g) where
  enter {V rest s id todo} h htodo := by
    obtain ⟨hstands, node, hnode⟩ := h.walk.stands htodo
    have hgraph := h.graph
    subst hgraph
    have hhandler : Index.handler (Walk.note s.table s.place id node) (Walk.visitOf s.place id node)
        s.graph s.carried = .ok (s.graph, s.carried.enter id node) := by
      simp only [Index.handler, Walk.visitOf, Graph.node_eq_ok.mpr hnode]
      rfl
    refine ⟨node, s.graph.parts id, s.graph, s.carried.enter id node,
      Walk.visit_eq hnode hhandler (h.walk.wellFormed.typed.children_eq hnode), ?_⟩
    refine ⟨?_, rfl, ?_, ?_, h.lists.enter hnode, (counters_enter ..).trans h.counters,
      Walk.preorder_visited h.preorder htodo rfl⟩
    · exact h.walk.visit htodo (Graph.Grows.refl _ _) (fun _ _ _ hpart => hpart) h.walk.wellFormed
        hnode _
    · exact h.declares.visit h.walk htodo hnode _
    · exact h.nests.note h.walk.wellFormed.tree hstands hnode
  leave {V rest s scope recordType todo} h htodo := by
    refine ⟨h.walk.leave htodo, h.graph, h.declares.leave htodo, h.nests, h.lists, h.counters, ?_⟩
    have := h.preorder
    rwa [htodo] at this
  next {V root rest s} h htodo := by
    refine ⟨h.walk.next htodo, h.graph, h.declares.next htodo, h.nests, h.lists, h.counters, ?_⟩
    have := h.preorder
    rwa [htodo] at this
  visits {V rest s} h := by
    have := h.walk.length_le
    rwa [h.graph] at this
  steps {V rest s} h := by
    have := Walk.le_stepBound s.graph
    rw [h.graph] at this ⊢
    omega

/-- **Indexing a well-formed graph** does not fail.

**Proof sketch.** The invariant of indexing holds at the end of the walk, where nothing is left to be entered:
so the lists are those of the whole preorder and every scope has all of its declarations. -/
theorem build_ok {g : Graph} (wf : g.WellFormed []) :
    ∃ t index V, Index.build g = .ok (t, index) ∧ Indexed g t index V := by
  obtain ⟨V, s, hwalk, htodo, hend⟩ := (indexing_keeps g).walkAll (.start wf) rfl
  have hgraph := hend.graph
  subst hgraph
  obtain ⟨index, hcomplete, hlists, hcounters, hsuper⟩ := hend.lists.complete
  rw [hend.counters] at hcounters
  refine ⟨s.table, index, V, ?_, ?_⟩
  · unfold Index.build
    simp only at hwalk
    rw [hwalk]
    simp only [bind, Except.bind, hcomplete]
    rfl
  · refine ⟨?_, ?_, ?_, hend.walk.placed, hlists, hcounters, hsuper, ?_, ?_⟩
    · have := hend.preorder []
      rw [htodo] at this
      simpa using this .nil
    · exact (List.nodup_append.mp hend.walk.nodup).1
    · intro p id hp
      exact hend.walk.complete htodo rfl (.refl _ _) hp (hp.lt_size wf.tree)
    · exact ⟨hend.nests.sound, fun _ h => absurd h List.not_mem_nil⟩
    · refine ⟨fun p scope tag hp htag hopens => ?_, fun scope d hd => ?_⟩
      · have hV := hend.walk.complete htodo rfl (.refl _ _) hp (hp.lt_size wf.tree)
        have := hend.declares.opened scope hV tag htag hopens
        rwa [htodo, Walk.pending, List.append_nil] at this
      · obtain ⟨-, hscope, tag, htag, hopens⟩ := hend.declares.held scope d hd
        obtain ⟨p, hp⟩ := hend.walk.placed scope hscope
        exact ⟨p, tag, hp, htag, hopens⟩

end Index

end ProgramGraph
