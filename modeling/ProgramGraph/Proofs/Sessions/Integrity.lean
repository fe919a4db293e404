import ProgramGraph.Proofs.Resolution.Valued
import ProgramGraph.Proofs.Sessions.Accounts
import ProgramGraph.Proofs.Sessions.Precedence
import ProgramGraph.Proofs.Walks.Audit

set_option autoImplicit false

/-!
# No number dangles

Nodes are read and written by number everywhere, and numbers are kept in many places. After every session
each number that is kept anywhere is that of a node, and so it is at every visit of a resolution, in the
index too. So nothing that reads or writes a graph ever comes to a number without a node.

## Main definitions

* `ProgramGraph.Graph.Intact` — no number dangles, and exactly the nodes that carry a value have a belief.
* `ProgramGraph.Graph.Readable` — whatever reads a graph finds the nodes that it asks for.
* `ProgramGraph.Graph.auditedUsages` — a resolution that is audited at every visit.

## Main results

* `ProgramGraph.Graph.Fits.held_lt` — the links of a node in a well-formed graph lead to nodes.
* `ProgramGraph.Resolver.Sound.audit` — a resolution under way passes an audit.
* `ProgramGraph.Graph.after_intact` — sessions.
-/

namespace ProgramGraph

namespace Graph

variable {g g' : Graph} {id : NodeId} {name : String}

/-- No number dangles: neither those in the list of units, in the index by name, in payloads or of
followers, nor any that was written to. Exactly the nodes that carry a value have a belief. -/
structure Intact (g : Graph) : Prop where
  /-- Nothing but nodes was ever written to. A write to another number would have left a fault, and faults
  stay. -/
  faultless : g.fault = none
  /-- Whatever number is held is that of a node. -/
  held : ∀ id ∈ g.held, id < g.size
  /-- Whatever is listed under a name is a node, -/
  named_lt : ∀ name, ∀ id ∈ g.named name, id < g.size
  /-- and listed are just the nodes with that name. -/
  named : ∀ name, g.named name = g.filter fun node => node.name == name
  /-- Beliefs are where they belong. -/
  valued : g.Valued

/-- A resolution that looks for dangling numbers before and after each call of a handler, and once more in
the end. -/
def auditedUsages (g : Graph) : Except Fault (Graph × Index) := do
  let (table, g, index) ← walkAll Index.handler.audited ∅ g {} g.units
  let index ← index.complete g
  audit g index
  let (_, g, index) ← walkAll Resolver.handler.audited table g index g.units
  audit g index
  return (g, index)

/-- Whatever reads or writes a graph finds the nodes that it asks for. -/
structure Readable (g : Graph) : Prop where
  /-- The usages can be resolved, and audits at every visit find neither a number that is held nor one that
  was written to without a node. -/
  resolving : ∃ result, g.resolveUsages = .ok result ∧ g.auditedUsages = .ok result
  /-- The nodes can be counted. -/
  counting : ∃ statistics, g.statistics = .ok statistics
  /-- The links can be collected. -/
  linking : ∃ links, g.links = .ok links
  /-- The syntax tree below a node can be read. -/
  descending : ∀ id, id < g.size → ∃ below, g.subnodes id = .ok below
  /-- Nodes can be looked up by kind and name, and what is found is the first node of that kind and that
  name, if there is one. -/
  finding : ∀ tag name, g.find? tag name =
    .ok (g.filter fun node => node.name == name && node.tag == tag).head?

/-! ## Numbers in a graph -/

/-- **The numbers in a payload** that fits are those of nodes.

**Proof sketch.** The parts of a node are of kinds that it may have, and so they are nodes. What a reference
means and the base and the member of an access fit, and so does the field that stands for a record. -/
theorem Fits.held_lt {payload : Payload} (h : g.Fits name payload) : ∀ id ∈ payload.held, id < g.size := by
  intro id hid
  unfold Payload.held at hid
  rcases List.mem_append.mp hid with hid | hid
  · cases payload with
    | memberAccess _ _ => exact absurd hid List.not_mem_nil
    | _ => exact h.all_parts.lt_size hid
  · cases payload with
    | record body =>
      obtain ⟨-, -, -, self, hself, -, hname⟩ := h
      obtain rfl := Option.some.inj (hself.symm.trans (Option.mem_toList.mp hid))
      obtain ⟨node, hnode, -⟩ := exists_node_of_name? hname
      exact lt_size hnode
    | reference target _ => exact (h id (Option.mem_toList.mp hid)).1.lt_size (List.mem_singleton.mpr rfl)
    | memberAccess base member => exact h.access_lt_size id hid
    | _ => exact absurd hid List.not_mem_nil

/-- **Followers** are references, which are nodes. -/
theorem Wired.target_lt (h : g.Wired) {node : Node} (hnode : g.node? id = some node) :
    ∀ target ∈ (node.belief.toList.flatMap Belief.listeners).filterMap Listener.target?,
      target < g.size := by
  intro target htarget
  obtain ⟨l, hl, hfollows⟩ := List.mem_filterMap.mp htarget
  obtain ⟨b, hb, hlistens⟩ := List.mem_flatMap.mp hl
  have hbelief : g.belief? id = some b := by
    rw [belief?, hnode]
    exact Option.mem_toList.mp hb
  obtain ⟨r, hr, hmeans⟩ := h.followed id b hbelief l hlistens
  rw [Listener.target?, hr] at hfollows
  obtain rfl := Option.some.inj hfollows
  exact lt_size_of_tag? (tag?_of_targetOf hmeans)

/-- **No number dangles** in a well-formed graph in which the references listen to what they mean. -/
theorem WellFormed.held_lt {loose : List NodeId} (h : g.WellFormed loose) (wired : g.Wired) :
    ∀ id ∈ g.held, id < g.size := by
  have typed := h.typed
  intro id hid
  rcases List.mem_append.mp hid with hid | hid
  · rcases List.mem_append.mp hid with hid | hid
    · exact typed.units.lt_size hid
    · obtain ⟨name, hname⟩ := NameIndex.mem_values_flatten_iff.mp hid
      exact h.listed.named_lt hname
  · obtain ⟨node, hmem, hid⟩ := List.mem_flatMap.mp hid
    obtain ⟨whole, hnode⟩ := mem_nodes_iff.mp hmem
    rcases List.mem_append.mp hid with hid | hid
    · exact (typed.nodes whole node hnode).held_lt id hid
    · exact wired.target_lt hnode id hid

/-! ## Reading a graph -/

/-- **Counting** finds every member that an access has. -/
theorem WellTyped.exists_statistics (typed : g.WellTyped) : ∃ s, g.statistics = .ok s := by
  have hresolved : ∀ node ∈ g.nodes.toList, ∃ resolved, g.isResolvedMember node = .ok resolved ∧ True := by
    intro node hmem
    obtain ⟨id, hnode⟩ := mem_nodes_iff.mp hmem
    have hfits := typed.nodes id node hnode
    unfold isResolvedMember
    cases hkind : node.payload with
    | memberAccess base member =>
      cases member with
      | none => exact ⟨_, rfl, trivial⟩
      | some member =>
        rw [hkind] at hfits
        obtain ⟨found, hfound⟩ := exists_node (hfits.access_lt_size member (by simp))
        exact ⟨_, by simp only [isValueDeclaration, node_eq_ok.mpr hfound]; rfl, trivial⟩
    | _ => exact ⟨_, rfl, trivial⟩
  obtain ⟨all, hall, -⟩ := exists_mapM_eq_ok hresolved
  exact ⟨_, by rw [statistics, hall]; rfl⟩

/-- The link from a slot of an access. -/
theorem exists_slotLink_of_lt {slot : NodeId} (h : slot < g.size) (source : NodeId) (usage : Node)
    (kind : LinkKind) : ∃ links, g.slotLink source usage kind slot = .ok links := by
  obtain ⟨node, hnode⟩ := exists_node h
  obtain ⟨links, hlinks, -⟩ := exists_slotLink (tag?_eq hnode) source usage kind
  exact ⟨links, hlinks⟩

/-- **Collecting links** finds whatever a usage means.

**Proof sketch.** The links of each node are collected on their own. What a reference or an access links to
fits, and so it is a node, which is read for its name. -/
theorem WellTyped.exists_links (typed : g.WellTyped) : ∃ links, g.links = .ok links := by
  have hlinks : ∀ id ∈ g.ids, ∃ links, g.linksOf id = .ok links ∧ True := by
    intro id hid
    obtain ⟨node, hnode⟩ := exists_node (List.mem_range.mp hid)
    have hfits := typed.nodes id node hnode
    rw [linksOf, node_eq_ok.mpr hnode]
    cases hkind : node.payload with
    | reference target isStatic =>
      cases target with
      | none => exact ⟨_, by simp only [bind, Except.bind, hkind]; rfl, trivial⟩
      | some target =>
        rw [hkind] at hfits
        obtain ⟨link, hlink, -⟩ := exists_link ((hfits target rfl).1.lt_size (List.mem_singleton.mpr rfl))
          id node .refersTo
        exact ⟨_, by simp only [bind, Except.bind, hkind, hlink]; rfl, trivial⟩
    | memberAccess base member =>
      rw [hkind] at hfits
      have hlt := hfits.access_lt_size
      obtain ⟨bases, hbases⟩ := exists_slotLink_of_lt (hlt base (by simp)) id node .base
      cases member with
      | none => exact ⟨bases, by simp only [bind, Except.bind, hkind, hbases], trivial⟩
      | some member =>
        obtain ⟨members, hmembers⟩ := exists_slotLink_of_lt (hlt member (by simp)) id node .member
        exact ⟨_, by simp only [bind, Except.bind, hkind, hbases, hmembers]; rfl, trivial⟩
    | _ => exact ⟨_, by simp only [bind, Except.bind, hkind]; rfl, trivial⟩
  obtain ⟨lists, hlists, -⟩ := exists_mapM_eq_ok hlinks
  exact ⟨_, by rw [links, hlists]; rfl⟩

end Graph

/-! ## Runs -/

/-- **Indexing under way** passes an audit. -/
theorem Index.Lists.audit {g : Graph} {V loose : List NodeId} {index : Index} (h : Lists g V index)
    (wf : g.WellFormed loose) (wired : g.Wired) : ProgramGraph.audit g index = .ok () := by
  have hspells : ∀ {tag type id}, V.find? (g.spells tag type) = some id → id < g.size := by
    intro tag type id hid
    obtain ⟨node, hnode, -⟩ := Graph.spells_iff.mp (List.find?_some hid)
    exact Graph.lt_size hnode
  refine audit_eq_ok_iff.mpr ⟨wf.faultless, wf.held_lt wired, fun id hid => ?_⟩
  rcases mem_held_iff.mp hid with ⟨type, hid⟩ | ⟨type, hid⟩ | ⟨key, hid⟩ | hid
  · exact hspells ((h.records type).symm.trans hid)
  · exact hspells ((h.enums type).symm.trans hid)
  · rw [h.dummies] at hid
    cases hid
  · rw [h.placeholderUnit] at hid
    cases hid

namespace Resolver

/-- **A resolution under way** passes an audit. -/
theorem Sound.audit {r : Resolver} (h : r.Sound) (wired : r.graph.Wired) :
    ProgramGraph.audit r.graph r.index = .ok () := by
  refine audit_eq_ok_iff.mpr ⟨h.wellFormed.faultless, h.wellFormed.held_lt wired, fun id hid => ?_⟩
  rcases Index.mem_held_iff.mp hid with ⟨type, hid⟩ | ⟨type, hid⟩ | ⟨⟨type, name⟩, hid⟩ | hid
  · exact Graph.lt_size_of_tag? (h.records type id hid)
  · exact Graph.lt_size_of_tag? (h.enums type id hid)
  · exact Graph.lt_size_of_tag? (h.ownField_spec (h.dummies type name id hid)).1
  · obtain ⟨node, hnode, -⟩ := h.placeholderUnit id hid
    exact Graph.lt_size hnode

/-- Who listens to whom stays in order during a run. -/
theorem Resolving.wired {t₀ : ScopeTable} {r₀ : Resolver} {V rest : List NodeId} {s : Walk.State Index}
    (h : Resolving t₀ r₀ V rest s) (sound : r₀.Sound) (wired : r₀.graph.Wired) : s.graph.Wired :=
  wired.changes (h.run.reaches sound).2.changes

end Resolver

namespace Graph

variable {g g' : Graph} {past : List Graph}

/-- **Indexing passes all its audits,** and comes to what it comes to without them. -/
theorem Orderly.exists_auditedIndex (h : g.Orderly) {t₀ : ScopeTable} {index : Index}
    (hbuild : Index.build g = .ok (t₀, index)) : ∃ listed,
      walkAll Index.handler.audited ∅ g {} g.units = .ok (t₀, g, listed) ∧ listed.complete g = .ok index := by
  have hpasses : ∀ {V rest s}, Index.Indexing g V rest s → audit s.graph s.carried = .ok () := by
    intro V rest s hs
    rw [hs.graph]
    exact hs.lists.audit h.wellFormed h.wired
  obtain ⟨V, s, hwalk, -, hend⟩ :=
    ((Index.indexing_keeps g).audited hpasses).walkAll (.start h.wellFormed) rfl
  simp only [Index.build, walkAll_of_audited hwalk, bind_eq_ok_iff, Except.ok.injEq, exists_eq_left'] at hbuild
  obtain ⟨completed, hcomplete, heq⟩ := hbuild
  obtain ⟨rfl, rfl⟩ := Prod.mk.inj (Except.ok.inj heq)
  rw [hend.graph] at hwalk hcomplete
  exact ⟨s.carried, hwalk, hcomplete⟩

/-- **A resolution passes all its audits,** and comes to what it comes to without them. -/
theorem Orderly.exists_auditedUsages (h : g.Orderly) :
    ∃ result, g.resolveUsages = .ok result ∧ g.auditedUsages = .ok result := by
  have wf := h.wellFormed
  obtain ⟨t₀, index, V₀, hbuild, hindexed⟩ := Index.build_ok wf
  have sound := Resolver.Sound.start wf hindexed
  obtain ⟨listed, hlist, hcomplete⟩ := h.exists_auditedIndex hbuild
  have hpasses : ∀ {V rest s}, Resolver.Resolving t₀ ⟨g, index⟩ V rest s →
      audit s.graph s.carried = .ok () := fun hs =>
    (hs.run.reaches sound).1.audit (hs.wired sound h.wired)
  obtain ⟨V, s, hwalk, -, hend⟩ :=
    ((Resolver.Resolving.keeps wf sound hindexed.holds).audited hpasses).walkAll (.start wf hindexed) rfl
  refine ⟨(s.graph, s.carried), ?_, ?_⟩
  · simp only [resolveUsages, hbuild, bind, Except.bind, resolveWith, walkAll_of_audited hwalk]
    rfl
  · simp only at hwalk
    simp only [auditedUsages, hlist, hcomplete, sound.audit h.wired, hwalk, hpasses hend, bind, Except.bind]
    rfl

/-- **Beliefs are where they belong** at every moment of a history. -/
theorem History.valued (h : History (g :: past)) : g.Valued := by
  apply h.invariant .empty
  intro g g' horderly hg hnext
  cases hnext with
  | parse d path => exact d.valued_build path hg
  | resolve hresolve =>
    obtain ⟨r, t₀, index₀, V₀, V, rfl, run⟩ := exists_run horderly.wellFormed hresolve
    obtain ⟨vs, hdoes⟩ := run.runs.does
    exact hdoes.valued hg

/-- **No number dangles.** A session never fails, so nothing that is done in it comes to a number without a
node, be it to read or to write. After every session all numbers that the graph holds, in the list of
units, in the index by name, in payloads and by listeners, are those of nodes, and exactly the nodes that
carry a value have a belief. The usages can be resolved once more, the nodes counted, the links collected,
all syntax trees read and nodes found by their names, and no number dangles in the graph or in the index
at any visit on the way.

**Proof sketch.** A session is a history of graphs that are in order: their syntax trees are well formed,
which bounds the numbers in payloads and in the list of units, the index lists the nodes by their names, and
only references that mean something listen. Each of the readers is then followed, and finds every number it
reads among these. A resolution keeps the order at every visit, so that no audit on the way finds anything,
and the audits say that no write went astray. -/
theorem after_intact (session : List Operation) :
    ∃ g, after session = .ok g ∧ g.Intact ∧ g.Readable := by
  obtain ⟨g, hafter, hsettled⟩ := exists_settled_after session
  obtain ⟨past, hhistory⟩ := exists_history hafter
  have horderly := hhistory.orderly
  have wf := horderly.wellFormed
  refine ⟨g, hafter, ⟨wf.faultless, wf.held_lt horderly.wired, fun name id => wf.listed.named_lt,
    wf.listed.named_eq_filter, hhistory.valued⟩, ?_⟩
  refine ⟨horderly.exists_auditedUsages, wf.typed.exists_statistics, wf.typed.exists_links,
    fun id hid => ?_, wf.listed.find?_eq⟩
  obtain ⟨below, hbelow, -⟩ := wf.exists_subnodes hsettled.acyclic hid
  exact ⟨below, hbelow⟩

end Graph

end ProgramGraph
