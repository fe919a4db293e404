import ProgramGraph.Graph.Placeholder
import ProgramGraph.Proofs.Syntax.Frame

set_option autoImplicit false

/-!
# Writing well-formed graphs

A graph grows in few ways: a node is added, made of loose nodes, and is then loose itself; a loose
node becomes a part of another; the links of a node are rewritten so that it loses parts. Each of
them leaves a well-formed graph well formed.

## Main definitions

* `ProgramGraph.Graph.Adds` — a graph has one node more than another.

## Main results

* `ProgramGraph.Graph.Tree.grow`, `ProgramGraph.Graph.Tree.shrink` — forests.
* `ProgramGraph.Graph.WellFormed.adds` — a node is added.
* `ProgramGraph.Graph.WellFormed.attach` — a loose node becomes a part.
* `ProgramGraph.Graph.WellFormed.rewrite` — a node loses parts.
-/

namespace ProgramGraph.Graph

variable {g g' : Graph} {loose loose' own fresh rest : List NodeId} {whole id : NodeId}

/-! ## Forests -/

/-- Where one node gets parts and the others keep theirs, a part was one before, or it is one of the
new ones. -/
theorem mem_parts_grown (parts : (g'.parts whole).Perm (g.parts whole ++ own))
    (others : ∀ id, id ≠ whole → g'.parts id = g.parts id) {part other : NodeId}
    (h : part ∈ g'.parts other) : part ∈ g.parts other ∨ other = whole ∧ part ∈ own := by
  by_cases heq : other = whole
  · subst heq
    exact (List.mem_append.mp (parts.mem_iff.mp h)).imp_right fun hown => ⟨rfl, hown⟩
  · exact Or.inl (others other heq ▸ h)

/-- **Growing.** Roots become parts of one node, and fresh nodes become roots.

**Proof sketch.** A part in the new graph is a part in the old one, or one of the old roots that were put
under the node. Each condition is checked for these two cases; fresh nodes have greater numbers than all
parts, so they are parts of nothing. -/
theorem Tree.grow (tree : g.Tree loose) (whole : NodeId) (own fresh rest : List NodeId)
    (before : (g.units ++ loose).Perm (own ++ rest))
    (after : (g'.units ++ loose').Perm (fresh ++ rest)) (size : g.size ≤ g'.size)
    (hfresh : ∀ id ∈ fresh, g.size ≤ id ∧ id < g'.size) (nodup : fresh.Nodup)
    (parts : (g'.parts whole).Perm (g.parts whole ++ own))
    (others : ∀ id, id ≠ whole → g'.parts id = g.parts id) : g'.Tree loose' := by
  obtain ⟨hownNodup, hrestNodup, hdisjoint⟩ := List.nodup_append.mp (before.nodup_iff.mp tree.roots)
  have hown : ∀ x ∈ own, x ∈ g.units ++ loose := fun x hx =>
    before.mem_iff.mpr (List.mem_append_left _ hx)
  have hrest : ∀ x ∈ rest, x ∈ g.units ++ loose := fun x hx =>
    before.mem_iff.mpr (List.mem_append_right _ hx)
  have hlt : ∀ x y, x ∈ g'.parts y → x < g.size := by
    intro x y hx
    rcases mem_parts_grown parts others hx with hx | ⟨-, hx⟩
    · exact tree.part_lt y x hx
    · exact tree.root_lt x (hown x hx)
  have hroots : ∀ x ∈ g'.units ++ loose', x ∈ fresh ∨ x ∈ rest := fun x hx =>
    List.mem_append.mp (after.mem_iff.mp hx)
  exact {
    roots := by
      rw [after.nodup_iff, List.nodup_append]
      refine ⟨nodup, hrestNodup, ?_⟩
      rintro x hx y hy rfl
      exact absurd (tree.root_lt x (hrest x hy)) (Nat.not_lt.mpr (hfresh x hx).1)
    root_lt := by
      intro x hx
      rcases hroots x hx with hx | hx
      · exact (hfresh x hx).2
      · exact Nat.lt_of_lt_of_le (tree.root_lt x (hrest x hx)) size
    root_notMem := by
      intro x hx y hy
      rcases hroots x hx with hx | hx
      · exact absurd (hlt x y hy) (Nat.not_lt.mpr (hfresh x hx).1)
      · rcases mem_parts_grown parts others hy with hy | ⟨-, hy⟩
        · exact tree.root_notMem x (hrest x hx) y hy
        · exact hdisjoint x hy x hx rfl
    parts_nodup := by
      intro y
      by_cases hy : y = whole
      · subst hy
        rw [parts.nodup_iff, List.nodup_append]
        refine ⟨tree.parts_nodup y, hownNodup, ?_⟩
        rintro x hx z hz rfl
        exact tree.root_notMem x (hown x hz) y hx
      · rw [others y hy]
        exact tree.parts_nodup y
    part_lt := fun y x hx => Nat.lt_of_lt_of_le (hlt x y hx) size
    whole_unique := by
      intro x y z hy hz
      rcases mem_parts_grown parts others hy with hy | ⟨rfl, hy⟩ <;>
        rcases mem_parts_grown parts others hz with hz | ⟨rfl, hz⟩
      · exact tree.whole_unique x y z hy hz
      · exact absurd hy (tree.root_notMem x (hown x hz) y)
      · exact absurd hz (tree.root_notMem x (hown x hy) z)
      · rfl }

/-- **Shrinking.** Nodes lose parts. -/
theorem Tree.shrink (tree : g.Tree loose) (units : g'.units = g.units) (size : g'.size = g.size)
    (parts : ∀ id, (g'.parts id).Sublist (g.parts id)) : g'.Tree loose where
  roots := units ▸ tree.roots
  root_lt id hid := by
    rw [size]
    exact tree.root_lt id (units ▸ hid)
  root_notMem id hid whole hwhole :=
    tree.root_notMem id (units ▸ hid) whole ((parts whole).subset hwhole)
  parts_nodup id := (tree.parts_nodup id).sublist (parts id)
  part_lt whole id hid := by
    rw [size]
    exact tree.part_lt whole id ((parts whole).subset hid)
  whole_unique id whole other hwhole hother :=
    tree.whole_unique id whole other ((parts whole).subset hwhole) ((parts other).subset hother)

/-- The order of the loose nodes does not matter. -/
theorem WellFormed.perm (wf : g.WellFormed loose) (h : loose.Perm loose') : g.WellFormed loose' := by
  have hroots := h.append_left g.units
  refine ⟨⟨hroots.nodup_iff.mp wf.tree.roots, ?_, ?_, wf.tree.parts_nodup, wf.tree.part_lt,
    wf.tree.whole_unique⟩, wf.typed, wf.listed, wf.faultless⟩
  · exact fun id hid => wf.tree.root_lt id (hroots.mem_iff.mpr hid)
  · exact fun id hid => wf.tree.root_notMem id (hroots.mem_iff.mpr hid)

/-! ## Kinds, names and constants -/

/-- Kinds, names and constants stay if every node keeps its own. -/
theorem Keeps.of_nodes (h : ∀ id node, g.node? id = some node → ∃ node', g'.node? id = some node' ∧
      node'.name = node.name ∧ node'.tag = node.tag ∧
      ∀ entries superTypes, node.payload = .enum entries superTypes →
        ∃ entries' superTypes', node'.payload = .enum entries' superTypes' ∧ entries ⊆ entries') :
    g.Keeps g' := by
  refine ⟨?_, ?_, ?_⟩
  · intro id tag htag
    obtain ⟨node, hnode, rfl⟩ := exists_node_of_tag? htag
    obtain ⟨node', hnode', -, htag', -⟩ := h id node hnode
    rw [tag?_eq hnode', htag']
  · intro id name hname
    obtain ⟨node, hnode, rfl⟩ := exists_node_of_name? hname
    obtain ⟨node', hnode', hname', -⟩ := h id node hnode
    rw [name?_eq hnode', hname']
  · intro id x hx
    unfold entriesOf payload? at hx
    cases hnode : g.node? id with
    | none => simp [hnode] at hx
    | some node =>
      obtain ⟨node', hnode', -, -, hentries⟩ := h id node hnode
      rw [hnode] at hx
      cases hpayload : node.payload with
      | enum entries superTypes =>
        obtain ⟨entries', superTypes', hpayload', hsubset⟩ := hentries entries superTypes hpayload
        simp only [Option.map_some, hpayload] at hx
        simp only [entriesOf, payload?, hnode', Option.map_some, hpayload']
        exact hsubset hx
      | _ => simp [hpayload] at hx

/-- The links of all nodes fit if each node keeps its name and links, or has links that fit. -/
theorem WellTyped.step (typed : g.WellTyped) (keeps : g.Keeps g')
    (units : g'.All (· == .unit) g'.units)
    (nodes : ∀ id node', g'.node? id = some node' →
      (∃ node, g.node? id = some node ∧ node'.name = node.name ∧ node'.payload = node.payload) ∨
        g.Fits node'.name node'.payload) : g'.WellTyped := by
  refine ⟨units, fun id node' hnode' => ?_⟩
  rcases nodes id node' hnode' with ⟨node, hnode, hname, hpayload⟩ | hfits
  · rw [hname, hpayload]
    exact (typed.nodes id node hnode).keep keeps
  · exact hfits.keep keeps

/-! ## Adding a node -/

/-- A graph has one node more than another, with the next number. -/
structure Adds (g g' : Graph) (node : Node) : Prop where
  /-- There is one node more. -/
  size : g'.size = g.size + 1
  /-- The new node has the next number, and the others are the same. -/
  nodes : ∀ id, g'.node? id = if id = g.size then some node else g.node? id
  /-- The new node is listed under its name. -/
  names : g'.names = g.names.enter g.size node.name
  /-- No access to a node failed. -/
  fault : g'.fault = g.fault

namespace Adds

variable {node : Node}

/-- The new node. -/
theorem found (h : g.Adds g' node) : g'.node? g.size = some node := by
  rw [h.nodes, if_pos rfl]

/-- The other nodes. -/
theorem other (h : g.Adds g' node) {old : Node} (hold : g.node? id = some old) :
    g'.node? id = some old := by
  rw [h.nodes, if_neg (Nat.ne_of_lt (lt_size hold)), hold]

/-- Nodes are still of their kinds when one is added. -/
theorem keeps (h : g.Adds g' node) : g.Keeps g' :=
  Keeps.of_nodes fun _ old hold =>
    ⟨old, h.other hold, rfl, rfl, fun entries superTypes heq =>
      ⟨entries, superTypes, heq, List.Subset.refl _⟩⟩

/-- The parts of the other nodes. -/
theorem parts_other (h : g.Adds g' node) (typed : g.WellTyped) (hid : id ≠ g.size) :
    g'.parts id = g.parts id := by
  cases hnode : g.node? id with
  | none => simp only [parts, hnode, h.nodes, if_neg hid]
  | some old =>
    rw [parts_eq hnode, parts_eq (h.other hnode)]
    exact partsOf_keep (typed.nodes id old hnode) h.keeps

end Adds

/-- **Adding a node.** Roots become its parts, and it becomes a root itself.

**Proof sketch.** The forest grows by one tree, whose root is the new node and whose parts were roots. The
links of the other nodes still fit, as kinds and names stay. -/
theorem WellFormed.adds (wf : g.WellFormed loose) (rest : List NodeId) {node : Node} (h : g.Adds g' node)
    (fits : g.Fits node.name node.payload) (units : g'.All (· == .unit) g'.units)
    (before : (g.units ++ loose).Perm (g.partsOf node.payload ++ rest))
    (after : (g'.units ++ loose').Perm (g.size :: rest)) : g'.WellFormed loose' := by
  have hparts : g'.parts g.size = g.partsOf node.payload := by
    rw [parts_eq h.found]
    exact partsOf_keep fits h.keeps
  have hnone : g.parts g.size = [] := by simp only [parts, node?_eq_none (Nat.le_refl g.size)]
  refine ⟨?_, ?_, wf.listed.push h.names h.nodes, h.fault.trans wf.faultless⟩
  · refine wf.tree.grow g.size _ [g.size] rest before after ?_ ?_ ?_ ?_ ?_
    · exact h.size ▸ Nat.le_succ _
    · intro id hid
      obtain rfl := List.mem_singleton.mp hid
      exact ⟨Nat.le_refl _, h.size ▸ Nat.lt_succ_self _⟩
    · exact List.nodup_singleton _
    · rw [hparts, hnone, List.nil_append]
    · exact fun id hid => h.parts_other wf.typed hid
  · refine wf.typed.step h.keeps units fun id node' hnode' => ?_
    rw [h.nodes] at hnode'
    split at hnode'
    · obtain rfl := Option.some.inj hnode'
      exact Or.inr fits
    · exact Or.inl ⟨node', hnode', rfl, rfl⟩

/-- Adding a node adds it, and nothing else. -/
theorem adds_add (g : Graph) (node : Node) : g.Adds (g.add node).2 node :=
  ⟨size_add g node, node?_add g node, rfl, rfl⟩

/-- **Adding a loose node,** made of loose nodes. -/
theorem WellFormed.add (wf : g.WellFormed loose) {node : Node}
    (fits : g.Fits node.name node.payload)
    (before : loose.Perm (g.partsOf node.payload ++ rest)) :
    (g.add node).2.WellFormed (g.size :: rest) := by
  refine wf.adds (g.units ++ rest) (g.adds_add node) fits
    (wf.typed.units.keep (g.adds_add node).keeps) ?_ ?_
  · exact (before.append_left _).trans (List.perm_append_comm_assoc ..)
  · exact List.perm_middle

/-! ## Rewriting the links of a node -/

/-- What a change of payload that keeps kind and constants keeps. -/
theorem keeps_modifyPayload {node : Node} {f : Payload → Payload} (found : g.node? whole = some node)
    (tag : (f node.payload).tag = node.payload.tag)
    (entries : ∀ entries superTypes, node.payload = .enum entries superTypes →
      ∃ entries' superTypes', f node.payload = .enum entries' superTypes' ∧ entries ⊆ entries') :
    g.Keeps (g.modifyPayload whole f) := by
  refine Keeps.of_nodes fun id old hold => ?_
  simp only [modifyPayload, node?_modify]
  by_cases hid : whole = id
  · subst hid
    obtain rfl := Option.some.inj (found.symm.trans hold)
    rw [if_pos rfl, hold]
    exact ⟨_, rfl, rfl, tag, entries⟩
  · rw [if_neg hid, hold]
    exact ⟨old, rfl, rfl, rfl, fun entries superTypes heq =>
      ⟨entries, superTypes, heq, List.Subset.refl _⟩⟩

/-- The node whose payload was changed. -/
theorem node?_modifyPayload_self {node : Node} {f : Payload → Payload}
    (found : g.node? whole = some node) :
    (g.modifyPayload whole f).node? whole = some { node with payload := f node.payload } := by
  rw [modifyPayload, node?_modify, if_pos rfl, found]
  rfl

/-- The other nodes. -/
theorem node?_modifyPayload_of_ne {f : Payload → Payload} (h : id ≠ whole) :
    (g.modifyPayload whole f).node? id = g.node? id := by
  rw [modifyPayload, node?_modify, if_neg (Ne.symm h)]

/-- A change of payload renames no node. -/
theorem name?_modifyPayload (g : Graph) (whole : NodeId) (f : Payload → Payload) (id : NodeId) :
    (g.modifyPayload whole f).name? id = g.name? id := by
  rw [name?, modifyPayload, node?_modify]
  split
  · rw [Option.map_map]
    rfl
  · rfl

/-- The links after a change of payload. -/
theorem WellTyped.modifyPayload (typed : g.WellTyped) {node : Node} {f : Payload → Payload}
    (found : g.node? whole = some node) (keeps : g.Keeps (g.modifyPayload whole f))
    (fits : g.Fits node.name (f node.payload)) : (g.modifyPayload whole f).WellTyped := by
  refine typed.step keeps (typed.units.keep keeps) fun id node' hnode' => ?_
  by_cases hid : id = whole
  · subst hid
    rw [node?_modifyPayload_self found] at hnode'
    obtain rfl := Option.some.inj hnode'
    exact Or.inr fits
  · rw [node?_modifyPayload_of_ne hid] at hnode'
    exact Or.inl ⟨node', hnode', rfl, rfl⟩

/-- The parts of the node whose payload was changed. -/
theorem parts_modifyPayload_self {node : Node} {f : Payload → Payload}
    (found : g.node? whole = some node) (keeps : g.Keeps (g.modifyPayload whole f))
    (fits : g.Fits node.name (f node.payload)) :
    (g.modifyPayload whole f).parts whole = g.partsOf (f node.payload) := by
  rw [parts_eq (node?_modifyPayload_self found)]
  exact partsOf_keep fits keeps

/-- The parts of the other nodes. -/
theorem parts_modifyPayload_of_ne {f : Payload → Payload} (typed : g.WellTyped)
    (keeps : g.Keeps (g.modifyPayload whole f)) (h : id ≠ whole) :
    (g.modifyPayload whole f).parts id = g.parts id := by
  cases hnode : g.node? id with
  | none => simp only [parts, node?_modifyPayload_of_ne h, hnode]
  | some old =>
    rw [parts_eq hnode, parts_eq ((node?_modifyPayload_of_ne h).trans hnode)]
    exact partsOf_keep (typed.nodes id old hnode) keeps

/-- **Hanging up a node.** A loose node becomes a part of another node. -/
theorem WellFormed.attach (wf : g.WellFormed (id :: rest)) {node : Node} {f : Payload → Payload}
    (found : g.node? whole = some node) (keeps : g.Keeps (g.modifyPayload whole f))
    (parts : (g.partsOf (f node.payload)).Perm (g.partsOf node.payload ++ [id]))
    (fits : g.Fits node.name (f node.payload)) : (g.modifyPayload whole f).WellFormed rest := by
  have hunits : (g.modifyPayload whole f).units = g.units := rfl
  have hsize : (g.modifyPayload whole f).size = g.size := size_modify ..
  refine ⟨?_, wf.typed.modifyPayload found keeps fits, wf.listed.congr rfl (name?_modifyPayload g whole f),
    (fault_modify (lt_size found) _).trans wf.faultless⟩
  refine wf.tree.grow whole [id] [] (g.units ++ rest)
    ?_ ?_ (Nat.le_of_eq hsize.symm) ?_ ?_ ?_ ?_
  · exact List.perm_middle
  · rw [hunits, List.nil_append]
  · exact fun id hid => absurd hid List.not_mem_nil
  · exact List.nodup_nil
  · rw [parts_modifyPayload_self found keeps fits, parts_eq found]
    exact parts
  · exact fun other hother => parts_modifyPayload_of_ne wf.typed keeps hother

/-- **Rewriting links.** A node loses parts. -/
theorem WellFormed.rewrite (wf : g.WellFormed loose) {node : Node} {f : Payload → Payload}
    (found : g.node? whole = some node) (keeps : g.Keeps (g.modifyPayload whole f))
    (parts : (g.partsOf (f node.payload)).Sublist (g.partsOf node.payload))
    (fits : g.Fits node.name (f node.payload)) : (g.modifyPayload whole f).WellFormed loose := by
  refine ⟨?_, wf.typed.modifyPayload found keeps fits, wf.listed.congr rfl (name?_modifyPayload g whole f),
    (fault_modify (lt_size found) _).trans wf.faultless⟩
  refine wf.tree.shrink rfl (size_modify ..) fun id => ?_
  by_cases hid : id = whole
  · subst hid
    rw [parts_modifyPayload_self found keeps fits, parts_eq found]
    exact parts
  · rw [parts_modifyPayload_of_ne wf.typed keeps hid]

end ProgramGraph.Graph
