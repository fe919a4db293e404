import ProgramGraph.Proofs.Resolution.Links

set_option autoImplicit false

/-!
# What a resolved graph contains

A raw graph that has grown contains what it contained before, in the same order, and made-up nodes
besides: fields at the end of records, and records in the unit for made-up declarations. So the
scopes and records of the resolved graph are those of the raw graph once the made-up nodes are left
out.

## Main definitions

* `ProgramGraph.Graph.IsMadeUp`, `ProgramGraph.Graph.IsWritten` — a node was made up, or was not.

## Main results

* `ProgramGraph.Graph.Grows.filter_fieldsOf` — the fields of a record, without those made up.
* `ProgramGraph.Graph.Grows.filter_parts` — the parts of a node, without those made up.
* `ProgramGraph.Graph.Grows.filter_declaredIn` — the declarations of a scope, without those made up.
* `ProgramGraph.Graph.Grows.mem_fieldsOf_of_le` — what is made up in a scope is a field of a record.
-/

namespace ProgramGraph.Graph

variable {g g' : Graph} {n : Nat} {id part scope d : NodeId} {tag : Tag}

/-- The node with a number was made up. -/
def IsMadeUp (g : Graph) (id : NodeId) : Prop := ∃ node, g.node? id = some node ∧ node.dummy = true

/-- The node with a number is there and was not made up. -/
def IsWritten (g : Graph) (id : NodeId) : Prop := ∃ node, g.node? id = some node ∧ node.dummy = false

/-- What was written was not made up. -/
theorem IsWritten.not_isMadeUp (h : g.IsWritten id) : ¬ g.IsMadeUp id := by
  rintro ⟨node, hnode, hmade⟩
  obtain ⟨found, hfound, hdummy⟩ := h
  obtain rfl := Option.some.inj (hnode.symm.trans hfound)
  exact absurd (hdummy.symm.trans hmade) (by decide)

/-- A reference stays a reference, and static or not. -/
theorem Grows.exists_reference (h : g.Grows n g') {target : Option NodeId} {isStatic : Bool}
    (hpayload : g.payload? id = some (.reference target isStatic)) :
    ∃ target', g'.payload? id = some (.reference target' isStatic) := by
  obtain ⟨payload', hpayload', hevolves⟩ := h.exists_payload hpayload
  cases hevolves with
  | same => exact ⟨target, hpayload'⟩
  | reference _ target' _ => exact ⟨target', hpayload'⟩

/-- A member access stays a member access. -/
theorem Grows.exists_access (h : g.Grows n g') {base : NodeId} {member : Option NodeId}
    (hpayload : g.payload? id = some (.memberAccess base member)) :
    ∃ base' member', g'.payload? id = some (.memberAccess base' member') := by
  obtain ⟨payload', hpayload', hevolves⟩ := h.exists_payload hpayload
  cases hevolves with
  | same => exact ⟨base, member, hpayload'⟩
  | @memberAccess _ base' _ member' _ _ => exact ⟨base', member', hpayload'⟩

/-- What a graph has grown by is made up. -/
theorem Grows.isMadeUp (h : g.Grows n g') (hge : g.size ≤ id) (hlt : id < g'.size) :
    g'.IsMadeUp id := by
  obtain ⟨node, hnode⟩ := exists_node hlt
  exact ⟨node, hnode, (h.fresh id node hge hnode).1⟩

/-- What was there before is made up if and only if it was then. -/
theorem Grows.isMadeUp_iff (h : g.Grows n g') (hlt : id < g.size) :
    g'.IsMadeUp id ↔ g.IsMadeUp id := by
  obtain ⟨node, hnode⟩ := exists_node hlt
  obtain ⟨node', hnode', -, hdummy, -⟩ := h.nodes id node hnode
  simp [IsMadeUp, hnode, hnode', hdummy]

/-- The nodes of a raw graph were written. -/
theorem Grows.isWritten (h : g.Grows n g') (raw : g.Raw) (hlt : id < g.size) : g'.IsWritten id := by
  obtain ⟨node, hnode⟩ := exists_node hlt
  obtain ⟨node', hnode', -, hdummy, -⟩ := h.nodes id node hnode
  exact ⟨node', hnode', hdummy.trans (raw.dummy id node hnode)⟩

/-- What was written was there before. -/
theorem Grows.lt_of_isWritten (h : g.Grows n g') (hwritten : g'.IsWritten id) : id < g.size := by
  obtain ⟨node, hnode, hdummy⟩ := hwritten
  by_contra hge
  exact absurd ((h.fresh id node (Nat.not_lt.mp hge) hnode).1.symm.trans hdummy) (by decide)

/-- The parts of what a graph has grown by are made up. -/
theorem Grows.le_of_mem_parts (h : g.Grows n g') (hge : g.size ≤ id) (hpart : part ∈ g'.parts id) :
    n ≤ part := by
  obtain ⟨node, hnode, hmem⟩ := exists_node_of_mem_parts hpart
  exact (h.fresh id node hge hnode).2.le_of_mem_partsOf hmem

/-- Where the payload stays, the parts stay. -/
theorem Grows.parts_eq_of_payload? (h : g.Grows n g') (typed : g.WellTyped) (hid : id < g.size)
    (hpayload : g'.payload? id = g.payload? id) : g'.parts id = g.parts id := by
  obtain ⟨node, hnode⟩ := exists_node hid
  rw [payload?_eq hnode] at hpayload
  obtain ⟨node', hnode', heq⟩ := exists_node_of_payload? hpayload
  rw [parts_eq hnode, parts_eq hnode', heq]
  exact partsOf_keep (typed.nodes id node hnode) h.keeps

/-- What a part of a scope contributes to it is a node. -/
theorem Tree.lt_of_mem_offers {loose : List NodeId} (tree : g.Tree loose) (hd : d ∈ g.offers id) :
    d < g.size := by
  unfold Graph.offers at hd
  split at hd
  · exact tree.part_lt id d hd
  · next htag =>
    split at hd
    · rw [List.mem_singleton.mp hd]
      exact lt_size_of_tag? htag
    · exact absurd hd List.not_mem_nil
  · exact absurd hd List.not_mem_nil

/-- The fields of a record, without those that are made up. -/
theorem Grows.filter_fieldsOf (h : g.Grows g.size g') (typed : g.WellTyped) {record : NodeId}
    (hrecord : g.tag? record = some .record) :
    (g'.fieldsOf record).filter (· < g.size) = g.fieldsOf record := by
  obtain ⟨new, hnew, hle⟩ := h.fieldsOf hrecord
  have hnone : new.filter (· < g.size) = [] := by
    rw [List.filter_eq_nil_iff]
    intro other hother
    simpa using hle other hother
  rw [hnew, List.filter_append, hnone, List.append_nil, List.filter_eq_self]
  intro other hother
  simpa using typed.all_fieldsOf.lt_size hother

/-! ## Nodes of the raw graph -/

section

variable (h : g.Grows g.size g') (raw : g.Raw)

include h raw

/-- How a node of a raw graph that is no expression changes: it stays, or it is a record that gets
fields.

**Proof sketch.** By the ways in which payloads change. A unit that was written in a document gets no
declarations, and references and accesses are expressions. -/
theorem Grows.payload?_cases (htag : g.tag? id = some tag) (hk : tag.isExpression = false) :
    g'.payload? id = g.payload? id ∨
      ∃ body new, g.payload? id = some (.record body) ∧
        g'.payload? id = some (.record { body with fields := body.fields ++ new }) ∧
          ∀ field ∈ new, g.size ≤ field := by
  obtain ⟨node, hnode, rfl⟩ := exists_node_of_tag? htag
  obtain ⟨node', hnode', -, -, hevolves⟩ := h.nodes id node hnode
  rw [payload?_eq hnode, payload?_eq hnode']
  generalize hpayload : node.payload = payload at hevolves
  generalize hpayload' : node'.payload = payload' at hevolves
  cases hevolves with
  | same => exact Or.inl rfl
  | @unit declarations new hnew =>
    have hkept := h.declared id node declarations hnode (raw.dummy id node hnode) hpayload
    rw [payload?_eq hnode', hpayload'] at hkept
    exact Or.inl hkept
  | @record body new hnew => exact Or.inr ⟨body, new, rfl, rfl, hnew⟩
  | reference _ _ _ =>
    rw [Node.tag, hpayload] at hk
    exact absurd hk (by simp [Payload.tag, Tag.isExpression])
  | memberAccess _ _ =>
    rw [Node.tag, hpayload] at hk
    exact absurd hk (by simp [Payload.tag, Tag.isExpression])

variable (wf : g.WellFormed [])

include wf

/-- **The parts of a node,** without those that are made up. -/
theorem Grows.filter_parts (htag : g.tag? id = some tag) (hk : tag.isExpression = false) :
    (g'.parts id).filter (· < g.size) = g.parts id := by
  have hold : (g.parts id).filter (· < g.size) = g.parts id := by
    rw [List.filter_eq_self]
    intro part hpart
    simpa using wf.tree.part_lt id part hpart
  rcases h.payload?_cases raw htag hk with hpayload | ⟨body, new, hbody, hbody', hnew⟩
  · rw [h.parts_eq_of_payload? wf.typed (lt_size_of_tag? htag) hpayload, hold]
  · obtain ⟨node, hnode, heq⟩ := exists_node_of_payload? hbody
    obtain ⟨node', hnode', heq'⟩ := exists_node_of_payload? hbody'
    have hnone : new.filter (· < g.size) = [] := by
      rw [List.filter_eq_nil_iff]
      intro field hfield
      simpa using hnew field hfield
    rw [← hold, parts_eq hnode, parts_eq hnode', heq, heq']
    simp only [partsOf, Payload.parts, List.filter_append, hnone, List.append_nil]

/-- A made-up part of a node of the raw graph is a field of a record. -/
theorem Grows.mem_fieldsOf_of_mem_parts (wf' : g'.WellFormed []) (htag : g.tag? id = some tag)
    (hk : tag.isExpression = false) (hpart : part ∈ g'.parts id) (hle : g.size ≤ part) :
    part ∈ g'.fieldsOf id ∧ g'.tag? part = some .field := by
  rcases h.payload?_cases raw htag hk with hpayload | ⟨body, new, hbody, hbody', -⟩
  · rw [h.parts_eq_of_payload? wf.typed (lt_size_of_tag? htag) hpayload] at hpart
    exact absurd (wf.tree.part_lt id part hpart) (Nat.not_lt.mpr hle)
  · obtain ⟨node, hnode, heq⟩ := exists_node_of_payload? hbody
    obtain ⟨node', hnode', heq'⟩ := exists_node_of_payload? hbody'
    have hold : ∀ part ∈ g.partsOf (.record body), part < g.size := by
      intro part hpart
      refine wf.tree.part_lt id part ?_
      rwa [parts_eq hnode, heq]
    have hmem : part ∈ g'.fieldsOf id := by
      rw [parts_eq hnode', heq'] at hpart
      rw [Graph.fieldsOf, hbody']
      simp only [partsOf, Payload.parts, List.mem_append] at hpart hold ⊢
      by_contra hnot
      exact absurd (hold part (by tauto)) (Nat.not_lt.mpr hle)
    exact ⟨hmem, wf'.typed.all_fieldsOf.tag_eq hmem⟩

/-- What a part of the raw graph contributes to its scope stays. -/
theorem Grows.offers (hid : id < g.size) : g'.offers id = g.offers id := by
  obtain ⟨node, hnode⟩ := exists_node hid
  have htag := tag?_eq hnode
  by_cases hvars : node.tag = .declarationStatement
  · have hk : node.tag.isExpression = false := by rw [hvars]; rfl
    have hparts : g'.parts id = g.parts id := by
      rcases h.payload?_cases raw htag hk with hpayload | ⟨body, -, hbody, -⟩
      · exact h.parts_eq_of_payload? wf.typed hid hpayload
      · have := tag?_of_payload? hbody
        rw [htag, hvars] at this
        exact absurd this (by simp [Payload.tag])
    simp only [Graph.offers, htag, h.tag? htag, hvars, hparts]
  · cases hvalue : node.tag.isValueDeclaration with
    | true => rw [offers_of_isValueDeclaration htag hvalue,
        offers_of_isValueDeclaration (h.tag? htag) hvalue]
    | false => rw [offers_eq_nil htag hvalue hvars, offers_eq_nil (h.tag? htag) hvalue hvars]

/-- **The declarations of a scope,** without those that are made up.

**Proof sketch.** Induction on the parts of the scope. An old part offers what it offered. A new part of an
old node that is no expression is a made-up field, which is left out. -/
theorem Grows.filter_declaredIn (wf' : g'.WellFormed []) (htag : g.tag? scope = some tag)
    (hk : tag.isExpression = false) :
    (g'.declaredIn scope).filter (· < g.size) = g.declaredIn scope := by
  have hall : ∀ ids ⊆ g'.parts scope, (ids.flatMap g'.offers).filter (· < g.size) =
      (ids.filter (· < g.size)).flatMap g.offers := by
    intro ids
    induction ids with
    | nil => exact fun _ => rfl
    | cons id rest ih =>
      intro hsubset
      obtain ⟨hid, hrest⟩ := List.cons_subset.mp hsubset
      rw [List.flatMap_cons, List.filter_append, ih hrest]
      by_cases hlt : id < g.size
      · have hold : (g.offers id).filter (· < g.size) = g.offers id := by
          rw [List.filter_eq_self]
          intro d hd
          simpa using wf.tree.lt_of_mem_offers hd
        rw [h.offers raw wf hlt, hold, List.filter_cons_of_pos (by simpa using hlt),
          List.flatMap_cons]
      · have hge := Nat.not_lt.mp hlt
        obtain ⟨-, hfield⟩ := h.mem_fieldsOf_of_mem_parts raw wf wf' htag hk hid hge
        rw [offers_of_isValueDeclaration hfield rfl,
          List.filter_cons_of_neg (by simpa using hge), List.filter_nil, List.nil_append,
          List.filter_cons_of_neg (by simpa using hge)]
  rw [Graph.declaredIn, hall _ (List.Subset.refl _), h.filter_parts raw wf htag hk, Graph.declaredIn]

/-- **What is made up in a scope** of the raw graph is a field of a record. -/
theorem Grows.mem_fieldsOf_of_le (wf' : g'.WellFormed []) (htag : g.tag? scope = some tag)
    (hk : tag.isExpression = false) (hd : d ∈ g'.declaredIn scope) (hle : g.size ≤ d) :
    d ∈ g'.fieldsOf scope := by
  obtain ⟨part, hpart, hoffers⟩ := List.mem_flatMap.mp hd
  rcases Nat.lt_or_ge part g.size with hlt | hge
  · rw [h.offers raw wf hlt] at hoffers
    exact absurd (wf.tree.lt_of_mem_offers hoffers) (Nat.not_lt.mpr hle)
  · obtain ⟨hmem, hfield⟩ := h.mem_fieldsOf_of_mem_parts raw wf wf' htag hk hpart hge
    rw [offers_of_isValueDeclaration hfield rfl, List.mem_singleton] at hoffers
    rwa [hoffers]

end

end ProgramGraph.Graph
