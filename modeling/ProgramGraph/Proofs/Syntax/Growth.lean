import ProgramGraph.Proofs.Syntax.Writing

set_option autoImplicit false

/-!
# Growing graphs

While usages are resolved, a graph changes in few ways: made-up units, records and fields are
added, references are pointed at declarations, and member accesses exchange the references they
were made of for declarations. Everything else stays. All numbers from a certain one on belong to
nodes that are made up during the resolution.

## Main definitions

* `ProgramGraph.Payload.MadeUp` — the payload of a made-up node.
* `ProgramGraph.Payload.Evolves` — how the payload of a node may change.
* `ProgramGraph.Graph.Grows` — how a graph may change.
* `ProgramGraph.Graph.fieldsOf` — the fields of a record.
* `ProgramGraph.Graph.Hung` — every new node is a unit or a part of something.

## Main results

* `ProgramGraph.Graph.Grows.stands`, `ProgramGraph.Graph.Grows.stands_back` — places stay, apart
  from those of references that made up a member access.
* `ProgramGraph.Graph.Grows.fieldsOf` — records keep their fields and get new ones at the end.

## Design

The number from which on nodes count as made up is a parameter, so that a whole resolution is
built from its steps by transitivity.
-/

namespace ProgramGraph

/-! ## Changes of payloads -/

/-- The payload of a made-up node, whose parts are made up as well. -/
inductive Payload.MadeUp (n : Nat) : Payload → Prop where
  /-- The unit for made-up declarations. -/
  | unit {declarations : List NodeId} (h : ∀ id ∈ declarations, n ≤ id) :
    MadeUp n (.unit declarations)
  /-- A made-up record. -/
  | record {sort : String} {fields : List NodeId} {self : Option NodeId}
    (h : ∀ id ∈ fields, n ≤ id) : MadeUp n (.record { sort, fields, self })
  /-- A made-up field, or the field that stands for a made-up record. -/
  | field : MadeUp n (.field [] none)

namespace Graph

/-- One part of a member access stays, or it is a reference and gives way to something that is no
expression. -/
def Replaced (g g' : Graph) (old new : Option NodeId) : Prop :=
  new = old ∨ (∃ stub, old = some stub ∧ g.tag? stub = some .reference) ∧
    ∀ id, new = some id → ∃ tag, g'.tag? id = some tag ∧ tag.isExpression = false

end Graph

/-- How the payload of a node may change. -/
inductive Payload.Evolves (n : Nat) (g g' : Graph) : Payload → Payload → Prop where
  /-- It stays. -/
  | same (payload : Payload) : Evolves n g g' payload payload
  /-- A unit gets made-up declarations. -/
  | unit {declarations new : List NodeId} (h : ∀ id ∈ new, n ≤ id) :
    Evolves n g g' (.unit declarations) (.unit (declarations ++ new))
  /-- A record gets made-up fields. -/
  | record {body : RecordBody} {new : List NodeId} (h : ∀ id ∈ new, n ≤ id) :
    Evolves n g g' (.record body) (.record { body with fields := body.fields ++ new })
  /-- A reference means another declaration, or none. -/
  | reference (target target' : Option NodeId) (isStatic : Bool) :
    Evolves n g g' (.reference target isStatic) (.reference target' isStatic)
  /-- A member access is resolved. -/
  | memberAccess {base base' : NodeId} {member member' : Option NodeId}
    (hbase : g.Replaced g' (some base) (some base')) (hmember : g.Replaced g' member member') :
    Evolves n g g' (.memberAccess base member) (.memberAccess base' member')

namespace Payload

variable {n : Nat} {g g' : Graph} {payload payload' : Payload}

/-- Kinds stay. -/
theorem Evolves.tag (h : Evolves n g g' payload payload') : payload'.tag = payload.tag := by
  cases h <;> rfl

/-- Made-up nodes are units, records and fields. -/
theorem MadeUp.not_isExpression (h : MadeUp n payload) : payload.tag.isExpression = false := by
  cases h <;> rfl

/-- More nodes may count as made up. -/
theorem MadeUp.mono {m : Nat} (h : MadeUp m payload) (hle : n ≤ m) : MadeUp n payload := by
  cases h with
  | unit h => exact .unit fun id hid => Nat.le_trans hle (h id hid)
  | record h => exact .record fun id hid => Nat.le_trans hle (h id hid)
  | field => exact .field

/-- More nodes may count as made up. -/
theorem Evolves.mono {m : Nat} (h : Evolves m g g' payload payload') (hle : n ≤ m) :
    Evolves n g g' payload payload' := by
  cases h with
  | same => exact .same _
  | unit h => exact .unit fun id hid => Nat.le_trans hle (h id hid)
  | record h => exact .record fun id hid => Nat.le_trans hle (h id hid)
  | reference => exact .reference _ _ _
  | memberAccess hbase hmember => exact .memberAccess hbase hmember

/-- The parts of made-up nodes are made up. -/
theorem MadeUp.le_of_mem_partsOf (h : MadeUp n payload) {id : NodeId} (hid : id ∈ g.partsOf payload) :
    n ≤ id := by
  cases h with
  | unit h => exact h id hid
  | record h => exact h id (by simpa [Graph.partsOf, parts] using hid)
  | field => simp [Graph.partsOf, parts] at hid

end Payload

namespace Graph

/-! ## Growth -/

/-- How a graph may change. -/
structure Grows (n : Nat) (g g' : Graph) : Prop where
  /-- No node is removed. -/
  size : g.size ≤ g'.size
  /-- Units stay, and new ones are made up. -/
  units : ∃ new, g'.units = g.units ++ new ∧ ∀ id ∈ new, n ≤ id
  /-- Nodes keep their names and marks. -/
  nodes : ∀ id node, g.node? id = some node → ∃ node', g'.node? id = some node' ∧
    node'.name = node.name ∧ node'.dummy = node.dummy ∧
      Payload.Evolves n g g' node.payload node'.payload
  /-- New nodes are made up. -/
  fresh : ∀ id node', g.size ≤ id → g'.node? id = some node' →
    node'.dummy = true ∧ node'.payload.MadeUp n
  /-- A unit that is not made up gets no declarations. -/
  declared : ∀ id node declarations, g.node? id = some node → node.dummy = false →
    node.payload = .unit declarations → g'.payload? id = some (.unit declarations)

namespace Grows

variable {n : Nat} {g g' g'' : Graph} {id : NodeId} {p : Place}

/-- **Payloads evolve.** -/
theorem exists_payload (h : g.Grows n g') {payload : Payload} (hpayload : g.payload? id = some payload) :
    ∃ payload', g'.payload? id = some payload' ∧ Payload.Evolves n g g' payload payload' := by
  obtain ⟨node, hnode, rfl⟩ := exists_node_of_payload? hpayload
  obtain ⟨node', hnode', -, -, hevolves⟩ := h.nodes id node hnode
  exact ⟨node'.payload, payload?_eq hnode', hevolves⟩

/-- Kinds stay. -/
theorem tag? (h : g.Grows n g') {tag : Tag} (htag : g.tag? id = some tag) :
    g'.tag? id = some tag := by
  obtain ⟨node, hnode, rfl⟩ := exists_node_of_tag? htag
  obtain ⟨node', hnode', -, -, hevolves⟩ := h.nodes id node hnode
  rw [tag?_eq hnode', Node.tag, hevolves.tag, Node.tag]

/-- Names stay. -/
theorem name? (h : g.Grows n g') {name : String} (hname : g.name? id = some name) :
    g'.name? id = some name := by
  obtain ⟨node, hnode, rfl⟩ := exists_node_of_name? hname
  obtain ⟨node', hnode', hname', -⟩ := h.nodes id node hnode
  rw [name?_eq hnode', hname']

/-- Nodes are still of their kinds when a graph grows. -/
theorem keeps (h : g.Grows n g') : g.Keeps g' := by
  refine Keeps.of_nodes fun id node hnode => ?_
  obtain ⟨node', hnode', hname, -, hevolves⟩ := h.nodes id node hnode
  refine ⟨node', hnode', hname, hevolves.tag, fun entries superTypes heq => ?_⟩
  rw [heq] at hevolves
  generalize hpayload : node'.payload = payload' at hevolves
  cases hevolves
  exact ⟨entries, superTypes, rfl, List.Subset.refl _⟩

/-- What is an expression afterwards was one before. -/
theorem tag?_back (h : g.Grows n g') {tag : Tag} (htag : g'.tag? id = some tag)
    (hexpression : tag.isExpression = true) : g.tag? id = some tag := by
  obtain ⟨node', hnode', rfl⟩ := exists_node_of_tag? htag
  rcases Nat.lt_or_ge id g.size with hlt | hge
  · obtain ⟨node, hnode⟩ := exists_node hlt
    have := h.tag? (tag?_eq hnode)
    rw [tag?_eq hnode, ← this, htag]
  · have := (h.fresh id node' hge hnode').2.not_isExpression
    rw [Node.tag, this] at hexpression
    exact absurd hexpression (by decide)

/-- Exchanging parts twice. -/
theorem replaced_trans {old new newer : Option NodeId} (h : g.Grows n g') (h' : g'.Grows n g'')
    (hold : g.Replaced g' old new) (hnew : g'.Replaced g'' new newer) :
    g.Replaced g'' old newer := by
  rcases hold with rfl | ⟨hstub, hnone⟩
  · rcases hnew with rfl | ⟨⟨stub, rfl, hstub⟩, hnone⟩
    · exact Or.inl rfl
    · exact Or.inr ⟨⟨stub, rfl, h.tag?_back hstub rfl⟩, hnone⟩
  · rcases hnew with rfl | ⟨-, hnone'⟩
    · refine Or.inr ⟨hstub, fun id hid => ?_⟩
      obtain ⟨tag, htag, hk⟩ := hnone id hid
      exact ⟨tag, h'.tag? htag, hk⟩
    · exact Or.inr ⟨hstub, hnone'⟩

/-- A part that stays a part of an access, seen from the first and the last graph. -/
theorem replaced_mono {old new : Option NodeId} (h' : g'.Grows n g'')
    (hold : g.Replaced g' old new) : g.Replaced g'' old new := by
  rcases hold with rfl | ⟨hstub, hnone⟩
  · exact Or.inl rfl
  · refine Or.inr ⟨hstub, fun id hid => ?_⟩
    obtain ⟨tag, htag, hk⟩ := hnone id hid
    exact ⟨tag, h'.tag? htag, hk⟩

/-- Changing a payload twice.

**Proof sketch.** By the two ways in which the payload changed. New parts are appended twice, a target is set
twice, and what replaces a reference is no reference, so it is not replaced again. -/
theorem evolves_trans {payload payload' payload'' : Payload} (h : g.Grows n g')
    (h' : g'.Grows n g'') (hold : Payload.Evolves n g g' payload payload')
    (hnew : Payload.Evolves n g' g'' payload' payload'') :
    Payload.Evolves n g g'' payload payload'' := by
  have happend : ∀ {xs ys : List NodeId}, (∀ id ∈ xs, n ≤ id) → (∀ id ∈ ys, n ≤ id) →
      ∀ id ∈ xs ++ ys, n ≤ id := by
    intro xs ys hxs hys id hid
    rcases List.mem_append.mp hid with hid | hid
    · exact hxs id hid
    · exact hys id hid
  cases hold with
  | same =>
    cases hnew with
    | same => exact .same _
    | unit hnew => exact .unit hnew
    | record hnew => exact .record hnew
    | reference => exact .reference _ _ _
    | memberAccess hbase hmember =>
      exact .memberAccess (h.replaced_trans h' (Or.inl rfl) hbase)
        (h.replaced_trans h' (Or.inl rfl) hmember)
  | unit hold =>
    cases hnew with
    | same => exact .unit hold
    | unit hnew =>
      rw [List.append_assoc]
      exact .unit (happend hold hnew)
  | record hold =>
    cases hnew with
    | same => exact .record hold
    | record hnew =>
      rw [List.append_assoc]
      exact .record (happend hold hnew)
  | reference =>
    cases hnew with
    | same => exact .reference _ _ _
    | reference => exact .reference _ _ _
  | memberAccess hbase hmember =>
    cases hnew with
    | same => exact .memberAccess (replaced_mono h' hbase) (replaced_mono h' hmember)
    | memberAccess hbase' hmember' =>
      exact .memberAccess (h.replaced_trans h' hbase hbase')
        (h.replaced_trans h' hmember hmember')

/-- Made-up nodes stay made up. -/
theorem madeUp {payload payload' : Payload} (hmade : payload.MadeUp n)
    (hevolves : Payload.Evolves n g g' payload payload') : payload'.MadeUp n := by
  cases hmade with
  | unit hmade =>
    cases hevolves with
    | same => exact .unit hmade
    | unit hnew => exact .unit fun id hid => (List.mem_append.mp hid).elim (hmade id) (hnew id)
  | record hmade =>
    cases hevolves with
    | same => exact .record hmade
    | record hnew => exact .record fun id hid => (List.mem_append.mp hid).elim (hmade id) (hnew id)
  | field =>
    cases hevolves
    exact .field

/-- A graph that does not grow. -/
theorem refl (n : Nat) (g : Graph) : g.Grows n g where
  size := Nat.le_refl _
  units := ⟨[], by simp, fun _ h => absurd h List.not_mem_nil⟩
  nodes _ node hnode := ⟨node, hnode, rfl, rfl, .same _⟩
  fresh _ _ hid hnode := absurd (lt_size hnode) (Nat.not_lt.mpr hid)
  declared _ _ _ hnode _ hpayload := by simp [payload?, hnode, hpayload]

/-- **Growing on.** -/
theorem trans (h : g.Grows n g') (h' : g'.Grows n g'') : g.Grows n g'' where
  size := Nat.le_trans h.size h'.size
  units := by
    obtain ⟨new, hnew, hle⟩ := h.units
    obtain ⟨new', hnew', hle'⟩ := h'.units
    refine ⟨new ++ new', by rw [hnew', hnew, List.append_assoc], fun id hid => ?_⟩
    rcases List.mem_append.mp hid with hid | hid
    · exact hle id hid
    · exact hle' id hid
  nodes id node hnode := by
    obtain ⟨node', hnode', hname, hdummy, hevolves⟩ := h.nodes id node hnode
    obtain ⟨node'', hnode'', hname', hdummy', hevolves'⟩ := h'.nodes id node' hnode'
    exact ⟨node'', hnode'', hname'.trans hname, hdummy'.trans hdummy,
      h.evolves_trans h' hevolves hevolves'⟩
  fresh id node'' hid hnode'' := by
    rcases Nat.lt_or_ge id g'.size with hlt | hge
    · obtain ⟨node', hnode'⟩ := exists_node hlt
      obtain ⟨hdummy, hmade⟩ := h.fresh id node' hid hnode'
      obtain ⟨other, hother, -, hdummy', hevolves⟩ := h'.nodes id node' hnode'
      obtain rfl := Option.some.inj (hother.symm.trans hnode'')
      exact ⟨hdummy'.trans hdummy, madeUp hmade hevolves⟩
    · exact h'.fresh id node'' hge hnode''
  declared id node declarations hnode hdummy hpayload := by
    obtain ⟨node', hnode', -, hdummy', -⟩ := h.nodes id node hnode
    have hkept := h.declared id node declarations hnode hdummy hpayload
    rw [payload?, hnode', Option.map_some, Option.some.injEq] at hkept
    exact h'.declared id node' declarations hnode' (hdummy'.trans hdummy) hkept

/-- More nodes may count as made up. -/
theorem mono {m : Nat} (h : g.Grows m g') (hle : n ≤ m) : g.Grows n g' where
  size := h.size
  units := by
    obtain ⟨new, hnew, hmade⟩ := h.units
    exact ⟨new, hnew, fun id hid => Nat.le_trans hle (hmade id hid)⟩
  nodes id node hnode := by
    obtain ⟨node', hnode', hname, hdummy, hevolves⟩ := h.nodes id node hnode
    exact ⟨node', hnode', hname, hdummy, hevolves.mono hle⟩
  fresh id node' hid hnode' := by
    obtain ⟨hdummy, hmade⟩ := h.fresh id node' hid hnode'
    exact ⟨hdummy, hmade.mono hle⟩
  declared := h.declared

/-! ## Places in growing graphs -/

/-- Parts stay parts when a payload changes, apart from references that made up an access.

**Proof sketch.** By the way in which the payload changed. Lists are only appended to, and an operand that is
replaced was a reference. -/
theorem mem_partsOf (h : g.Grows n g') {payload payload' : Payload}
    (hevolves : Payload.Evolves n g g' payload payload') (hpart : id ∈ g.partsOf payload) :
    id ∈ g'.partsOf payload' ∨ g.tag? id = some .reference ∧ payload.tag = .memberAccess := by
  have hkind : ∀ {ids : List NodeId}, id ∈ ids → (g.tag? id).any Tag.isExpression = true →
      id ∈ ids.filter fun id => (g'.tag? id).any Tag.isExpression := by
    intro ids hid hany
    obtain ⟨tag, htag, hk⟩ := (Option.any_eq_true _ _).mp hany
    exact List.mem_filter.mpr ⟨hid, (Option.any_eq_true _ _).mpr ⟨tag, h.tag? htag, hk⟩⟩
  cases hevolves with
  | same payload =>
    left
    cases payload with
    | memberAccess _ _ =>
      obtain ⟨hmem, hexpression⟩ := List.mem_filter.mp hpart
      exact hkind hmem hexpression
    | _ => exact hpart
  | unit _ => exact Or.inl (List.mem_append_left _ hpart)
  | record _ =>
    left
    simp only [partsOf, Payload.parts, List.mem_append] at hpart ⊢
    tauto
  | reference _ _ _ => exact Or.inl hpart
  | memberAccess hbase hmember =>
    obtain ⟨hmem, hexpression⟩ := List.mem_filter.mp hpart
    rcases List.mem_cons.mp hmem with rfl | hmem
    · rcases hbase with heq | ⟨⟨stub, hstub, htag⟩, -⟩
      · obtain rfl := Option.some.inj heq
        exact Or.inl (hkind (List.mem_cons_self ..) hexpression)
      · obtain rfl := Option.some.inj hstub
        exact Or.inr ⟨htag, rfl⟩
    · rcases hmember with rfl | ⟨⟨stub, rfl, htag⟩, -⟩
      · exact Or.inl (hkind (List.mem_cons_of_mem _ hmem) hexpression)
      · obtain rfl : id = stub := by simpa using hmem
        exact Or.inr ⟨htag, rfl⟩

/-- Parts stay parts, apart from references that made up a member access. -/
theorem mem_parts (h : g.Grows n g') {whole : NodeId} (hpart : id ∈ g.parts whole) :
    id ∈ g'.parts whole ∨
      g.tag? id = some .reference ∧ g.tag? whole = some .memberAccess := by
  obtain ⟨node, hnode, hmem⟩ := exists_node_of_mem_parts hpart
  obtain ⟨node', hnode', -, -, hevolves⟩ := h.nodes whole node hnode
  rw [parts_eq hnode', tag?_eq hnode]
  exact (h.mem_partsOf hevolves hmem).imp_right fun ⟨htag, hwhole⟩ => ⟨htag, congrArg some hwhole⟩

/-- Parts after a change of payload that are not made up were parts before.

**Proof sketch.** By the way in which the payload changed. Lists only got new nodes at their ends. The
operands of an access that are parts are expressions, and no expression takes the place of a reference. -/
theorem mem_partsOf_back (h : g.Grows n g') {payload payload' : Payload}
    (hevolves : Payload.Evolves n g g' payload payload') (hpart : id ∈ g'.partsOf payload') :
    id ∈ g.partsOf payload ∨ n ≤ id := by
  have hkind : ∀ {ids : List NodeId}, id ∈ ids → (g'.tag? id).any Tag.isExpression = true →
      id ∈ ids.filter fun id => (g.tag? id).any Tag.isExpression := by
    intro ids hid hany
    obtain ⟨tag, htag, hk⟩ := (Option.any_eq_true _ _).mp hany
    exact List.mem_filter.mpr ⟨hid, (Option.any_eq_true _ _).mpr ⟨tag, h.tag?_back htag hk, hk⟩⟩
  cases hevolves with
  | same payload =>
    left
    cases payload with
    | memberAccess _ _ =>
      obtain ⟨hmem, hexpression⟩ := List.mem_filter.mp hpart
      exact hkind hmem hexpression
    | _ => exact hpart
  | unit hnew => exact (List.mem_append.mp hpart).imp_right (hnew id)
  | record hnew =>
    simp only [partsOf, Payload.parts, List.mem_append] at hpart ⊢
    have := hnew id
    tauto
  | reference _ _ _ => exact Or.inl hpart
  | memberAccess hbase hmember =>
    obtain ⟨hmem, hexpression⟩ := List.mem_filter.mp hpart
    -- what took the place of a reference is no expression
    have hold : ∀ {old new : Option NodeId}, g.Replaced g' old new → new = some id →
        old = some id := by
      intro old new hreplaced hnew
      rcases hreplaced with rfl | ⟨-, hnone⟩
      · exact hnew
      · obtain ⟨tag, htag, hk⟩ := hnone id hnew
        rw [htag, Option.any_some, hk] at hexpression
        exact absurd hexpression (by decide)
    left
    rcases List.mem_cons.mp hmem with rfl | hmem
    · exact hkind (List.mem_cons.mpr (Or.inl (Option.some.inj (hold hbase rfl)).symm)) hexpression
    · refine hkind (List.mem_cons_of_mem _ ?_) hexpression
      rw [hold hmember (by simpa using hmem)]
      exact List.mem_singleton.mpr rfl

/-- Parts that are not made up were parts before. -/
theorem mem_parts_back (h : g.Grows n g') {whole : NodeId} (hpart : id ∈ g'.parts whole) :
    id ∈ g.parts whole ∨ n ≤ id := by
  obtain ⟨node', hnode', hmem⟩ := exists_node_of_mem_parts hpart
  rcases Nat.lt_or_ge whole g.size with hlt | hge
  · obtain ⟨node, hnode⟩ := exists_node hlt
    obtain ⟨other, hother, -, -, hevolves⟩ := h.nodes whole node hnode
    obtain rfl := Option.some.inj (hother.symm.trans hnode')
    rw [parts_eq hnode]
    exact h.mem_partsOf_back hevolves hmem
  · exact Or.inr ((h.fresh whole node' hge hnode').2.le_of_mem_partsOf hmem)

/-- The place inside a node stays. -/
theorem enter (h : g.Grows n g') {node node' : Node} (hnode : g.node? id = some node)
    (hnode' : g'.node? id = some node') : p.enter id node' = p.enter id node := by
  obtain ⟨other, hother, hname, -, hevolves⟩ := h.nodes id node hnode
  obtain rfl := Option.some.inj (hother.symm.trans hnode')
  exact Place.enter_congr (by rw [Node.tag, hevolves.tag, Node.tag]) hname

/-- **Places stay,** apart from those of references that made up a member access. -/
theorem stands (h : g.Grows n g') (hp : g.Stands p id) :
    g'.Stands p id ∨
      g.tag? id = some .reference ∧ ∃ whole, id ∈ g.parts whole ∧ g.tag? whole = some .memberAccess := by
  induction hp with
  | @unit id hunit =>
    obtain ⟨new, hnew, -⟩ := h.units
    exact Or.inl (.unit (hnew ▸ List.mem_append_left _ hunit))
  | @part p whole id node above found hpart ih =>
    have habove : g'.Stands p whole := by
      rcases ih with hp | ⟨htag, -⟩
      · exact hp
      · rw [parts_of_reference htag] at hpart
        exact absurd hpart List.not_mem_nil
    obtain ⟨node', hnode', -⟩ := h.nodes whole node found
    rcases h.mem_parts hpart with hpart' | ⟨htag, hwhole⟩
    · left
      rw [← h.enter found hnode']
      exact habove.part hnode' hpart'
    · exact Or.inr ⟨htag, whole, hpart, hwhole⟩

/-- What is no reference stays at its place. -/
theorem stands_of_tag? (h : g.Grows n g') (hp : g.Stands p id) {tag : Tag}
    (htag : g.tag? id = some tag) (hreference : tag ≠ .reference) : g'.Stands p id := by
  rcases h.stands hp with hp' | ⟨htag', -⟩
  · exact hp'
  · exact absurd (Option.some.inj (htag.symm.trans htag')) hreference

/-- What is not made up stood at its place before. -/
theorem stands_back (h : g.Grows n g') (hn : g.size ≤ n) (hp : g'.Stands p id) (hid : id < n) :
    g.Stands p id := by
  induction hp with
  | @unit id hunit =>
    obtain ⟨new, hnew, hle⟩ := h.units
    rw [hnew] at hunit
    rcases List.mem_append.mp hunit with hunit | hunit
    · exact .unit hunit
    · exact absurd hid (Nat.not_lt.mpr (hle _ hunit))
  | @part p whole id node' _ found hpart ih =>
    rcases h.mem_parts_back hpart with hpart | hle
    · obtain ⟨node, hnode, -⟩ := exists_node_of_mem_parts hpart
      rw [h.enter hnode found]
      exact (ih (Nat.lt_of_lt_of_le (lt_size hnode) hn)).part hnode hpart
    · exact absurd hid (Nat.not_lt.mpr hle)

/-! ## Contents of growing graphs -/

/-- **Records.** A record keeps its contents and gets made-up fields at the end. -/
theorem record (h : g.Grows n g') {body : RecordBody} (hbody : g.payload? id = some (.record body)) :
    ∃ new, g'.payload? id = some (.record { body with fields := body.fields ++ new }) ∧
      ∀ field ∈ new, n ≤ field := by
  obtain ⟨payload', hpayload', hevolves⟩ := h.exists_payload hbody
  cases hevolves with
  | same => exact ⟨[], by rw [hpayload', List.append_nil], fun _ hid => absurd hid List.not_mem_nil⟩
  | @record _ new hnew => exact ⟨new, hpayload', hnew⟩

/-! ## Steps of growth -/

/-- A change of notes and beliefs. -/
theorem of_sameTree (n : Nat) (h : g.SameTree g') : g.Grows n g' where
  size := Nat.le_of_eq h.size.symm
  units := ⟨[], by rw [h.units, List.append_nil], fun _ hid => absurd hid List.not_mem_nil⟩
  nodes id node hnode := by
    obtain ⟨node', hnode', hname, hpayload, hdummy⟩ := h.exists_node hnode
    exact ⟨node', hnode', hname, hdummy, hpayload ▸ .same _⟩
  fresh id node' hid hnode' := by
    have := lt_size hnode'
    rw [h.size] at this
    exact absurd this (Nat.not_lt.mpr hid)
  declared id node declarations hnode _ hpayload := by
    rw [h.payload?, payload?, hnode, Option.map_some, hpayload]

/-- A made-up node. -/
theorem of_adds {node : Node} (h : g.Adds g' node) (hdummy : node.dummy = true)
    (hmade : node.payload.MadeUp n) (units : ∃ new, g'.units = g.units ++ new ∧ ∀ id ∈ new, n ≤ id) :
    g.Grows n g' where
  size := h.size ▸ Nat.le_succ _
  units := units
  nodes id old hold := ⟨old, h.other hold, rfl, rfl, .same _⟩
  fresh id node' hid hnode' := by
    have hlt := lt_size hnode'
    rw [h.size] at hlt
    obtain rfl := Nat.le_antisymm hid (Nat.lt_succ_iff.mp hlt)
    obtain rfl := Option.some.inj (h.found.symm.trans hnode')
    exact ⟨hdummy, hmade⟩
  declared id old declarations hold _ hpayload := by
    rw [payload?, h.other hold, Option.map_some, hpayload]

/-- A change of payload; a unit whose payload changes is made up.

**Proof sketch.** The nodes besides the changed one are what they were, and the changed one evolves, as
assumed. No node is new. A unit that is not made up is not the changed node, so it keeps its declarations. -/
theorem of_modifyPayload {whole : NodeId} {node : Node} {f : Payload → Payload}
    (found : g.node? whole = some node) (hunit : node.tag = .unit → node.dummy = true)
    (hevolves : Payload.Evolves n g (g.modifyPayload whole f) node.payload (f node.payload)) :
    g.Grows n (g.modifyPayload whole f) where
  size := Nat.le_of_eq (size_modify ..).symm
  units := ⟨[], (List.append_nil _).symm, fun _ hid => absurd hid List.not_mem_nil⟩
  nodes id old hold := by
    by_cases hid : id = whole
    · subst hid
      obtain rfl := Option.some.inj (found.symm.trans hold)
      exact ⟨_, node?_modifyPayload_self found, rfl, rfl, hevolves⟩
    · exact ⟨old, (node?_modifyPayload_of_ne hid).trans hold, rfl, rfl, .same _⟩
  fresh id node' hid hnode' := by
    have hlt := lt_size hnode'
    have hsize : (g.modifyPayload whole f).size = g.size := size_modify ..
    rw [hsize] at hlt
    exact absurd hlt (Nat.not_lt.mpr hid)
  declared id old declarations hold hdummy hpayload := by
    by_cases hid : id = whole
    · subst hid
      obtain rfl := Option.some.inj (found.symm.trans hold)
      rw [hunit (by rw [Node.tag, hpayload]; rfl)] at hdummy
      exact absurd hdummy (by decide)
    · rw [payload?, node?_modifyPayload_of_ne hid, hold, Option.map_some, hpayload]

end Grows

/-! ## Nothing new is loose -/

/-- Every new node is a unit or a part of something. -/
def Hung (g g' : Graph) : Prop :=
  ∀ id, g.size ≤ id → id < g'.size → id ∈ g'.units ∨ ∃ whole, id ∈ g'.parts whole

namespace Hung

variable {n : Nat} {g g' g'' : Graph}

/-- Nothing is new. -/
theorem of_size (h : g'.size = g.size) : Hung g g' :=
  fun _ hid hlt => absurd (h ▸ hlt) (Nat.not_lt.mpr hid)

/-- What is new stays hung up. -/
theorem trans (h : Hung g g') (h' : Hung g' g'') (hgrows : g.Grows n g') (hgrows' : g'.Grows n g'') :
    Hung g g'' := by
  intro id hid hlt
  rcases Nat.lt_or_ge id g'.size with hold | hnew
  · rcases h id hid hold with hunit | ⟨whole, hpart⟩
    · obtain ⟨new, hunits, -⟩ := hgrows'.units
      exact Or.inl (hunits ▸ List.mem_append_left _ hunit)
    · rcases hgrows'.mem_parts hpart with hpart' | ⟨htag, -⟩
      · exact Or.inr ⟨whole, hpart'⟩
      · -- what is made up is no reference
        obtain ⟨node, hnode⟩ := exists_node hold
        have hmade := (hgrows.fresh id node hid hnode).2.not_isExpression
        rw [tag?_eq hnode, Option.some.injEq, Node.tag] at htag
        rw [htag] at hmade
        exact absurd hmade (by decide)
  · exact h' id hnew hlt

end Hung

end Graph

end ProgramGraph
