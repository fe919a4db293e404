import Mathlib.Logic.Relation
import ProgramGraph.Proofs.Resolution.FirstObservations

set_option autoImplicit false

/-!
# Changes of beliefs and targets

What a resolution does to beliefs and to the targets of references comes down to changes of three
kinds: nodes are made to which nobody listens, a field is informed of the types of an access to it,
and a reference is pointed at a declaration. What these keep is kept by every run.

## Main definitions

* `ProgramGraph.Graph.targetOf` — the declaration that a reference means.
* `ProgramGraph.Graph.Quiet` — nothing but new nodes.
* `ProgramGraph.Graph.Enlarges` — made-up declarations.
* `ProgramGraph.Graph.informed` — a graph in which a field heard of the types of an access.
* `ProgramGraph.Graph.pointed` — a graph in which a reference means something else.
* `ProgramGraph.Graph.Change` — one change, and `ProgramGraph.Graph.Changes` — several.

## Main results

* `ProgramGraph.Graph.quiet_addTyped` and its siblings — what makes nodes and writes links.
* `ProgramGraph.Graph.Enlarges.makeRecord` and its siblings — making declarations up.
-/

namespace ProgramGraph

/-- What a reference means; other nodes mean nothing. -/
def Payload.target : Payload → Option NodeId
  | .reference target _ => target
  | _ => none

namespace Graph

variable {g g' g'' : Graph} {id : NodeId} {node : Node} {done more : List NodeId}
  {old target : Option NodeId} {isStatic : Bool}

/-- The declaration that a reference means. -/
def targetOf (g : Graph) (id : NodeId) : Option NodeId := (g.payload? id).bind Payload.target

/-- What means something is a reference. -/
theorem tag?_of_targetOf {d : NodeId} (h : g.targetOf id = some d) :
    g.tag? id = some .reference := by
  obtain ⟨payload, hpayload, htarget⟩ := Option.bind_eq_some_iff.mp h
  obtain ⟨node, hnode, rfl⟩ := Option.map_eq_some_iff.mp hpayload
  rw [tag?_eq hnode, Node.tag]
  cases hkind : node.payload with
  | reference _ _ => rfl
  | _ =>
    rw [hkind] at htarget
    exact absurd htarget (by simp [Payload.target])

/-- The target of a reference with a known payload. -/
theorem targetOf_eq (h : g.payload? id = some (.reference target isStatic)) : g.targetOf id = target := by
  rw [targetOf, h]
  rfl

/-- Kinds stay where each node keeps its own. -/
theorem tag?_modify (g : Graph) (whole : NodeId) {f : Node → Node}
    (htag : ∀ node, (f node).tag = node.tag) (id : NodeId) :
    (g.modify whole f).tag? id = g.tag? id := by
  rw [tag?, tag?, node?_modify]
  split
  · cases g.node? id with
    | none => rfl
    | some node => exact congrArg some (htag node)
  · rfl

/-! ## Nothing but new nodes -/

/-- Nodes come to a graph of which nobody heard yet and which mean nothing. Kinds, beliefs and targets
stay. -/
structure Quiet (g g' : Graph) : Prop where
  /-- Kinds stay. -/
  tags : ∀ id tag, g.tag? id = some tag → g'.tag? id = some tag
  /-- References mean what they meant. -/
  targets : ∀ id, g'.targetOf id = g.targetOf id
  /-- Beliefs stay. -/
  beliefs : ∀ id b, g.belief? id = some b → g'.belief? id = some b
  /-- What is believed about new nodes stems from one observation. -/
  fresh : ∀ id b, g'.belief? id = some b → g.belief? id = some b ∨ g.tag? id = none ∧ b.IsRaw
  /-- New nodes have beliefs if they carry values. -/
  typed : ∀ id tag, g'.tag? id = some tag → tag.isTyped = true →
    g.tag? id = some tag ∨ (g'.belief? id).isSome = true
  /-- No listener is made. -/
  keys : g'.nextKey = g.nextKey

namespace Quiet

/-- A graph in which nothing happens. -/
theorem refl (g : Graph) : g.Quiet g :=
  ⟨fun _ _ h => h, fun _ => rfl, fun _ _ h => h, fun _ _ h => Or.inl h, fun _ _ h _ => Or.inl h, rfl⟩

/-- Quiet steps, one after the other. -/
theorem trans (h : g.Quiet g') (h' : g'.Quiet g'') : g.Quiet g'' := by
  refine ⟨fun id tag htag => h'.tags id tag (h.tags id tag htag),
    fun id => (h'.targets id).trans (h.targets id),
    fun id b hb => h'.beliefs id b (h.beliefs id b hb), fun id b hb => ?_, fun id tag htag htyped => ?_,
    h'.keys.trans h.keys⟩
  · rcases h'.fresh id b hb with hb | ⟨hnone, hraw⟩
    · exact h.fresh id b hb
    · refine Or.inr ⟨?_, hraw⟩
      cases htag : g.tag? id with
      | none => rfl
      | some tag => exact absurd ((h.tags id tag htag).symm.trans hnone) (by simp)
  · rcases h'.typed id tag htag htyped with htag | hb
    · refine (h.typed id tag htag htyped).imp_right fun hb => ?_
      obtain ⟨b, hb⟩ := Option.isSome_iff_exists.mp hb
      rw [h'.beliefs id b hb]
      rfl
    · exact Or.inr hb

/-- A node is added that is no reference.

**Proof sketch.** There was nothing under the number of the new node, so that no belief and no target is
overwritten. It is no reference, so it means nothing, and its belief is as it was made. -/
theorem of_adds (hadds : g.Adds g' node) (hraw : ∀ b, node.belief = some b → b.IsRaw)
    (htyped : node.tag.isTyped = true → node.belief.isSome = true) (hreference : node.tag ≠ .reference)
    (hkeys : g'.nextKey = g.nextKey) : g.Quiet g' := by
  have hnone : g.node? g.size = none := node?_eq_none (Nat.le_refl _)
  refine ⟨hadds.keeps.tag, fun id => ?_, fun _ _ => hadds.belief?_of_some, fun id b hb => ?_,
    fun id tag htag hk => ?_, hkeys⟩
  · rw [targetOf, targetOf, payload?, payload?, hadds.nodes]
    split
    · next heq =>
      rw [heq, hnone]
      cases htarget : node.payload.target with
      | none => simpa using htarget
      | some d =>
        have hmeans : g'.targetOf g.size = some d := by
          rw [targetOf, payload?, hadds.found]
          exact htarget
        exact absurd (Option.some.inj ((tag?_eq hadds.found).symm.trans (tag?_of_targetOf hmeans)))
          hreference
    · rfl
  · rw [hadds.belief?] at hb
    split at hb
    · next heq =>
      refine Or.inr ⟨?_, hraw b hb⟩
      rw [heq, tag?, hnone]
      rfl
    · exact Or.inl hb
  · by_cases heq : id = g.size
    · rw [heq, tag?_eq hadds.found, Option.some.injEq] at htag
      rw [heq, hadds.belief?, if_pos rfl]
      exact Or.inr (htyped (htag ▸ hk))
    · rw [tag?, hadds.nodes, if_neg heq] at htag
      exact Or.inl htag

/-- A node changes, but neither its kind, nor its belief, nor what it means. -/
theorem of_modify (g : Graph) (whole : NodeId) {f : Node → Node}
    (hbelief : ∀ node, (f node).belief = node.belief) (htag : ∀ node, (f node).tag = node.tag)
    (htarget : ∀ node, (f node).payload.target = node.payload.target) :
    g.Quiet (g.modify whole f) := by
  have htags := tag?_modify g whole htag
  have hbeliefs : ∀ id, (g.modify whole f).belief? id = g.belief? id :=
    fun id => belief?_modify g whole id hbelief
  refine ⟨fun id tag h => (htags id).trans h, fun id => ?_, fun id b h => (hbeliefs id).trans h,
    fun id b h => Or.inl ((hbeliefs id).symm.trans h),
    fun id tag h _ => Or.inl ((htags id).symm.trans h), rfl⟩
  rw [targetOf, targetOf, payload?, payload?, node?_modify]
  split
  · cases g.node? id with
    | none => rfl
    | some node => exact htarget node
  · rfl

end Quiet

/-- **A node with a first observation** that is no reference. -/
theorem quiet_addTyped (g : Graph) (o : Observation) (hbelief : node.belief = some {})
    (hreference : node.tag ≠ .reference) : g.Quiet (g.addTyped node o).2 := by
  rw [addTyped_eq fun b hb => by rw [Option.some.inj (hb.symm.trans hbelief)]]
  refine .of_adds (g.adds_add _) (fun b hb => ?_) (fun _ => ?_) hreference rfl
  · rw [firstSeen, hbelief] at hb
    exact ⟨o, (Option.some.inj hb).symm⟩
  · rw [firstSeen, hbelief]
    rfl

/-- **A record** with the field that stands for it. -/
theorem quiet_addRecord (g : Graph) (name sort : String) (superTypes : List Descriptor)
    (dummy : Bool) : g.Quiet (g.addRecord name sort superTypes dummy).2 := by
  have hself : g.Quiet (g.addTyped (.selfField dummy) { type := .parse name }).2 :=
    quiet_addTyped g _ rfl (by simp [Node.selfField, Node.make, Node.tag, Payload.tag])
  refine hself.trans (.of_adds (adds_addRecord name sort superTypes dummy g) (fun b hb => ?_)
    (fun htyped => ?_) (fun htag => ?_) rfl)
  · exact absurd hb (by simp [Node.make, Payload.tag, Tag.isTyped])
  · exact absurd htyped (by simp [Node.tag, Node.make, Payload.tag, Tag.isTyped])
  · exact absurd htag (by simp [Node.tag, Node.make, Payload.tag])

/-- **The unit for made-up declarations** is found or made. -/
theorem quiet_placeholderUnit (g : Graph) : g.Quiet g.placeholderUnit.2 := by
  cases hunit : g.placeholderUnit? with
  | some unit =>
    rw [placeholderUnit_of_some hunit]
    exact .refl g
  | none =>
    obtain ⟨-, hadds, -⟩ := placeholderUnit_of_none hunit
    have hkeys : g.placeholderUnit.2.nextKey = g.nextKey := by
      rw [placeholderUnit, hunit]
      rfl
    exact .of_adds hadds
      (fun b hb => absurd hb (by simp [newPlaceholderUnit, Node.make, Payload.tag, Tag.isTyped]))
      (fun htyped => absurd htyped
        (by simp [newPlaceholderUnit, Node.tag, Node.make, Payload.tag, Tag.isTyped]))
      (by simp [newPlaceholderUnit, Node.tag, Node.make, Payload.tag]) hkeys

/-- **The contents of a node** change, but neither its kind nor what it means. -/
theorem quiet_modifyPayload (g : Graph) (whole : NodeId) {f : Payload → Payload}
    (htag : ∀ payload, (f payload).tag = payload.tag)
    (htarget : ∀ payload, (f payload).target = payload.target) :
    g.Quiet (g.modifyPayload whole f) :=
  .of_modify g whole (fun _ => rfl) (fun node => htag node.payload) fun node => htarget node.payload

/-- Putting a declaration into a unit is quiet. -/
theorem quiet_appendDeclaration (g : Graph) (unit declaration : NodeId) :
    g.Quiet (g.appendDeclaration unit declaration) :=
  quiet_modifyPayload g unit (fun payload => by cases payload <;> rfl)
    fun payload => by cases payload <;> rfl

/-- Putting a field into a record is quiet. -/
theorem quiet_appendField (g : Graph) (record field : NodeId) :
    g.Quiet (g.appendField record field) :=
  quiet_modifyPayload g record (fun payload => by cases payload <;> rfl)
    fun payload => by cases payload <;> rfl

/-- Setting base and member of an access is quiet. -/
theorem quiet_setAccess (g : Graph) (access base : NodeId) (member : Option NodeId) :
    g.Quiet (g.setAccess access base member) :=
  quiet_modifyPayload g access (fun payload => by cases payload <;> rfl)
    fun payload => by cases payload <;> rfl

/-! ## Made-up declarations -/

/-- A graph is enlarged by made-up declarations. -/
structure Enlarges (n : Nat) (g g' : Graph) : Prop where
  /-- It stays well formed. -/
  wellFormed : g'.WellFormed []
  /-- It grows. -/
  grows : g.Grows n g'
  /-- Beliefs evolve. -/
  refines : ∀ D, g.Confined D → Refines D g g'
  /-- The fields that stand for records began with the types of these. -/
  selves : g.SelvesBegan → g'.SelvesBegan
  /-- Nothing comes but new nodes. -/
  quiet : g.Quiet g'
  /-- Every new node is hung up somewhere. -/
  hung : g.Hung g'

namespace Enlarges

variable {n : Nat}

/-- A graph that gets no larger. -/
theorem refl (wf : g.WellFormed []) (n : Nat) : Enlarges n g g :=
  ⟨wf, .refl n g, fun _ hD => .refl hD, fun hg => hg, .refl g, .of_size rfl⟩

/-- A graph is enlarged step by step. -/
theorem trans (h : Enlarges n g g') (h' : Enlarges n g' g'') : Enlarges n g g'' where
  wellFormed := h'.wellFormed
  grows := h.grows.trans h'.grows
  refines D hD := (h.refines D hD).trans (h'.refines D (h.refines D hD).confined)
  selves hg := h'.selves (h.selves hg)
  quiet := h.quiet.trans h'.quiet
  hung := h.hung.trans h'.hung h.grows h'.grows

/-- **The unit for made-up declarations.** -/
theorem placeholderUnit (wf : g.WellFormed []) (hn : n ≤ g.size) : Enlarges n g g.placeholderUnit.2 :=
  ⟨(wf.placeholderUnit hn).1, (wf.placeholderUnit hn).2.1, fun _ hD => refines_placeholderUnit hD,
    fun hg => hg.placeholderUnit, g.quiet_placeholderUnit, g.hung_placeholderUnit⟩

/-- **A record** in this unit. -/
theorem makeRecord {unit : NodeId} (wf : g.WellFormed []) (hn : n ≤ g.size)
    (hunit : g.IsMadeUpUnit unit) (name : String) :
    Enlarges n g ((g.addRecord name "unknown" [] true).2.appendDeclaration unit (g.size + 1)) := by
  obtain ⟨hwf, hgrows⟩ := wf.makeRecord hn hunit name
  refine ⟨hwf, hgrows, fun D hD => ?_, fun hg => ?_, ?_, hung_makeRecord hunit name⟩
  · have hadded := refines_addRecord hD name "unknown" [] true
    exact hadded.trans (refines_modify hadded.confined _ fun _ => rfl)
  · refine (hg.addRecord name "unknown" [] true).modify _ (fun _ => rfl) (fun _ => rfl)
      fun node body heq => ⟨body, ?_, rfl⟩
    dsimp only at heq
    split at heq
    · exact absurd heq (by simp)
    · exact heq
  · exact (g.quiet_addRecord name "unknown" [] true).trans
      (quiet_appendDeclaration _ unit (g.size + 1))

/-- **A field** at the end of a record. -/
theorem makeField {record : NodeId} {body : RecordBody} (wf : g.WellFormed []) (hn : n ≤ g.size)
    (hbody : g.payload? record = some (.record body)) (name : String) (o : Observation) :
    Enlarges n g ((g.addTyped (madeUpField name) o).2.appendField record g.size) := by
  obtain ⟨hwf, hgrows⟩ := wf.makeField hn hbody name o
  have hnew : (madeUpField name).belief = some {} := rfl
  refine ⟨hwf, hgrows, fun D hD => ?_, fun hg => ?_, ?_, hung_makeField hbody name o⟩
  · have hadded := refines_addTyped hD hnew o
    exact hadded.trans (refines_modify hadded.confined _ fun _ => rfl)
  · refine SelvesBegan.modify (hg.addField name o) _ (fun _ => rfl) (fun _ => rfl)
      fun node after heq => ?_
    dsimp only at heq
    split at heq
    · next body heq' =>
      obtain rfl := Payload.record.inj heq
      exact ⟨body, heq', rfl⟩
    · exact ⟨after, heq, rfl⟩
  · exact (g.quiet_addTyped o hnew (by simp [madeUpField, Node.make, Node.tag, Payload.tag])).trans
      (quiet_appendField _ record g.size)

end Enlarges

/-! ## Changes -/

/-- A graph in which a field heard of the types of an access to it. -/
def informed (g : Graph) (field access : NodeId) : Graph :=
  let g := g.observe field (g.typeOf access)
  g.widen field ((g.observedAt field).observations ++ (g.observedAt access).observations)

/-- When a field hears of the types of an access, beliefs change at most. -/
theorem sameSource_informed (g : Graph) (field access : NodeId) :
    g.SameSource (g.informed field access) :=
  (g.sameSource_observe field _).trans (sameSource_widen _ field _)

/-- When a field hears of the types of an access, the syntax trees stay. -/
theorem sameTree_informed (g : Graph) (field access : NodeId) :
    g.SameTree (g.informed field access) :=
  (g.sameSource_informed field access).sameTree

/-- The payload of a reference that was pointed at a declaration. -/
theorem payload?_setTarget_self (hpayload : g.payload? id = some (.reference old isStatic)) :
    (g.setTarget id target).payload? id = some (.reference target isStatic) := by
  obtain ⟨node, hnode, heq⟩ := exists_node_of_payload? hpayload
  rw [setTarget, payload?_eq (node?_modifyPayload_self hnode), heq]

/-- The payloads of the other nodes. -/
theorem payload?_setTarget_of_ne {other : NodeId} (h : other ≠ id) :
    (g.setTarget id target).payload? other = g.payload? other := by
  rw [setTarget, payload?, node?_modifyPayload_of_ne h, payload?]

/-- Writing what a reference means keeps kinds. -/
theorem tag?_setTarget (g : Graph) (reference : NodeId) (target : Option NodeId) (id : NodeId) :
    (g.setTarget reference target).tag? id = g.tag? id := by
  refine tag?_modify g reference (fun node => ?_) id
  obtain ⟨_, payload⟩ := node
  cases payload <;> rfl

/-- A graph in which a reference no longer follows what it meant before. -/
def freed (g : Graph) (reference : NodeId) : Option NodeId → Graph
  | some previous => g.unsubscribeOwned previous reference
  | none => g

/-- A graph in which a reference follows what it means. -/
def following (g : Graph) (reference : NodeId) : Option NodeId → Graph
  | some declaration =>
    (g.mintListener (.follow reference)).2.subscribe declaration
      (g.mintListener (.follow reference)).1
  | none => g

/-- When a reference is freed, beliefs change at most. -/
theorem sameSource_freed (g : Graph) (reference : NodeId) (old : Option NodeId) :
    g.SameSource (g.freed reference old) := by
  cases old with
  | none => exact SameSource.refl g
  | some previous => exact g.sameSource_unsubscribeOwned previous reference

/-- When a reference is freed, the syntax trees stay. -/
theorem sameTree_freed (g : Graph) (reference : NodeId) (old : Option NodeId) :
    g.SameTree (g.freed reference old) :=
  (g.sameSource_freed reference old).sameTree

/-- No listener is made where one is removed. -/
theorem nextKey_freed (g : Graph) (reference : NodeId) (old : Option NodeId) :
    (g.freed reference old).nextKey = g.nextKey := by
  cases old with
  | none => rfl
  | some previous =>
    rw [freed, unsubscribeOwned, keepListeners]
    cases g.belief? previous <;> rfl

/-- When a reference begins to follow what it means, beliefs change at most. -/
theorem sameSource_following (g : Graph) (reference : NodeId) (target : Option NodeId) :
    g.SameSource (g.following reference target) := by
  cases target with
  | none => exact SameSource.refl g
  | some declaration =>
    exact (g.sameSource_mintListener _).trans (Graph.sameSource_subscribe _ declaration _)

/-- When a reference begins to follow what it means, the syntax trees stay. -/
theorem sameTree_following (g : Graph) (reference : NodeId) (target : Option NodeId) :
    g.SameTree (g.following reference target) :=
  (g.sameSource_following reference target).sameTree

/-- A graph in which a reference means something else than before, or nothing, and follows it. -/
def pointed (g : Graph) (reference : NodeId) (old target : Option NodeId) : Graph :=
  ((g.freed reference old).setTarget reference target).following reference target

/-- Pointing a reference keeps kinds. -/
theorem tag?_pointed (g : Graph) (reference : NodeId) (old target : Option NodeId) (id : NodeId) :
    (g.pointed reference old target).tag? id = g.tag? id := by
  rw [pointed, (sameTree_following ..).tag?, tag?_setTarget, (sameTree_freed ..).tag?]

/-- One change to beliefs or to what some references mean. -/
inductive Change (done : List NodeId) : Graph → Graph → Prop where
  /-- Nothing but new nodes. -/
  | quiet {g g' : Graph} (h : g.Quiet g') : Change done g g'
  /-- A field hears of the types of an access. -/
  | inform {g : Graph} {field access : NodeId} (hfield : g.tag? field = some .field)
    (haccess : g.tag? access = some .memberAccess) : Change done g (g.informed field access)
  /-- A reference is pointed at a declaration, or at nothing. -/
  | point {g : Graph} {reference : NodeId} {old target : Option NodeId} {isStatic : Bool}
    (hdone : reference ∈ done) (hpayload : g.payload? reference = some (.reference old isStatic))
    (htarget : g.All Tag.isValueDeclaration target.toList) :
    Change done g (g.pointed reference old target)

namespace Change

variable {reference : NodeId}

/-- Kinds stay. -/
theorem tag? {tag : Tag} (h : Change done g g') (htag : g.tag? id = some tag) :
    g'.tag? id = some tag := by
  cases h with
  | quiet hquiet => exact hquiet.tags id tag htag
  | inform _ _ => rw [(sameTree_informed _ _ _).tag?, htag]
  | point _ _ _ => rw [tag?_pointed, htag]

/-- A reference that is not pointed at anything means what it meant. -/
theorem targetOf (h : Change done g g') (hreference : reference ∉ done) :
    g'.targetOf reference = g.targetOf reference := by
  cases h with
  | quiet hquiet => exact hquiet.targets reference
  | inform _ _ => rw [Graph.targetOf, (sameTree_informed _ _ _).payload?, Graph.targetOf]
  | point hdone _ _ =>
    have hne := fun heq : reference = _ => hreference (heq ▸ hdone)
    rw [Graph.targetOf, pointed, (sameTree_following ..).payload?, payload?_setTarget_of_ne hne,
      (sameTree_freed ..).payload?, Graph.targetOf]

end Change

/-- Several changes. -/
def Changes (done : List NodeId) : Graph → Graph → Prop := Relation.ReflTransGen (Change done)

namespace Changes

/-- No change at all. -/
theorem refl (done : List NodeId) (g : Graph) : Changes done g g :=
  Relation.ReflTransGen.refl

/-- Changes, one after the other. -/
theorem trans (h : Changes done g g') (h' : Changes done g' g'') : Changes done g g'' :=
  Relation.ReflTransGen.trans h h'

/-- A single change. -/
theorem single (h : Change done g g') : Changes done g g' :=
  Relation.ReflTransGen.single h

/-- A reference that is not pointed at anything means what it meant. -/
theorem targetOf {reference : NodeId} (h : Changes done g g') (hreference : reference ∉ done) :
    g'.targetOf reference = g.targetOf reference := by
  induction h with
  | refl => rfl
  | tail _ hchange ih => exact (hchange.targetOf hreference).trans ih

/-- More references may be pointed at declarations. -/
theorem weaken (h : Changes done g g') (hsubset : done ⊆ more) : Changes more g g' := by
  refine Relation.ReflTransGen.mono (fun _ _ hchange => ?_) _ _ h
  cases hchange with
  | quiet hquiet => exact .quiet hquiet
  | inform hfield haccess => exact .inform hfield haccess
  | point hdone hpayload htarget => exact .point (hsubset hdone) hpayload htarget

end Changes

end Graph

end ProgramGraph
