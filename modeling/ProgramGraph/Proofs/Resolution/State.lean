import ProgramGraph.Proofs.Resolution.Changes
import ProgramGraph.Resolution.Usage

set_option autoImplicit false

/-!
# The state of a resolution

While usages are resolved, the index stays right about the graph, and each step leaves most things
alone: declared types keep their records, records keep their fields, and a record gets a field of a
name only if no member of this name was found before.

## Main definitions

* `ProgramGraph.Graph.fieldOf` — the first field of a record with a name.
* `ProgramGraph.Resolver.memberOf` — the field for a member of a type.
* `ProgramGraph.Resolver.Sound` — the index is right about the graph.
* `ProgramGraph.Graph.Stirred` — where the types of nodes may change.
* `ProgramGraph.Resolver.Step` — how a resolution may go on.

## Main results

* `ProgramGraph.Resolver.Sound.findMember_eq` — the search for a member does not fail.
* `ProgramGraph.Resolver.Step.ownField`, `ProgramGraph.Resolver.Step.memberOf` — members that are
  found stay found.
* `ProgramGraph.Resolver.Step.ownField_eq_none` — no field gets before a member that is found.
-/

namespace ProgramGraph

namespace Graph

variable {g g' : Graph} {ids : List NodeId} {id : NodeId}

/-! ## Names -/

/-- The node with a number has a name. -/
def isNamed (g : Graph) (name : String) (id : NodeId) : Bool := g.name? id == some name

/-- The first field of a record with a name. -/
def fieldOf (g : Graph) (name : String) (record : NodeId) : Option NodeId :=
  (g.fieldsOf record).find? (g.isNamed name)

/-- A node is named so if it is there and has the name. -/
theorem isNamed_iff {name : String} : g.isNamed name id = true ↔ g.name? id = some name := by
  simp [isNamed]

/-- **Searching by name** does not fail among nodes. -/
theorem firstNamed_eq {name : String} (h : ∀ id ∈ ids, id < g.size) :
    g.firstNamed name ids = .ok (ids.find? (g.isNamed name)) := by
  induction ids with
  | nil => rfl
  | cons id rest ih =>
    obtain ⟨node, hnode⟩ := exists_node (h id (List.mem_cons_self ..))
    have hrest := ih fun other hother => h other (List.mem_cons_of_mem _ hother)
    rw [firstNamed, node_eq_ok.mpr hnode, List.find?_cons, hrest]
    simp only [bind, Except.bind, isNamed, name?_eq hnode]
    by_cases hname : node.name = name
    · simp [hname]
      rfl
    · have hne : (node.name == name) = false := by simpa using hname
      simp [hname, hne]

/-- Only records have fields. -/
theorem tag?_of_mem_fieldsOf {record field : NodeId} (h : field ∈ g.fieldsOf record) :
    g.tag? record = some .record := by
  unfold fieldsOf at h
  cases hpayload : g.payload? record with
  | none => simp [hpayload] at h
  | some payload =>
    cases payload with
    | record body => exact tag?_of_payload? hpayload
    | _ => simp [hpayload] at h

/-- The fields of a record are parts of it. -/
theorem mem_parts_of_mem_fieldsOf {record field : NodeId} (h : field ∈ g.fieldsOf record) :
    field ∈ g.parts record := by
  obtain ⟨body, hbody⟩ := exists_record_of_tag? (tag?_of_mem_fieldsOf h)
  obtain ⟨node, hnode, hpayload⟩ := exists_node_of_payload? hbody
  rw [fieldsOf, hbody] at h
  rw [parts_eq hnode, hpayload]
  simp only [partsOf, Payload.parts, List.mem_append]
  exact Or.inl (Or.inl (Or.inl h))

/-- The fields of a record are fields. -/
theorem WellTyped.all_fieldsOf (typed : g.WellTyped) : g.All (· == .field) (g.fieldsOf id) := by
  unfold fieldsOf
  cases hpayload : g.payload? id with
  | none => exact All.nil
  | some payload =>
    cases payload with
    | record body =>
      obtain ⟨node, hnode, heq⟩ := exists_node_of_payload? hpayload
      have hfits := typed.nodes id node hnode
      rw [heq] at hfits
      exact hfits.1
    | _ => exact All.nil

/-- The constants of an enumeration are constants. -/
theorem WellTyped.all_entriesOf (typed : g.WellTyped) :
    g.All (· == .enumConstant) (g.entriesOf id) := by
  unfold entriesOf
  cases hpayload : g.payload? id with
  | none => exact All.nil
  | some payload =>
    cases payload with
    | enum _ _ =>
      obtain ⟨node, hnode, heq⟩ := exists_node_of_payload? hpayload
      have hfits := typed.nodes id node hnode
      rw [heq] at hfits
      exact hfits
    | _ => exact All.nil

/-- The field that stands for a record. -/
theorem WellTyped.exists_selfOf (typed : g.WellTyped) (h : g.tag? id = some .record) :
    ∃ self, g.selfOf id = some self ∧ self ∈ g.fieldsOf id ∧ g.name? self = some "this" := by
  obtain ⟨body, hbody⟩ := exists_record_of_tag? h
  obtain ⟨node, hnode, hpayload⟩ := exists_node_of_payload? hbody
  have hfits := typed.nodes id node hnode
  rw [hpayload] at hfits
  obtain ⟨-, -, -, self, hself, hhead, hname⟩ := hfits
  refine ⟨self, ?_, ?_, hname⟩
  · rw [selfOf, hbody]
    exact hself
  · rw [fieldsOf, hbody]
    exact List.mem_of_mem_head? hhead

/-- The search for a field does not fail. -/
theorem WellTyped.fieldNamed_eq (typed : g.WellTyped) (h : id < g.size) (name : String) :
    g.fieldNamed id name = .ok (g.fieldOf name id) := by
  obtain ⟨node, hnode⟩ := exists_node h
  rw [fieldNamed, fields_eq hnode]
  exact firstNamed_eq fun field hfield => typed.all_fieldsOf.lt_size hfield

/-- A field that is found is a field of the record, of the name. -/
theorem mem_of_fieldOf {name : String} {field : NodeId} (h : g.fieldOf name id = some field) :
    field ∈ g.fieldsOf id ∧ g.name? field = some name :=
  ⟨List.mem_of_find?_eq_some h, isNamed_iff.mp (List.find?_some h)⟩

/-- A record keeps its fields and gets made-up ones at the end. -/
theorem Grows.fieldsOf {n : Nat} (h : g.Grows n g') (hid : g.tag? id = some .record) :
    ∃ new, g'.fieldsOf id = g.fieldsOf id ++ new ∧ ∀ field ∈ new, n ≤ field := by
  obtain ⟨body, hbody⟩ := exists_record_of_tag? hid
  obtain ⟨new, hnew, hle⟩ := h.record hbody
  exact ⟨new, by simp only [Graph.fieldsOf, hbody, hnew], hle⟩

/-- Names stay, and so does what is found by name. -/
theorem Grows.find?_isNamed {n : Nat} (h : g.Grows n g') (hids : ∀ id ∈ ids, id < g.size)
    (name : String) : ids.find? (g'.isNamed name) = ids.find? (g.isNamed name) := by
  have hsame : ∀ id ∈ ids, g'.isNamed name id = g.isNamed name id := by
    intro id hid
    obtain ⟨node, hnode⟩ := exists_node (hids id hid)
    rw [isNamed, isNamed, h.name? (name?_eq hnode), name?_eq hnode]
  rw [← List.head?_filter, ← List.head?_filter, List.filter_congr hsame]

/-- **A field that is found stays found.** -/
theorem Grows.fieldOf {n : Nat} (h : g.Grows n g') (typed : g.WellTyped)
    (hid : g.tag? id = some .record) {name : String} {field : NodeId}
    (hfield : g.fieldOf name id = some field) : g'.fieldOf name id = some field := by
  obtain ⟨new, hnew, -⟩ := h.fieldsOf hid
  have hlt : ∀ other ∈ g.fieldsOf id, other < g.size := fun _ => typed.all_fieldsOf.lt_size
  have hprefix : (g.fieldsOf id).find? (g'.isNamed name) = some field :=
    (h.find?_isNamed hlt name).trans hfield
  rw [Graph.fieldOf, hnew, List.find?_append, hprefix]
  rfl

/-- Among some nodes are all that follow others, some that are resolved, and everything that is no
reference. -/
structure Stirred (D : NodeId → Prop) (done : List NodeId) (g : Graph) : Prop where
  /-- What is resolved. -/
  done : ∀ id ∈ done, D id
  /-- What is no reference. -/
  others : ∀ id, g.tag? id ≠ some .reference → D id
  /-- What follows something. -/
  confined : g.Confined D

/-- All nodes are enough. -/
theorem Stirred.all (done : List NodeId) (g : Graph) : Stirred (fun _ => True) done g :=
  ⟨fun _ _ => trivial, fun _ _ => trivial, fun _ _ _ _ _ _ _ => trivial⟩

end Graph

namespace Resolver

variable {r r' r'' : Resolver} {type owner : Descriptor} {name : String} {field record : NodeId}

/-! ## Members of types -/

/-- The field with a name in the record that declares a type. -/
def ownField (r : Resolver) (name : String) (type : Descriptor) : Option NodeId :=
  (r.index.record? type).bind (r.graph.fieldOf name)

/-- The types whose records are searched for a member of a type. -/
def lineage (r : Resolver) (owner : Descriptor) : List Descriptor :=
  if owner.isUnknown then [] else owner :: r.index.superTypesOf owner

/-- The field for a member of a type: one of its own record, or else of a supertype's record. -/
def memberOf (r : Resolver) (owner : Descriptor) (name : String) : Option NodeId :=
  (r.lineage owner).findSome? (r.ownField name)

/-- An unknown type has no members. -/
theorem memberOf_of_isUnknown (r : Resolver) {owner : Descriptor} (name : String)
    (h : owner.isUnknown = true) : r.memberOf owner name = none := by
  rw [memberOf, lineage, if_pos h]
  rfl

/-- A type without supertypes has the members of its own record only. -/
theorem memberOf_of_superTypesOf_eq_nil {r : Resolver} {owner : Descriptor} {name : String}
    (hsuper : r.index.superTypesOf owner = []) (hown : r.ownField name owner = none) :
    r.memberOf owner name = none := by
  rw [memberOf, lineage, hsuper, List.findSome?_eq_none_iff]
  intro type htype
  split at htype
  · exact absurd htype List.not_mem_nil
  · rwa [List.mem_singleton.mp htype]

/-- The index of a resolution is right about the graph. -/
structure Sound (r : Resolver) : Prop where
  /-- The graph is well formed. -/
  wellFormed : r.graph.WellFormed []
  /-- Types are declared by records. -/
  records : ∀ type record, r.index.record? type = some record → r.graph.tag? record = some .record
  /-- Types are declared by enumerations. -/
  enums : ∀ type enum, r.index.enum? type = some enum → r.graph.tag? enum = some .enum
  /-- A record declares one type. -/
  injective : ∀ type other record, r.index.record? type = some record →
    r.index.record? other = some record → type = other
  /-- Only declared types have supertypes. -/
  superTypes : ∀ type, r.index.record? type = none → r.index.superTypesOf type = []
  /-- What stands in for a member of a type is the field of that name in its record. -/
  dummies : ∀ type name field, r.index.dummies.get? (type, name) = some field →
    r.ownField name type = some field
  /-- The unit for made-up declarations is a made-up unit. -/
  placeholderUnit : ∀ unit, r.index.placeholderUnit = some unit → r.graph.IsMadeUpUnit unit

namespace Sound

/-- The search among several types does not fail. -/
theorem fieldAmong_eq (h : r.Sound) (types : List Descriptor) :
    r.fieldAmong name types = .ok (types.findSome? (r.ownField name)) := by
  induction types with
  | nil => rfl
  | cons type rest ih =>
    rw [fieldAmong, List.findSome?_cons, ih, ownField]
    cases hrecord : r.index.record? type with
    | none => rfl
    | some record =>
      have hlt := Graph.lt_size_of_tag? (h.records _ _ hrecord)
      simp only [h.wellFormed.typed.fieldNamed_eq hlt, bind, Except.bind, Option.bind_some]
      cases r.graph.fieldOf name record <;> rfl

/-- **The search for a member** does not fail. -/
theorem findMember_eq (h : r.Sound) : r.findMember owner name = .ok (r.memberOf owner name) := by
  unfold findMember memberOf lineage
  split
  · rfl
  · exact h.fieldAmong_eq _

/-- A field that is found for a type is a field of its record. -/
theorem exists_record (hfield : r.ownField name type = some field) :
    ∃ record, r.index.record? type = some record ∧ r.graph.fieldOf name record = some field :=
  Option.bind_eq_some_iff.mp hfield

/-- What is found has the name and is a field. -/
theorem ownField_spec (h : r.Sound) (hfield : r.ownField name type = some field) :
    r.graph.tag? field = some .field ∧ r.graph.name? field = some name := by
  obtain ⟨record, -, hfieldOf⟩ := exists_record hfield
  obtain ⟨hmem, hname⟩ := Graph.mem_of_fieldOf hfieldOf
  exact ⟨h.wellFormed.typed.all_fieldsOf.tag_eq hmem, hname⟩

/-- The index stays right while the graph grows. -/
theorem of_grows {n : Nat} {g : Graph} (h : r.Sound) (wf : g.WellFormed [])
    (hgrows : r.graph.Grows n g) : Sound { r with graph := g } where
  wellFormed := wf
  records type record hrecord := hgrows.tag? (h.records type record hrecord)
  enums type enum henum := hgrows.tag? (h.enums type enum henum)
  injective := h.injective
  superTypes := h.superTypes
  dummies type name field hfield := by
    obtain ⟨record, hrecord, hfieldOf⟩ := exists_record (h.dummies _ _ _ hfield)
    exact Option.bind_eq_some_iff.mpr ⟨record, hrecord,
      hgrows.fieldOf h.wellFormed.typed (h.records _ _ hrecord) hfieldOf⟩
  placeholderUnit unit hunit := hgrows.isMadeUpUnit (h.placeholderUnit unit hunit)

end Sound

/-! ## Going on -/

/-- How a resolution may go on while some usages are resolved. -/
structure Step (n : Nat) (done : List NodeId) (r r' : Resolver) : Prop where
  /-- The graph grows. -/
  graph : r.graph.Grows n r'.graph
  /-- The other usages stay as they are. -/
  usages : ∀ id payload, id ∉ done → r.graph.payload? id = some payload →
    payload.tag = .reference ∨ payload.tag = .memberAccess → r'.graph.payload? id = some payload
  /-- Declared types keep their records. -/
  records : ∀ type record, r.index.record? type = some record →
    r'.index.record? type = some record
  /-- Only new records are made up for types. -/
  made : ∀ type record, r'.index.record? type = some record →
    r.index.record? type = some record ∨ r.graph.size ≤ record
  /-- No enumeration is indexed. -/
  enums : r'.index.enums = r.index.enums
  /-- No supertypes are indexed. -/
  superTypes : r'.index.superTypes = r.index.superTypes
  /-- What stands in for members stays. -/
  dummies : ∀ key field, r.index.dummies.get? key = some field →
    r'.index.dummies.get? key = some field
  /-- A record gets a field of a name only if no member of this name was found. -/
  missing : ∀ type record, r.index.record? type = some record →
    ∀ field ∈ r'.graph.fieldsOf record, field ∈ r.graph.fieldsOf record ∨
      ∀ name, r'.graph.name? field = some name → r.memberOf type name = none
  /-- Beliefs evolve, and the types of references change only if they follow something or are
  resolved. -/
  refines : ∀ D, r.graph.Stirred D done → Graph.Refines D r.graph r'.graph
  /-- The fields that stand for records began with the types of these. -/
  selves : r.graph.SelvesBegan → r'.graph.SelvesBegan
  /-- Beliefs and targets change in steps of few kinds. -/
  changes : Graph.Changes done r.graph r'.graph
  /-- Every new node is hung up somewhere. -/
  hung : r.graph.Hung r'.graph

namespace Step

variable {n : Nat} {done : List NodeId}

/-- No enumerations are indexed on the way. -/
theorem enum? (h : Step n done r r') (type : Descriptor) :
    r'.index.enum? type = r.index.enum? type := by
  rw [Index.enum?, h.enums, Index.enum?]

/-- No supertypes are indexed on the way. -/
theorem superTypesOf (h : Step n done r r') (type : Descriptor) :
    r'.index.superTypesOf type = r.index.superTypesOf type := by
  rw [Index.superTypesOf, h.superTypes, Index.superTypesOf]

/-- The types that are searched stay the same. -/
theorem lineage (h : Step n done r r') (owner : Descriptor) : r'.lineage owner = r.lineage owner := by
  rw [Resolver.lineage, h.superTypesOf, Resolver.lineage]

/-- **A field of a type that is found stays found.** -/
theorem ownField (h : Step n done r r') (sound : r.Sound)
    (hfield : r.ownField name type = some field) : r'.ownField name type = some field := by
  obtain ⟨record, hrecord, hfieldOf⟩ := Sound.exists_record hfield
  rw [Resolver.ownField, h.records _ _ hrecord]
  exact h.graph.fieldOf sound.wellFormed.typed (sound.records _ _ hrecord) hfieldOf

/-- **A member that is found stays found,** though another field may be found for it. -/
theorem memberOf (h : Step n done r r') (sound : r.Sound)
    (hmember : r'.memberOf owner name = none) : r.memberOf owner name = none := by
  rw [Resolver.memberOf, List.findSome?_eq_none_iff] at hmember ⊢
  intro type htype
  rw [← h.lineage] at htype
  cases hfield : r.ownField name type with
  | none => rfl
  | some field =>
    have := hmember type htype
    rw [h.ownField sound hfield] at this
    exact absurd this (by simp)

/-- **No field gets before a member that is found.**

**Proof sketch.** A field of the name in the later record is an old one, which would have been found before,
or it was made up since. But fields are made up only for members that are not found, and this one was. -/
theorem ownField_eq_none (h : Step n done r r') (sound : r.Sound)
    (hrecord : r.index.record? type = some record) (hown : r.ownField name type = none)
    (hmember : r.memberOf type name ≠ none) : r'.ownField name type = none := by
  rw [Resolver.ownField, h.records _ _ hrecord, Option.bind_some, Graph.fieldOf,
    List.find?_eq_none]
  intro field hfield hnamed
  have hname := Graph.isNamed_iff.mp hnamed
  rcases h.missing _ _ hrecord field hfield with hold | hnew
  · rw [Resolver.ownField, hrecord, Option.bind_some, Graph.fieldOf, List.find?_eq_none] at hown
    obtain ⟨node, hnode⟩ := Graph.exists_node (sound.wellFormed.typed.all_fieldsOf.lt_size hold)
    have hkept := h.graph.name? (Graph.name?_eq hnode)
    rw [hname, ← Graph.name?_eq hnode] at hkept
    exact hown field hold (Graph.isNamed_iff.mpr hkept.symm)
  · exact hmember (hnew name hname)

/-- A resolver that does nothing. -/
theorem refl (n : Nat) (done : List NodeId) (r : Resolver) : Step n done r r where
  graph := .refl n _
  usages _ _ _ hpayload _ := hpayload
  records _ _ h := h
  made _ _ h := Or.inl h
  enums := rfl
  superTypes := rfl
  dummies _ _ h := h
  missing _ _ _ _ hfield := Or.inl hfield
  refines _ hD := .refl hD.confined
  selves h := h
  changes := .refl done r.graph
  hung := .of_size rfl

/-- More usages may be resolved. -/
theorem weaken {more : List NodeId} (h : Step n done r r') (hsubset : done ⊆ more) :
    Step n more r r' :=
  ⟨h.graph, fun id payload hid => h.usages id payload fun hmem => hid (hsubset hmem), h.records,
    h.made, h.enums, h.superTypes, h.dummies, h.missing,
    fun D hD => h.refines D ⟨fun id hid => hD.done id (hsubset hid), hD.others, hD.confined⟩, h.selves,
    h.changes.weaken hsubset, h.hung⟩

/-- **Going on twice.**

**Proof sketch.** Field by field. A field that was made up in one of the two steps was missing at its
beginning; what is missing after the first step was missing before, as the step only adds. -/
theorem trans (h : Step n done r r') (sound : r.Sound) (sound' : r'.Sound)
    (h' : Step n done r' r'') : Step n done r r'' where
  graph := h.graph.trans h'.graph
  usages id payload hid hpayload htag :=
    h'.usages id payload hid (h.usages id payload hid hpayload htag) htag
  records type record hrecord := h'.records _ _ (h.records _ _ hrecord)
  made type record hrecord := by
    rcases h'.made type record hrecord with hold | hle
    · exact h.made type record hold
    · exact Or.inr (Nat.le_trans h.graph.size hle)
  enums := h'.enums.trans h.enums
  superTypes := h'.superTypes.trans h.superTypes
  dummies key field hfield := h'.dummies _ _ (h.dummies _ _ hfield)
  missing type record hrecord field hfield := by
    rcases h'.missing _ _ (h.records _ _ hrecord) field hfield with hold | hnew
    · rcases h.missing _ _ hrecord field hold with hold' | hnew
      · exact Or.inl hold'
      · refine Or.inr fun name hname => hnew name ?_
        obtain ⟨node, hnode⟩ := Graph.exists_node (sound'.wellFormed.typed.all_fieldsOf.lt_size hold)
        rw [h'.graph.name? (Graph.name?_eq hnode)] at hname
        rw [Graph.name?_eq hnode, hname]
    · exact Or.inr fun name hname => h.memberOf sound (hnew name hname)
  refines D hD := by
    have hrefines := h.refines D hD
    refine hrefines.trans (h'.refines D ⟨hD.done, fun id hid => hD.others id fun htag => ?_,
      hrefines.confined⟩)
    exact hid (h.graph.tag? htag)
  selves hselves := h'.selves (h.selves hselves)
  changes := h.changes.trans h'.changes
  hung := h.hung.trans h'.hung h.graph h'.graph

/-- A usage that is not resolved was what it is. -/
theorem payload?_back (h : Step n done r r') {id : NodeId} {payload : Payload} (hid : id ∉ done)
    (hpayload : r'.graph.payload? id = some payload)
    (hkind : payload.tag = .reference ∨ payload.tag = .memberAccess) :
    r.graph.payload? id = some payload := by
  have hexpression : payload.tag.isExpression = true := by
    rcases hkind with htag | htag <;> rw [htag] <;> rfl
  have htag := h.graph.tag?_back (Graph.tag?_of_payload? hpayload) hexpression
  obtain ⟨node, hnode, heq⟩ := Graph.exists_node_of_tag? htag
  rw [← heq] at hkind
  have hkept := h.usages id _ hid (Graph.payload?_eq hnode) hkind
  rw [Graph.payload?_eq hnode, ← hkept, hpayload]

/-- The parts of nodes stay parts while another usage is resolved. -/
theorem mem_parts (h : Step n done r r') (sound : r.Sound) {w part : NodeId} (hw : w ∉ done)
    (hpart : part ∈ r.graph.parts w) : part ∈ r'.graph.parts w := by
  rcases h.graph.mem_parts hpart with hpart' | ⟨-, hwhole⟩
  · exact hpart'
  · obtain ⟨node, hnode, hmem⟩ := Graph.exists_node_of_mem_parts hpart
    rw [Graph.tag?_eq hnode, Option.some.injEq] at hwhole
    have hkept := h.usages w _ hw (Graph.payload?_eq hnode) (Or.inr hwhole)
    obtain ⟨node', hnode', hpayload'⟩ := Graph.exists_node_of_payload? hkept
    have hfits := sound.wellFormed.typed.nodes w node hnode
    rw [Graph.parts_eq hnode', hpayload', Graph.partsOf_keep hfits h.graph.keeps]
    exact hmem

end Step

end Resolver

end ProgramGraph
