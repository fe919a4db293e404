import ProgramGraph.Proofs.Lookups.Senses
import ProgramGraph.Proofs.Translation.Trees

set_option autoImplicit false

/-!
# Renumbered graphs

The same documents can be built into graphs that differ in nothing but the numbers of the nodes. What is
read in a graph by following links is then read in the other graph under the other numbers: the parts
of a node, the declarations of a scope, the fields of a record, and the place where a node stands.

## Main definitions

* `ProgramGraph.Graph.Renames` — the nodes of a graph have other numbers in another graph.
* `ProgramGraph.Place.rename` — a place under the other numbers.

## Main results

* `ProgramGraph.Graph.Renames.parts` — the parts of a node.
* `ProgramGraph.Graph.Renames.declaredIn` — the declarations of a scope.
* `ProgramGraph.Graph.Renames.fieldsOf`, `ProgramGraph.Graph.Renames.entriesOf` — fields and constants.
* `ProgramGraph.Graph.Renames.stands` — where a node stands.

## Design

The other numbers are given by a function on all numbers, of which only the values at nodes matter. What
a node says apart from its links is its label, so a label and a list of links determine a node of a
raw graph, in which no reference means anything yet.
-/

namespace ProgramGraph

/-- The kind that a shape belongs to. -/
def Shape.tag : Shape → Tag
  | .unit => .unit
  | .record .. => .record
  | .enum _ => .enum
  | .enumConstant => .enumConstant
  | .field _ => .field
  | .var => .var
  | .parameter _ => .parameter
  | .function .. => .function
  | .block => .block
  | .declarationStatement => .declarationStatement
  | .returnStatement => .returnStatement
  | .reference _ => .reference
  | .memberAccess => .memberAccess
  | .call _ => .call
  | .literal _ => .literal

/-- The kind of a node can be read off its label. -/
theorem Node.tag_label (node : Node) : node.label.shape.tag = node.tag := by
  obtain ⟨name, payload⟩ := node
  cases payload <;> rfl

/-- Searching a list of other things with a test that comes to the same. -/
theorem find?_map_of_eq {α β : Type} {f : α → β} {test : α → Bool} {test' : β → Bool} {l : List α}
    (h : ∀ a ∈ l, test' (f a) = test a) : (l.map f).find? test' = (l.find? test).map f := by
  have hfilter : l.filter (test' ∘ f) = l.filter test := List.filter_congr h
  rw [List.find?_map, ← List.head?_filter, ← List.head?_filter, hfilter]

/-- A place in which the scopes have other numbers. -/
def Place.rename (ρ : NodeId → NodeId) (p : Place) : Place := ⟨p.scopes.map ρ, p.types⟩

namespace Graph

/-- What a well-formed node links to as its own are nodes. -/
theorem WellFormed.lt_of_mem_links {g : Graph} (wf : g.WellFormed []) {id part : NodeId} {node : Node}
    (hnode : g.node? id = some node) (hpart : part ∈ node.payload.links) : part < g.size := by
  have hfits := wf.typed.nodes id node hnode
  have hparts : ∀ part ∈ g.partsOf node.payload, part < g.size := by
    rw [← parts_eq hnode]
    exact wf.tree.part_lt id
  generalize node.payload = payload at hfits hpart hparts
  cases payload with
  | memberAccess base member =>
    rcases List.mem_cons.mp hpart with rfl | hpart
    · exact hfits.1.lt_size (List.mem_singleton.mpr rfl)
    · obtain ⟨found, hfound, -⟩ :=
        exists_node_of_name? (hfits.2 part (Option.mem_toList.mp hpart)).1
      exact lt_size hfound
  | _ => exact hparts part hpart

/-- The field that stands for a record is its first one. -/
theorem WellTyped.selfOf_eq_head? {g : Graph} {record : NodeId} (h : g.WellTyped)
    (hrecord : g.tag? record = some .record) : g.selfOf record = (g.fieldsOf record).head? := by
  obtain ⟨body, hbody⟩ := exists_record_of_tag? hrecord
  obtain ⟨node, hnode, hpayload⟩ := exists_node_of_payload? hbody
  have hfits := h.nodes record node hnode
  rw [hpayload] at hfits
  obtain ⟨-, -, -, self, hself, hfirst, -⟩ := hfits
  simp only [selfOf, fieldsOf, hbody, hself, hfirst]

/-- The nodes of a graph have other numbers in another graph. -/
structure Renames (g : Graph) (ρ : NodeId → NodeId) (g' : Graph) : Prop where
  /-- A node says the same and links to the same nodes. -/
  nodes : ∀ id node, g.node? id = some node → ∃ node', g'.node? (ρ id) = some node' ∧
    node'.label = node.label ∧ node'.payload.links = node.payload.links.map ρ
  /-- Units are units. -/
  units : ∀ id ∈ g.units, ρ id ∈ g'.units

namespace Renames

variable {g g' : Graph} {ρ : NodeId → NodeId} {id record : NodeId} {name : String} {p : Place}

/-! ## What a node says -/

section

variable (h : g.Renames ρ g')

include h

/-- Kinds are the same. -/
theorem tag? (hlt : id < g.size) : g'.tag? (ρ id) = g.tag? id := by
  obtain ⟨node, hnode⟩ := exists_node hlt
  obtain ⟨node', hnode', hlabel, -⟩ := h.nodes id node hnode
  rw [tag?_eq hnode, tag?_eq hnode', ← node.tag_label, ← node'.tag_label, hlabel]

/-- Names are the same. -/
theorem name? (hlt : id < g.size) : g'.name? (ρ id) = g.name? id := by
  obtain ⟨node, hnode⟩ := exists_node hlt
  obtain ⟨node', hnode', hlabel, -⟩ := h.nodes id node hnode
  rw [name?_eq hnode, name?_eq hnode']
  exact congrArg (some ∘ Label.name) hlabel

/-- Types are the same. -/
theorem typeOf (hlt : id < g.size) : g'.typeOf (ρ id) = g.typeOf id := by
  obtain ⟨node, hnode⟩ := exists_node hlt
  obtain ⟨node', hnode', hlabel, -⟩ := h.nodes id node hnode
  have htype : node'.belief.map Belief.type = node.belief.map Belief.type := congrArg Label.type hlabel
  simp only [Graph.typeOf, belief?, hnode, hnode', Option.bind_some]
  cases hb : node.belief <;> cases hb' : node'.belief <;> simp_all

/-- Names are found alike. -/
theorem isNamed (hlt : id < g.size) : g'.isNamed name (ρ id) = g.isNamed name id := by
  rw [Graph.isNamed, h.name? hlt, Graph.isNamed]

/-- Names spell the same types. -/
theorem spells (hlt : id < g.size) {tag : Tag} {type : Descriptor} :
    g'.spells tag type (ρ id) = g.spells tag type id := by
  obtain ⟨node, hnode⟩ := exists_node hlt
  obtain ⟨node', hnode', hlabel, -⟩ := h.nodes id node hnode
  have hname : node'.name = node.name := congrArg Label.name hlabel
  have htag : node'.tag = node.tag := by rw [← node.tag_label, ← node'.tag_label, hlabel]
  simp only [Graph.spells, hnode, hnode', Option.any_some, hname, htag]

/-- A payload has the same shape, and its links are renamed. -/
theorem exists_payload {payload : Payload} (hpayload : g.payload? id = some payload) :
    ∃ payload', g'.payload? (ρ id) = some payload' ∧ payload'.shape = payload.shape ∧
      payload'.links = payload.links.map ρ := by
  obtain ⟨node, hnode, rfl⟩ := exists_node_of_payload? hpayload
  obtain ⟨node', hnode', hlabel, hlinks⟩ := h.nodes id node hnode
  exact ⟨node'.payload, payload?_eq hnode', congrArg Label.shape hlabel, hlinks⟩

/-! ## Usages -/

/-- References are references, and static if they are. -/
theorem exists_reference {target : Option NodeId} {isStatic : Bool}
    (hpayload : g.payload? id = some (.reference target isStatic)) :
    ∃ target', g'.payload? (ρ id) = some (.reference target' isStatic) := by
  obtain ⟨payload', hpayload', hshape, -⟩ := h.exists_payload hpayload
  rw [hpayload']
  cases payload' with
  | reference target' _ => exact ⟨target', by rw [Shape.reference.inj hshape]⟩
  | _ => cases hshape

/-- **Member accesses** are member accesses on the same operands. -/
theorem payload?_memberAccess {base : NodeId} {member : Option NodeId}
    (hpayload : g.payload? id = some (.memberAccess base member)) :
    g'.payload? (ρ id) = some (.memberAccess (ρ base) (member.map ρ)) := by
  obtain ⟨payload', hpayload', hshape, hlinks⟩ := h.exists_payload hpayload
  rw [hpayload']
  cases payload' with
  | memberAccess base' member' =>
    obtain ⟨rfl, hmember⟩ := List.cons.inj hlinks
    cases member <;> cases member' <;> simp_all
  | _ => cases hshape

/-- Accesses on references of a type are accesses on references of this type. -/
theorem accesses {type : Descriptor} (haccess : g.Accesses id type name) :
    g'.Accesses (ρ id) type name := by
  obtain ⟨base, member, b, hpayload, hname, htag, hb, htype⟩ := haccess
  obtain ⟨node, hnode, hbelief⟩ := Option.bind_eq_some_iff.mp hb
  obtain ⟨node', hnode', hlabel, -⟩ := h.nodes base node hnode
  have hbelief' : node'.belief.map Belief.type = some b.type := by
    rw [show node'.belief.map Belief.type = node.belief.map Belief.type from congrArg Label.type hlabel,
      hbelief, Option.map_some]
  obtain ⟨b', hb', heq⟩ := Option.map_eq_some_iff.mp hbelief'
  obtain ⟨found, hfound, -⟩ := exists_node_of_payload? hpayload
  exact ⟨ρ base, member.map ρ, b', h.payload?_memberAccess hpayload,
    (h.name? (lt_size hfound)).trans hname, (h.tag? (lt_size hnode)).trans htag,
    Option.bind_eq_some_iff.mpr ⟨node', hnode', hb'⟩, heq ▸ htype⟩

end

/-! ## What a node is made of -/

section

variable (h : g.Renames ρ g') (wf : g.WellFormed [])

include h wf

/-- **The parts of a node.**

**Proof sketch.** Parts are links, but for accesses, where they are those links that lead to expressions.
Links are renamed and kinds stay, so the same links are left out. -/
theorem parts (hlt : id < g.size) : g'.parts (ρ id) = (g.parts id).map ρ := by
  obtain ⟨node, hnode⟩ := exists_node hlt
  obtain ⟨node', hnode', hlabel, hlinks⟩ := h.nodes id node hnode
  have hexpression : ∀ part ∈ node.payload.links,
      (g'.tag? (ρ part)).any Tag.isExpression = (g.tag? part).any Tag.isExpression :=
    fun part hpart => by rw [h.tag? (wf.lt_of_mem_links hnode hpart)]
  have htag : node'.payload.tag = node.payload.tag := by
    rw [← Node.tag, ← Node.tag, ← node.tag_label, ← node'.tag_label, hlabel]
  rw [parts_eq hnode, parts_eq hnode']
  generalize node.payload = payload at hlinks hexpression htag
  generalize node'.payload = payload' at hlinks htag
  cases payload with
  | memberAccess base member =>
    cases payload' with
    | memberAccess base' member' =>
      change (Payload.memberAccess base' member').links.filter (fun id => (g'.tag? id).any Tag.isExpression) =
        ((Payload.memberAccess base member).links.filter fun id =>
          (g.tag? id).any Tag.isExpression).map ρ
      rw [hlinks, List.filter_map]
      exact congrArg (List.map ρ) (List.filter_congr hexpression)
    | _ => cases htag
  | _ =>
    cases payload' with
    | memberAccess _ _ => cases htag
    | _ => exact hlinks

omit wf in
/-- The fields of a record, and its supertypes. -/
theorem exists_record {body : RecordBody} (hbody : g.payload? id = some (.record body)) :
    ∃ body', g'.payload? (ρ id) = some (.record body') ∧ body'.fields = body.fields.map ρ ∧
      body'.superTypes = body.superTypes := by
  obtain ⟨payload', hpayload', hshape, hlinks⟩ := h.exists_payload hbody
  rw [hpayload']
  cases payload' with
  | record body' =>
    obtain ⟨-, hsupers, hfields, -, -⟩ := Shape.record.inj hshape
    -- the fields come first among the links
    have hsplit : body'.fields ++ (body'.methods ++ body'.constructors ++ body'.records) =
        body.fields.map ρ ++ (body.methods ++ body.constructors ++ body.records).map ρ := by
      rw [← List.map_append, ← List.append_assoc, ← List.append_assoc, ← List.append_assoc,
        ← List.append_assoc]
      exact hlinks
    exact ⟨body', rfl, List.append_inj_left hsplit (by rw [List.length_map]; exact hfields), hsupers⟩
  | _ => cases hshape

omit wf in
/-- **The fields of a record.** -/
theorem fieldsOf (hrecord : g.tag? record = some .record) :
    g'.fieldsOf (ρ record) = (g.fieldsOf record).map ρ := by
  obtain ⟨body, hbody⟩ := exists_record_of_tag? hrecord
  obtain ⟨body', hbody', hfields, -⟩ := h.exists_record hbody
  simp only [Graph.fieldsOf, hbody, hbody', hfields]

omit wf in
/-- The supertypes of a record. -/
theorem superTypesOf (hrecord : g.tag? record = some .record) :
    g'.superTypesOf (ρ record) = g.superTypesOf record := by
  obtain ⟨body, hbody⟩ := exists_record_of_tag? hrecord
  obtain ⟨body', hbody', -, hsupers⟩ := h.exists_record hbody
  simp only [Graph.superTypesOf, hbody, hbody', hsupers]

/-- The field that stands for a record. -/
theorem selfOf (wf' : g'.WellFormed []) (hrecord : g.tag? record = some .record) :
    g'.selfOf (ρ record) = (g.selfOf record).map ρ := by
  have hrecord' := (h.tag? (lt_size_of_tag? hrecord)).trans hrecord
  rw [wf.typed.selfOf_eq_head? hrecord, wf'.typed.selfOf_eq_head? hrecord', h.fieldsOf hrecord,
    List.head?_map]

omit wf in
/-- **The constants of an enumeration.** -/
theorem entriesOf {enum : NodeId} (henum : g.tag? enum = some .enum) :
    g'.entriesOf (ρ enum) = (g.entriesOf enum).map ρ := by
  obtain ⟨node, hnode, htag⟩ := exists_node_of_tag? henum
  obtain ⟨node', hnode', hlabel, hlinks⟩ := h.nodes enum node hnode
  have htag' : node'.tag = .enum := by rw [← node'.tag_label, hlabel, node.tag_label, htag]
  simp only [Graph.entriesOf, payload?_eq hnode, payload?_eq hnode']
  rw [Node.tag] at htag htag'
  generalize node.payload = payload at htag hlinks
  generalize node'.payload = payload' at htag' hlinks
  cases payload with
  | enum entries _ =>
    cases payload' with
    | enum entries' _ => exact hlinks
    | _ => cases htag'
  | _ => cases htag

/-- The first field of a name in a record. -/
theorem fieldOf (hrecord : g.tag? record = some .record) :
    g'.fieldOf name (ρ record) = (g.fieldOf name record).map ρ := by
  rw [Graph.fieldOf, h.fieldsOf hrecord]
  exact find?_map_of_eq fun field hfield => h.isNamed (wf.typed.all_fieldsOf.lt_size hfield)

/-! ## Scopes and places -/

/-- Operands of accesses are operands of accesses, and nothing else is. -/
theorem isOperand_iff (tree' : g'.Tree []) (hp : g.Stands p id) (htag : g.tag? id = some .reference) :
    g'.IsOperand (ρ id) ↔ g.IsOperand id := by
  cases hp with
  | unit hunit =>
    have hunit' := wf.typed.units.tag_eq hunit
    rw [htag] at hunit'
    cases hunit'
  | @part _ whole _ _ _ found hpart =>
    have hlt := lt_size found
    have hpart' : ρ id ∈ g'.parts (ρ whole) := by
      rw [h.parts wf hlt]
      exact List.mem_map_of_mem hpart
    constructor
    · rintro ⟨access, haccess, hmem⟩
      obtain rfl := tree'.whole_unique _ _ _ hmem hpart'
      exact ⟨whole, (h.tag? hlt).symm.trans haccess, hpart⟩
    · rintro ⟨access, haccess, hmem⟩
      obtain rfl := wf.tree.whole_unique _ _ _ hmem hpart
      exact ⟨ρ access, (h.tag? hlt).trans haccess, hpart'⟩

/-- What a part of a scope contributes to the scope. -/
theorem offers (hlt : id < g.size) : g'.offers (ρ id) = (g.offers id).map ρ := by
  obtain ⟨node, hnode⟩ := exists_node hlt
  have htag := tag?_eq hnode
  have htag' := (h.tag? hlt).trans htag
  by_cases hvars : node.tag = .declarationStatement
  · simp only [Graph.offers, htag, htag', hvars, h.parts wf hlt]
  · cases hvalue : node.tag.isValueDeclaration with
    | true => rw [offers_of_isValueDeclaration htag hvalue, offers_of_isValueDeclaration htag' hvalue]; rfl
    | false => rw [offers_eq_nil htag hvalue hvars, offers_eq_nil htag' hvalue hvars]; rfl

/-- **The declarations of a scope.** -/
theorem declaredIn (hlt : id < g.size) : g'.declaredIn (ρ id) = (g.declaredIn id).map ρ := by
  rw [Graph.declaredIn, h.parts wf hlt, List.flatMap_map, Graph.declaredIn, List.map_flatMap]
  exact List.flatMap_congr fun part hpart => h.offers wf (wf.tree.part_lt id part hpart)

/-- **Where a node stands.** -/
theorem stands (hp : g.Stands p id) : g'.Stands (p.rename ρ) (ρ id) := by
  induction hp with
  | unit hunit => exact .unit (h.units _ hunit)
  | @part p whole part node above found hpart ih =>
    obtain ⟨node', hnode', hlabel, -⟩ := h.nodes whole node found
    have hname : node'.name = node.name := congrArg Label.name hlabel
    have htag : node'.tag = node.tag := by rw [← node.tag_label, ← node'.tag_label, hlabel]
    have hplace : (p.rename ρ).enter (ρ whole) node' = (p.enter whole node).rename ρ := by
      rw [Place.enter_congr htag hname, Place.enter, Place.enter, Place.rename, Place.rename]
      split <;> rfl
    rw [← hplace]
    refine ih.part hnode' ?_
    rw [h.parts wf (lt_size found)]
    exact List.mem_map_of_mem hpart

end

end Renames

end Graph

end ProgramGraph
