import ProgramGraph.Proofs.Sessions.Precedence
import ProgramGraph.Proofs.Sessions.Retention

set_option autoImplicit false

/-!
# The places of made-up declarations

Made-up declarations are found where one would look for them. There is at most one unit for them, which
declares exactly the made-up records, each once. A made-up field is listed by one record, once, and is
the only field of its name there, be the others made up or not.

## Main definitions

* `ProgramGraph.Outline` — the name, the mark, the kind and the fields of a node.
* `ProgramGraph.Outline.Placed` — made-up declarations in their places.
* `ProgramGraph.Graph.IsPlaced` — the same, said of a graph.

## Main results

* `ProgramGraph.Resolver.Placed.writes` — every write leaves them in their places.
* `ProgramGraph.Graph.History.placed` — in every history they are in their places.
* `ProgramGraph.Graph.after_isPlaced` — and so they are after every session.

## Design

Where things are placed depends on little of a graph, and most writes do not touch it. So the invariant
is stated about outlines, and only the three writes that make something up are looked at closely.
-/

namespace ProgramGraph

/-! ## Outlines -/

/-- What places depend on in a node. -/
structure Outline where
  /-- The name. -/
  name : String
  /-- Whether it was made up. -/
  dummy : Bool
  /-- The kind. -/
  tag : Tag
  /-- The fields of a record; nothing else has any. -/
  fields : List NodeId

/-- The fields that a payload lists. -/
def Payload.fields : Payload → List NodeId
  | .record body => body.fields
  | _ => []

/-- The outline of a node. -/
def Node.outline (node : Node) : Outline := ⟨node.name, node.dummy, node.tag, node.payload.fields⟩

/-- The outline of the node with a number. -/
def Graph.outline? (g : Graph) (id : NodeId) : Option Outline := (g.node? id).map Node.outline

namespace Outline

variable {f f' : NodeId → Option Outline} {home home' : Option NodeId} {n id record : NodeId}
  {name : String}

/-- Made-up declarations in their places; `home` is the unit for them. -/
structure Placed (f : NodeId → Option Outline) (home : Option NodeId) : Prop where
  /-- What records list are fields. -/
  listed : ∀ record o, f record = some o → ∀ field ∈ o.fields, ∃ p, f field = some p ∧ p.tag = .field
  /-- There is no made-up unit but the one for made-up declarations. -/
  unit : ∀ unit o, f unit = some o → o.dummy = true → o.tag = .unit → home = some unit
  /-- Every made-up field is listed. -/
  field : ∀ field o, f field = some o → o.dummy = true → o.tag = .field →
    ∃ record p, f record = some p ∧ field ∈ p.fields
  /-- No other field that is listed with a made-up one has its name. -/
  names : ∀ record o, f record = some o → ∀ field ∈ o.fields, ∀ p, f field = some p → p.dummy = true →
    ∀ other ∈ o.fields, ∀ q, f other = some q → q.name = p.name → other = field

/-- A field of a name is made up in a record. -/
structure AddsField (f f' : NodeId → Option Outline) (n record : NodeId) (name : String) : Prop where
  /-- The field is new, -/
  new : f n = none
  /-- made up, -/
  made : f' n = some ⟨name, true, .field, []⟩
  /-- and put behind the others of the record. -/
  takes : ∃ o, f record = some o ∧ f' record = some { o with fields := o.fields ++ [n] }
  /-- All else stays. -/
  others : ∀ id, id ≠ n → id ≠ record → f' id = f id

namespace AddsField

/-- What was there is not the new field. -/
theorem ne (h : AddsField f f' n record name) {o : Outline} (hid : f id = some o) : id ≠ n := by
  rintro rfl
  cases h.new.symm.trans hid

/-- What was there is there still. -/
theorem forth (h : AddsField f f' n record name) {o : Outline} (hid : f id = some o) :
    ∃ o', f' id = some o' ∧ o'.tag = o.tag ∧ o.fields ⊆ o'.fields := by
  by_cases heq : id = record
  · obtain ⟨p, hp, htakes⟩ := h.takes
    subst heq
    obtain rfl := Option.some.inj (hp.symm.trans hid)
    exact ⟨_, htakes, rfl, List.subset_append_left ..⟩
  · exact ⟨o, (h.others id (h.ne hid) heq).trans hid, rfl, List.Subset.refl _⟩

/-- A node that was there is what it was, but for the new field. -/
theorem back (h : AddsField f f' n record name) {o' : Outline} (hid : id ≠ n) (ho' : f' id = some o') :
    ∃ o, f id = some o ∧ o'.name = o.name ∧ o'.dummy = o.dummy ∧ o'.tag = o.tag ∧
      ∀ field ∈ o'.fields, field ∈ o.fields ∨ id = record ∧ field = n := by
  by_cases heq : id = record
  · obtain ⟨o, ho, htakes⟩ := h.takes
    subst heq
    obtain rfl := Option.some.inj (htakes.symm.trans ho')
    exact ⟨o, ho, rfl, rfl, rfl, fun field hfield => (List.mem_append.mp hfield).imp_right
      fun hlast => ⟨rfl, List.mem_singleton.mp hlast⟩⟩
  · exact ⟨o', (h.others id hid heq).symm.trans ho', rfl, rfl, rfl, fun _ => Or.inl⟩

/-- What a record lists it listed before, but for the new field. -/
theorem lists (h : AddsField f f' n record name) {o' : Outline} (ho' : f' id = some o') {field : NodeId}
    (hfield : field ∈ o'.fields) : ∃ o, f id = some o ∧ (field ∈ o.fields ∨ id = record ∧ field = n) := by
  by_cases heq : id = n
  · subst heq
    obtain rfl := Option.some.inj (h.made.symm.trans ho')
    cases hfield
  · obtain ⟨o, ho, -, -, -, hback⟩ := h.back heq ho'
    exact ⟨o, ho, hback field hfield⟩

end AddsField

namespace Placed

/-- **Nodes are added** and the others stay. What a new node lists is new, and if a made-up field is among
it, it is all there is; new fields that are made up are listed by new nodes.

**Proof sketch.** Each condition for a node that was there is the old one, for a new node it is a hypothesis.
-/
theorem extend (h : Placed f home) (hold : ∀ id o, f id = some o → f' id = some o)
    (hhome : ∀ unit, home = some unit → home' = some unit)
    (listed : ∀ record o, f record = none → f' record = some o →
      ∀ field ∈ o.fields, ∃ p, f' field = some p ∧ p.tag = .field ∧ (p.dummy = true → o.fields = [field]))
    (unit : ∀ unit o, f unit = none → f' unit = some o → o.dummy = true → o.tag = .unit →
      home' = some unit)
    (field : ∀ field o, f field = none → f' field = some o → o.dummy = true → o.tag = .field →
      ∃ record p, f' record = some p ∧ field ∈ p.fields) : Placed f' home' where
  listed record o hrecord id hid := by
    cases hbefore : f record with
    | none =>
      obtain ⟨p, hp, htag, -⟩ := listed record o hbefore hrecord id hid
      exact ⟨p, hp, htag⟩
    | some o =>
      obtain rfl := Option.some.inj ((hold _ _ hbefore).symm.trans hrecord)
      obtain ⟨p, hp, htag⟩ := h.listed record _ hbefore id hid
      exact ⟨p, hold _ _ hp, htag⟩
  unit id o hid hdummy htag := by
    cases hbefore : f id with
    | none => exact unit id o hbefore hid hdummy htag
    | some o =>
      obtain rfl := Option.some.inj ((hold _ _ hbefore).symm.trans hid)
      exact hhome id (h.unit id _ hbefore hdummy htag)
  field id o hid hdummy htag := by
    cases hbefore : f id with
    | none => exact field id o hbefore hid hdummy htag
    | some o =>
      obtain rfl := Option.some.inj ((hold _ _ hbefore).symm.trans hid)
      obtain ⟨record, p, hp, hmem⟩ := h.field id _ hbefore hdummy htag
      exact ⟨record, p, hold _ _ hp, hmem⟩
  names record o hrecord id hid p hp hdummy other hother q hq hname := by
    cases hbefore : f record with
    | none =>
      obtain ⟨p', hp', -, hall⟩ := listed record o hbefore hrecord id hid
      obtain rfl := Option.some.inj (hp'.symm.trans hp)
      exact List.mem_singleton.mp (hall hdummy ▸ hother)
    | some o =>
      obtain rfl := Option.some.inj ((hold _ _ hbefore).symm.trans hrecord)
      obtain ⟨p', hp', -⟩ := h.listed record _ hbefore id hid
      obtain ⟨q', hq', -⟩ := h.listed record _ hbefore other hother
      obtain rfl := Option.some.inj ((hold _ _ hp').symm.trans hp)
      obtain rfl := Option.some.inj ((hold _ _ hq').symm.trans hq)
      exact h.names record _ hbefore id hid _ hp' hdummy other hother _ hq' hname

/-- **A field is made up** in a record that has none of its name.

**Proof sketch.** The outlines before and after differ at the record and at the new number. A field that is
listed is an old one or the new one, so two fields of one name in a record are both old, or the same, or else
the name would have been there before. -/
theorem addField (h : Placed f home) (hadds : AddsField f f' n record name)
    (hnames : ∀ o, f record = some o → ∀ field ∈ o.fields, ∀ p, f field = some p → p.name ≠ name) :
    Placed f' home where
  listed whole o' hwhole field hfield := by
    obtain ⟨o, ho, hold | ⟨-, rfl⟩⟩ := hadds.lists hwhole hfield
    · obtain ⟨p, hp, htag⟩ := h.listed whole o ho field hold
      obtain ⟨p', hp', htag', -⟩ := hadds.forth hp
      exact ⟨p', hp', htag'.trans htag⟩
    · exact ⟨_, hadds.made, rfl⟩
  unit unit o' hunit hdummy htag := by
    by_cases heq : unit = n
    · subst heq
      obtain rfl := Option.some.inj (hadds.made.symm.trans hunit)
      cases htag
    · obtain ⟨o, ho, -, hdummy', htag', -⟩ := hadds.back heq hunit
      exact h.unit unit o ho (hdummy' ▸ hdummy) (htag' ▸ htag)
  field field o' hfield hdummy htag := by
    by_cases heq : field = n
    · subst heq
      obtain ⟨o, -, htakes⟩ := hadds.takes
      exact ⟨record, _, htakes, List.mem_append_right _ (List.mem_singleton.mpr rfl)⟩
    · obtain ⟨o, ho, -, hdummy', htag', -⟩ := hadds.back heq hfield
      obtain ⟨whole, p, hp, hmem⟩ := h.field field o ho (hdummy' ▸ hdummy) (htag' ▸ htag)
      obtain ⟨p', hp', -, hsubset⟩ := hadds.forth hp
      exact ⟨whole, p', hp', hsubset hmem⟩
  names whole o' hwhole field hfield p' hp' hdummy other hother q' hq' hname := by
    -- the new field has a name of its own
    have hown : ∀ {o}, f whole = some o → whole = record → ∀ {id p}, id ∈ o.fields → f' id = some p →
        p.name ≠ name := by
      rintro o ho rfl id p hid hp
      obtain ⟨old, hold, -⟩ := h.listed whole o ho id hid
      obtain ⟨found, hfound, hsame, -⟩ := hadds.back (hadds.ne hold) hp
      exact hsame ▸ hnames o ho id hid found hfound
    have hmade : ∀ {p}, f' n = some p → p.name = name := by
      intro p hp
      rw [← Option.some.inj (hadds.made.symm.trans hp)]
    obtain ⟨o, ho, hfield⟩ := hadds.lists hwhole hfield
    obtain ⟨o₂, ho₂, hother⟩ := hadds.lists hwhole hother
    obtain rfl := Option.some.inj (ho.symm.trans ho₂)
    rcases hfield with hfield | ⟨hrecord, rfl⟩ <;> rcases hother with hother | ⟨hrecord', hlast⟩
    · obtain ⟨_, hold, -⟩ := h.listed whole o ho field hfield
      obtain ⟨_, hold', -⟩ := h.listed whole o ho other hother
      obtain ⟨p, hp, hname₁, hdummy₁, -⟩ := hadds.back (hadds.ne hold) hp'
      obtain ⟨q, hq, hname₂, -⟩ := hadds.back (hadds.ne hold') hq'
      exact h.names whole o ho field hfield p hp (hdummy₁ ▸ hdummy) other hother q hq
        (hname₂ ▸ hname₁ ▸ hname)
    · subst hlast
      exact absurd (hname.symm.trans (hmade hq')) (hown ho hrecord' hfield hp')
    · exact absurd (hname.trans (hmade hp')) (hown ho hrecord hother hq')
    · exact hlast

end Placed

end Outline

/-! ## Writes -/

namespace Graph

variable {g g' : Graph} {past : List Graph} {id : NodeId}

/-- The outline of a node that was added. -/
theorem Adds.outline?_self {node : Node} (h : g.Adds g' node) : g'.outline? g.size = some node.outline :=
  congrArg (Option.map Node.outline) h.found

/-- The outlines of the others. -/
theorem Adds.outline?_of_ne {node : Node} (h : g.Adds g' node) (hid : id ≠ g.size) :
    g'.outline? id = g.outline? id := by
  rw [outline?, h.nodes, if_neg hid, outline?]

/-- There is no outline where there is no node. -/
theorem outline?_eq_none (h : g.size ≤ id) : g.outline? id = none := by
  rw [outline?, node?_eq_none h]
  rfl

/-- What has an outline is there. -/
theorem ne_size_of_outline? {o : Outline} (h : g.outline? id = some o) : id ≠ g.size := by
  rintro rfl
  rw [outline?_eq_none (Nat.le_refl _)] at h
  cases h

/-- Beliefs are no part of outlines. -/
theorem SameSource.outline? (h : g.SameSource g') (id : NodeId) : g'.outline? id = g.outline? id := by
  have hsource : ∀ o : Option Node, o.map Node.outline = (o.map Node.source).map Node.outline := by
    intro o
    rw [Option.map_map]
    rfl
  rw [Graph.outline?, hsource, h.nodes, ← hsource, Graph.outline?]

/-- A change of payloads that keeps kinds and fields. -/
theorem outline?_modifyPayload (g : Graph) (whole : NodeId) {f : Payload → Payload}
    (htag : ∀ payload, (f payload).tag = payload.tag)
    (hfields : ∀ payload, (f payload).fields = payload.fields) (id : NodeId) :
    (g.modifyPayload whole f).outline? id = g.outline? id := by
  unfold modifyPayload outline?
  rw [node?_modify]
  split
  · rw [Option.map_map]
    congr 1
    funext node
    simp only [Function.comp, Node.outline, Node.tag, htag, hfields]
  · rfl

/-- A node that was added with a first observation. -/
theorem outline?_addTyped (g : Graph) (node : Node) (o : Observation) (id : NodeId) :
    (g.addTyped node o).2.outline? id = if id = g.size then some node.outline else g.outline? id := by
  rw [(g.sameSource_addTyped node o).outline?]
  split
  · next heq => rw [heq, (g.adds_add node).outline?_self]
  · next hne => exact (g.adds_add node).outline?_of_ne hne

/-- A field that was put behind the others of a record. -/
theorem outline?_appendField {record : NodeId} (field : NodeId) {o : Outline}
    (h : g.outline? record = some o) (htag : o.tag = .record) :
    (g.appendField record field).outline? record = some { o with fields := o.fields ++ [field] } ∧
      ∀ id, id ≠ record → (g.appendField record field).outline? id = g.outline? id := by
  obtain ⟨node, hnode, rfl⟩ := Option.map_eq_some_iff.mp h
  refine ⟨?_, fun id hid => ?_⟩
  · rw [appendField, outline?, node?_modifyPayload_self hnode]
    cases hpayload : node.payload with
    | record body => simp [Node.outline, Node.tag, hpayload, Payload.tag, Payload.fields]
    | _ => simp [Node.outline, Node.tag, hpayload, Payload.tag] at htag
  · rw [appendField, outline?, node?_modifyPayload_of_ne hid, outline?]

end Graph

namespace Resolver

variable {r r' : Resolver} {vs : List Verdict}

/-- What was made up is in its place in the graph of a resolution. -/
abbrev Placed (r : Resolver) : Prop := Outline.Placed r.graph.outline? r.graph.placeholderUnit?

/-- The unit for made-up declarations is made.

**Proof sketch.** The new unit is the only node without an outline before. It is the unit for made-up
declarations from then on, and there is nothing in it yet. -/
theorem Placed.unit (h : r.Placed) (hnone : r.graph.placeholderUnit? = none)
    (hmade : r.graph.placeholderUnit.2.placeholderUnit? = some r.graph.size) :
    Outline.Placed r.graph.placeholderUnit.2.outline? r.graph.placeholderUnit.2.placeholderUnit? := by
  obtain ⟨-, hadds, -⟩ := Graph.placeholderUnit_of_none hnone
  have hnew : ∀ id o, r.graph.outline? id = none → r.graph.placeholderUnit.2.outline? id = some o →
      id = r.graph.size ∧ o = Graph.newPlaceholderUnit.outline := by
    intro id o hbefore hid
    by_cases heq : id = r.graph.size
    · subst heq
      exact ⟨rfl, Option.some.inj (hid.symm.trans hadds.outline?_self)⟩
    · rw [hadds.outline?_of_ne heq, hbefore] at hid
      cases hid
  refine h.extend (fun id o hid => ?_) (fun unit hunit => ?_) (fun record o hbefore hrecord field hfield => ?_)
    (fun unit o hbefore hunit _ _ => ?_) fun field o hbefore hfield _ htag => ?_
  · rw [hadds.outline?_of_ne (Graph.ne_size_of_outline? hid), hid]
  · cases hnone.symm.trans hunit
  · obtain ⟨-, rfl⟩ := hnew record o hbefore hrecord
    cases hfield
  · obtain ⟨rfl, -⟩ := hnew unit o hbefore hunit
    exact hmade
  · obtain ⟨-, rfl⟩ := hnew field o hbefore hfield
    cases htag

/-- A record is made up, with the field that stands for it.

**Proof sketch.** There are two new outlines, the record with its only field and the field, and all others
stay: hanging the record up in the unit changes no outline. So this is a case of adding nodes
(`Outline.Placed.extend`). -/
theorem Placed.record (h : r.Placed) (name : String) {unit : NodeId} {home : Option NodeId}
    (hhome : ∀ unit, r.graph.placeholderUnit? = some unit → home = some unit) :
    Outline.Placed ((r.graph.addRecord name "unknown" [] true).2.appendDeclaration unit
      (r.graph.size + 1)).outline? home := by
  have hadds := Graph.adds_addRecord name "unknown" [] true r.graph
  have hsize := Graph.size_addTyped r.graph (.selfField true) { type := .parse name }
  have happend : ∀ id, ((r.graph.addRecord name "unknown" [] true).2.appendDeclaration unit
      (r.graph.size + 1)).outline? id = (r.graph.addRecord name "unknown" [] true).2.outline? id :=
    Graph.outline?_modifyPayload _ unit (fun payload => by cases payload <;> rfl)
      fun payload => by cases payload <;> rfl
  generalize ((r.graph.addRecord name "unknown" [] true).2.appendDeclaration unit
    (r.graph.size + 1)) = g' at happend
  have hrecord : g'.outline? (r.graph.size + 1) = some ⟨name, true, .record, [r.graph.size]⟩ := by
    rw [happend, ← hsize, hadds.outline?_self]
    rfl
  have hothers : ∀ {id}, id ≠ r.graph.size + 1 → g'.outline? id =
      if id = r.graph.size then some (Node.selfField true).outline else r.graph.outline? id := by
    intro id hid
    rw [happend, hadds.outline?_of_ne (hsize ▸ hid), Graph.outline?_addTyped]
  have hself : g'.outline? r.graph.size = some (Node.selfField true).outline :=
    (hothers (Nat.ne_of_lt (Nat.lt_succ_self _))).trans (if_pos rfl)
  have hnew : ∀ id o, r.graph.outline? id = none → g'.outline? id = some o →
      id = r.graph.size + 1 ∧ o = ⟨name, true, .record, [r.graph.size]⟩ ∨
        id = r.graph.size ∧ o = (Node.selfField true).outline := by
    intro id o hbefore hid
    by_cases hlast : id = r.graph.size + 1
    · subst hlast
      exact Or.inl ⟨rfl, Option.some.inj (hid.symm.trans hrecord)⟩
    · rw [hothers hlast] at hid
      split at hid
      · next heq => exact Or.inr ⟨heq, (Option.some.inj hid).symm⟩
      · cases hbefore.symm.trans hid
  refine h.extend (fun id o hid => ?_) hhome (fun whole o hbefore hwhole field hfield => ?_)
    (fun other o hbefore hother _ htag => ?_) fun field o hbefore hfield _ _ => ?_
  · have hlt : id < r.graph.size := by
      obtain ⟨node, hnode, -⟩ := Option.map_eq_some_iff.mp hid
      exact Graph.lt_size hnode
    rw [hothers (Nat.ne_of_lt (Nat.lt_succ_of_lt hlt)), if_neg (Nat.ne_of_lt hlt), hid]
  · rcases hnew whole o hbefore hwhole with ⟨rfl, rfl⟩ | ⟨rfl, rfl⟩
    · obtain rfl := List.mem_singleton.mp hfield
      exact ⟨_, hself, rfl, fun _ => rfl⟩
    · cases hfield
  · rcases hnew other o hbefore hother with ⟨rfl, rfl⟩ | ⟨rfl, rfl⟩ <;> cases htag
  · rcases hnew field o hbefore hfield with ⟨rfl, rfl⟩ | ⟨rfl, rfl⟩
    · contradiction
    · exact ⟨_, _, hrecord, List.mem_singleton.mpr rfl⟩

/-- A field is made up in a record where none has its name.

**Proof sketch.** No field of the record has the name, as none was found under it. The outline of the graph
gets the new field, which is then listed in the record, and nothing else changes. So the general case of a
field that is added applies. -/
theorem Placed.field (h : r.Placed) {record : NodeId} {name : String} {home : Option NodeId}
    (hhome : home = r.graph.placeholderUnit?) (htag : r.graph.tag? record = some .record)
    (hnone : r.graph.fieldNamed record name = .ok none) (o : Observation) :
    Outline.Placed ((r.graph.addTyped (Graph.madeUpField name) o).2.appendField record
      r.graph.size).outline? home := by
  obtain ⟨body, hbody⟩ := Graph.exists_record_of_tag? htag
  obtain ⟨node, hnode, hpayload⟩ := Graph.exists_node_of_payload? hbody
  have hrecord : r.graph.outline? record = some node.outline := congrArg (Option.map Node.outline) hnode
  have hfields : node.outline.fields = r.graph.fieldsOf record := by
    simp only [Node.outline, hpayload, Payload.fields, Graph.fieldsOf, hbody]
  have hnames : ∀ field ∈ node.outline.fields, ∀ p, r.graph.outline? field = some p → p.name ≠ name := by
    intro field hfield p hp hname
    have hread : r.graph.firstNamed name (r.graph.fieldsOf record) =
        .ok ((r.graph.fieldsOf record).find? (r.graph.isNamed name)) :=
      Graph.firstNamed_eq fun other hother => by
        obtain ⟨q, hq, -⟩ := h.listed record _ hrecord other (hfields ▸ hother)
        obtain ⟨found, hfound, -⟩ := Option.map_eq_some_iff.mp hq
        exact Graph.lt_size hfound
    rw [Graph.fieldNamed, Graph.fields_eq hnode] at hnone
    have hmissing := Except.ok.inj (hread.symm.trans hnone)
    obtain ⟨found, hfound, rfl⟩ := Option.map_eq_some_iff.mp hp
    refine List.find?_eq_none.mp hmissing field (hfields ▸ hfield) (Graph.isNamed_iff.mpr ?_)
    exact (Graph.name?_eq hfound).trans (congrArg some hname)
  have hne : record ≠ r.graph.size := Nat.ne_of_lt (Graph.lt_size hnode)
  have hadded : ∀ id, (r.graph.addTyped (Graph.madeUpField name) o).2.outline? id =
      if id = r.graph.size then some ⟨name, true, .field, []⟩ else r.graph.outline? id :=
    r.graph.outline?_addTyped (Graph.madeUpField name) o
  obtain ⟨htakes, hothers⟩ := Graph.outline?_appendField r.graph.size
    ((hadded record).trans ((if_neg hne).trans hrecord))
    (by simp [Node.outline, Node.tag, hpayload, Payload.tag])
  have hadds : Outline.AddsField r.graph.outline? ((r.graph.addTyped (Graph.madeUpField name) o).2.appendField
      record r.graph.size).outline? r.graph.size record name := by
    refine ⟨Graph.outline?_eq_none (Nat.le_refl _), ?_, ⟨_, hrecord, htakes⟩, fun id hid hother => ?_⟩
    · rw [hothers _ hne.symm, hadded, if_pos rfl]
    · rw [hothers id hother, hadded, if_neg hid]
  rw [hhome]
  exact h.addField hadds fun o ho => Option.some.inj (hrecord.symm.trans ho) ▸ hnames

/-- **Every write** leaves what was made up in its place, and puts what it makes up there.

**Proof sketch.** Most writes leave all outlines alone. The others make the unit for made-up declarations, a
record or a field, each by its own lemma. -/
theorem Placed.writes (h : r.Placed) (ha : r.Anchored) (hwrites : r.Writes r') : r'.Placed := by
  obtain ⟨hretains, -⟩ := ha.writes (Nat.zero_le _) hwrites
  have hhome : ∀ unit, r.graph.placeholderUnit? = some unit → r'.graph.placeholderUnit? = some unit :=
    fun unit => hretains.placeholderUnit?
  -- most writes leave all outlines alone
  have hsame : (∀ id, r'.graph.outline? id = r.graph.outline? id) → r'.Placed := by
    intro hall
    have hnone : ∀ {id o}, r.graph.outline? id = none → r'.graph.outline? id ≠ some o := by
      intro id o hbefore hafter
      rw [hall, hbefore] at hafter
      cases hafter
    exact h.extend (fun id o hid => (hall id).trans hid) hhome
      (fun _ _ hbefore hafter => absurd hafter (hnone hbefore))
      (fun _ _ hbefore hafter => absurd hafter (hnone hbefore))
      fun _ _ hbefore hafter => absurd hafter (hnone hbefore)
  cases hwrites with
  | beliefs hsource => exact hsame hsource.outline?
  | remember => exact h
  | target reference =>
    exact hsame (Graph.outline?_modifyPayload _ reference (fun payload => by cases payload <;> rfl)
      fun payload => by cases payload <;> rfl)
  | access access =>
    exact hsame (Graph.outline?_modifyPayload _ access (fun payload => by cases payload <;> rfl)
      fun payload => by cases payload <;> rfl)
  | unit =>
    cases hunit : r.graph.placeholderUnit? with
    | some unit =>
      refine hsame fun id => ?_
      rw [Graph.placeholderUnit_of_some hunit]
    | none =>
      have hmade := (Graph.Retains.of_placeholderUnit ha.units_lt (Nat.le_refl _)).2
      rw [(Graph.placeholderUnit_of_none hunit).1] at hmade
      exact h.unit hunit hmade
  | @record unit type hunit =>
    rw [makeRecord_eq hunit] at hhome ⊢
    exact h.record type.name hhome
  | @field type record name hrecord hnone o =>
    have hunits : (r.makeField record name o).2.graph.placeholderUnit? = r.graph.placeholderUnit? :=
      hretains.placeholderUnit?_eq (r.graph.units_addTyped (Graph.madeUpField name) o)
    exact h.field hunits (ha.records type record hrecord) hnone o

/-- **Whatever is done** leaves what is made up in its place. -/
theorem Placed.does (h : r.Placed) (ha : r.Anchored) (hdoes : r.Does vs r') : r'.Placed := by
  induction hdoes with
  | refl => exact h
  | write before now ih => exact ih.writes (ha.does (Nat.zero_le _) before).2 now
  | judge _ _ ih => exact ih

end Resolver

/-! ## Histories -/

namespace Graph

variable {g g' : Graph} {past : List Graph} {unit record field other : NodeId}

/-- The outline of something made up. -/
theorem exists_outline_of_isMadeUp {tag : Tag} (hmade : g.IsMadeUp record)
    (htag : g.tag? record = some tag) :
    ∃ o, g.outline? record = some o ∧ o.dummy = true ∧ o.tag = tag := by
  obtain ⟨node, hnode, hdummy⟩ := hmade
  exact ⟨node.outline, congrArg (Option.map Node.outline) hnode, hdummy,
    Option.some.inj ((tag?_eq hnode).symm.trans htag)⟩

/-- The fields of a record can be read off its outline. -/
theorem fields_outline {o : Outline} (h : g.outline? record = some o) : o.fields = g.fieldsOf record := by
  obtain ⟨node, hnode, rfl⟩ := Option.map_eq_some_iff.mp h
  rw [fieldsOf, payload?_eq hnode]
  change node.payload.fields = _
  cases node.payload <;> rfl

/-- What was there before a document is built has the same outline afterwards. -/
theorem BuildsOn.outline? (h : g.BuildsOn g' []) {o : Outline} (ho : g.outline? record = some o) :
    g'.outline? record = some o := by
  obtain ⟨node, hnode, -⟩ := Option.map_eq_some_iff.mp ho
  rw [Graph.outline?, h.below record (lt_size hnode), ← Graph.outline?, ho]

/-- A document leaves the unit for made-up declarations where it is. -/
theorem BuildsOn.placeholderUnit? (h : g.BuildsOn g' []) (wf : g.WellFormed [])
    (hunit : g.placeholderUnit? = some unit) : g'.placeholderUnit? = some unit := by
  obtain ⟨new, hunits, -⟩ := h.units
  have hsame : ∀ id ∈ g.units, (g'.node? id).any Node.isPlaceholderUnit =
      (g.node? id).any Node.isPlaceholderUnit := by
    intro id hid
    rw [h.below id (wf.tree.root_lt id (List.mem_append_left _ hid))]
  rw [Graph.placeholderUnit?, ← List.head?_filter] at hunit
  rw [Graph.placeholderUnit?, ← List.head?_filter, hunits, List.filter_append, List.filter_congr hsame,
    List.head?_append, hunit, Option.some_or]

/-- **A document** has nothing made up, and leaves what is made up in its place.

**Proof sketch.** Whatever is built is real, and below it nothing changes. So what is made up is what was made
up before. -/
theorem BuildsOn.placed (h : g.BuildsOn g' []) (wf : g.WellFormed [])
    (hplaced : Outline.Placed g.outline? g.placeholderUnit?) :
    Outline.Placed g'.outline? g'.placeholderUnit? := by
  have hreal : ∀ {id o}, g.size ≤ id → g'.outline? id = some o → o.dummy = false := by
    intro id o hge ho
    obtain ⟨node, hnode, rfl⟩ := Option.map_eq_some_iff.mp ho
    exact h.raw.dummy id node hge hnode
  have hnew : ∀ {id}, g.outline? id = none → g.size ≤ id := by
    intro id hnone
    by_contra hlt
    obtain ⟨node, hnode⟩ := exists_node (Nat.not_le.mp hlt)
    rw [Graph.outline?, hnode] at hnone
    cases hnone
  refine hplaced.extend (fun id o => h.outline?) (fun unit => h.placeholderUnit? wf)
    (fun record o hbefore hrecord field hfield => ?_)
    (fun unit o hbefore hunit hdummy _ => ?_) fun field o hbefore hfield hdummy _ => ?_
  · rw [fields_outline hrecord] at hfield
    have htag := h.wellFormed.typed.all_fieldsOf.tag_eq hfield
    obtain ⟨node, hnode, htag⟩ := exists_node_of_tag? htag
    have hle := h.part_le record (hnew hbefore) field (mem_parts_of_mem_fieldsOf hfield)
    refine ⟨node.outline, congrArg (Option.map Node.outline) hnode, htag, fun hdummy => ?_⟩
    exact absurd ((h.raw.dummy field node hle hnode).symm.trans hdummy) (by decide)
  · exact absurd ((hreal (hnew hbefore) hunit).symm.trans hdummy) (by decide)
  · exact absurd ((hreal (hnew hbefore) hfield).symm.trans hdummy) (by decide)

/-- **In every history** what is made up is in its place. -/
theorem History.placed (h : History (g :: past)) : Outline.Placed g.outline? g.placeholderUnit? := by
  apply h.invariant (P := fun g => Outline.Placed g.outline? g.placeholderUnit?)
  · have hnone : ∀ {id o}, ({} : Graph).outline? id ≠ some o := fun h => by cases h
    exact ⟨fun _ _ h => absurd h hnone, fun _ _ h => absurd h hnone, fun _ _ h => absurd h hnone,
      fun _ _ h => absurd h hnone⟩
  · intro g g' orderly hg hnext
    have wf := orderly.wellFormed
    cases hnext with
    | parse d path => exact (d.build_ok path (.refl wf)).placed wf hg
    | resolve hresolve =>
      obtain ⟨r, t₀, index, V₀, V, rfl, run⟩ := exists_run wf hresolve
      obtain ⟨vs, hdoes⟩ := run.runs.does
      exact Resolver.Placed.does (r := ⟨_, index⟩) hg run.anchored hdoes

/-! ## Sessions -/

/-- The declarations of a unit; nothing else has any. -/
def declarationsOf (g : Graph) (unit : NodeId) : List NodeId :=
  match g.payload? unit with
  | some (.unit declarations) => declarations
  | _ => []

/-- The declarations of a unit are its parts. -/
theorem parts_of_unit (h : g.tag? unit = some .unit) : g.parts unit = g.declarationsOf unit := by
  obtain ⟨node, hnode, htag⟩ := exists_node_of_tag? h
  rw [parts_eq hnode, declarationsOf, payload?_eq hnode]
  cases hpayload : node.payload with
  | unit declarations => rfl
  | _ => simp [Node.tag, hpayload, Payload.tag] at htag

/-- Only units have declarations. -/
theorem tag?_of_mem_declarationsOf (h : record ∈ g.declarationsOf unit) : g.tag? unit = some .unit := by
  unfold declarationsOf at h
  split at h
  · next hpayload => exact tag?_of_payload? hpayload
  · exact absurd h List.not_mem_nil

/-- **Made-up declarations are in their places.** -/
structure IsPlaced (g : Graph) : Prop where
  /-- At most one unit is made up. -/
  unit : ∀ unit other, g.IsMadeUpUnit unit → g.IsMadeUpUnit other → unit = other
  /-- A record is made up if and only if a made-up unit declares it. -/
  record : ∀ record, g.tag? record = some .record →
    (g.IsMadeUp record ↔ ∃ unit, g.IsMadeUpUnit unit ∧ record ∈ g.declarationsOf unit)
  /-- A unit declares nothing twice. -/
  once : ∀ unit declared, declared ∈ g.declarationsOf unit → (g.declarationsOf unit).count declared = 1
  /-- A made-up field is listed by one record only, -/
  field : ∀ field, g.tag? field = some .field → g.IsMadeUp field → ∃! record, field ∈ g.fieldsOf record
  /-- only once, and is the only field of its name there. -/
  alone : ∀ record field, field ∈ g.fieldsOf record → g.IsMadeUp field →
    (g.fieldsOf record).count field = 1 ∧
      ∀ other ∈ g.fieldsOf record, g.name? other = g.name? field → other = field

/-- What is made up in a settled graph is in its place.

**Proof sketch.** A made-up record stands somewhere, as it is no reference, and what it stands in is a made-up
unit (`Segregated.record`); conversely what a made-up unit declares is made up. That a list holds a node once
is the tree's; that no other field has the name is what `Placed.names` says. -/
theorem Settled.isPlaced {D : NodeId → Prop} (h : g.Settled D) (segregated : g.Segregated)
    (placed : Outline.Placed g.outline? g.placeholderUnit?) : g.IsPlaced where
  unit unit other hunit hother := by
    have hhome : ∀ {id}, g.IsMadeUpUnit id → g.placeholderUnit? = some id := by
      rintro id ⟨node, hnode, htag, hdummy⟩
      exact placed.unit id node.outline (congrArg (Option.map Node.outline) hnode) hdummy htag
    exact Option.some.inj ((hhome hunit).symm.trans (hhome hother))
  record record htag := by
    have hunitTag : ∀ {unit}, g.IsMadeUpUnit unit → g.tag? unit = some .unit :=
      fun ⟨_, hnode, hunit, _⟩ => (tag?_eq hnode).trans (congrArg some hunit)
    refine ⟨fun hmade => ?_, fun ⟨unit, hunit, hmem⟩ => ?_⟩
    · -- a record is no reference, so it stands somewhere
      obtain ⟨p, hp⟩ := (h.stands record (lt_size_of_tag? htag)).resolve_right fun haside =>
        absurd ((h.reference record haside).symm.trans htag) (by decide)
      cases hp with
      | unit hunit =>
        exact absurd ((h.wellFormed.typed.units.tag_eq hunit).symm.trans htag) (by decide)
      | @part _ whole _ _ _ _ hpart =>
        have hwhole := segregated.record whole record hpart htag hmade
        exact ⟨whole, hwhole, parts_of_unit (hunitTag hwhole) ▸ hpart⟩
    · obtain ⟨node, hnode, -, hdummy⟩ := hunit
      exact segregated.part unit record (parts_of_unit (tag?_of_mem_declarationsOf hmem) ▸ hmem)
        ⟨node, hnode, hdummy⟩
  once unit declared hmem := by
    have hnodup := h.wellFormed.tree.parts_nodup unit
    rw [parts_of_unit (tag?_of_mem_declarationsOf hmem)] at hnodup
    exact List.count_eq_one_of_mem hnodup hmem
  field field htag hmade := by
    obtain ⟨o, ho, hdummy, hfield⟩ := exists_outline_of_isMadeUp hmade htag
    obtain ⟨record, p, hp, hmem⟩ := placed.field field o ho hdummy hfield
    rw [fields_outline hp] at hmem
    exact ⟨record, hmem, fun other hother => h.wellFormed.tree.whole_unique field other record
      (mem_parts_of_mem_fieldsOf hother) (mem_parts_of_mem_fieldsOf hmem)⟩
  alone record field hmem hmade := by
    have typed := h.wellFormed.typed
    obtain ⟨body, hbody⟩ := exists_record_of_tag? (tag?_of_mem_fieldsOf hmem)
    obtain ⟨node, hnode, hpayload⟩ := exists_node_of_payload? hbody
    have hrecord : g.outline? record = some node.outline := congrArg (Option.map Node.outline) hnode
    refine ⟨List.count_eq_one_of_mem ?_ hmem, fun other hother hname => ?_⟩
    · have hnodup := h.wellFormed.tree.parts_nodup record
      rw [parts_eq hnode, hpayload] at hnodup
      rw [fieldsOf, hbody]
      exact hnodup.of_append_left.of_append_left.of_append_left
    · obtain ⟨o, ho, hdummy, -⟩ := exists_outline_of_isMadeUp hmade (typed.all_fieldsOf.tag_eq hmem)
      obtain ⟨found, hfound, -⟩ := exists_node_of_tag? (typed.all_fieldsOf.tag_eq hother)
      obtain ⟨field', hfield', rfl⟩ := Option.map_eq_some_iff.mp ho
      rw [name?_eq hfound, name?_eq hfield', Option.some.injEq] at hname
      rw [← fields_outline hrecord] at hmem hother
      exact placed.names record _ hrecord field hmem _ ho hdummy other hother found.outline
        (congrArg (Option.map Node.outline) hfound) hname

/-- **After every session** what was made up is in its place.

**Proof sketch.** A session ends in a graph that is settled, and in a history whose graphs keep real and
made-up declarations apart (`Segregated`) and have the latter in their places (`Placed`). The first says what
belongs to what, the others where it was made and that it was made once; `Settled.isPlaced` puts them
together. -/
theorem after_isPlaced (session : List Operation) : ∃ g, after session = .ok g ∧ g.IsPlaced := by
  obtain ⟨g, hafter, hg⟩ := exists_settled_after session
  obtain ⟨past, hhistory⟩ := exists_history hafter
  exact ⟨g, hafter, hg.isPlaced hhistory.segregated hhistory.placed⟩

end Graph

end ProgramGraph
