import ProgramGraph.Proofs.Lookups.Real
import ProgramGraph.Proofs.Rerun.Lookup

set_option autoImplicit false

/-!
# Member accesses on references

The base of a member access is not resolved before the access, so its type is still the one that it
was built with. From this type the declaration of the base is found, and from the type of that
declaration the member. The declaration may have another type by then, but not as long as nothing
was observed on it but forms of the type that it began with.

## Main definitions

* `ProgramGraph.Graph.Accesses` — a member access by a name on a reference of a type.
* `ProgramGraph.Graph.OnlyForms` — only forms of a type were observed on a node.
* `ProgramGraph.Resolver.Means` — what the member of an access means.
* `ProgramGraph.Resolver.Run.Usage` — how a member access was resolved in a run.

## Main results

* `ProgramGraph.Resolver.Run.usage` — the moments of the member accesses of a raw graph.
* `ProgramGraph.Resolver.Run.Usage.typeOf` — the type of the declaration of the base.
* `ProgramGraph.Resolver.Run.Usage.exists_field` — the field that the member means.
-/

namespace ProgramGraph

namespace Graph

/-- A member access by a name on a reference of a type. -/
def Accesses (g : Graph) (usage : NodeId) (type : Descriptor) (name : String) : Prop :=
  ∃ base member belief, g.payload? usage = some (.memberAccess base member) ∧
    g.name? usage = some name ∧ g.tag? base = some .reference ∧ g.belief? base = some belief ∧
      belief.type.type = type

/-- A member access in terms of its nodes. -/
theorem Accesses.of_nodes {g : Graph} {usage : NodeId} {type : Descriptor} {name : String}
    (base : NodeId) (member : Option NodeId)
    (h : g.payload? usage = some (.memberAccess base member) ∧ g.name? usage = some name ∧
      g.tag? base = some .reference ∧
        (g.belief? base).any (fun b => b.type.type == type) = true) : g.Accesses usage type name := by
  obtain ⟨hpayload, hname, htag, hbelief⟩ := h
  obtain ⟨b, hb, htype⟩ := (Option.any_eq_true _ _).mp hbelief
  exact ⟨base, member, b, hpayload, hname, htag, hb, beq_iff_eq.mp htype⟩

/-- Only forms of a type were observed on a node. -/
def OnlyForms (g : Graph) (type : Descriptor) (id : NodeId) : Prop :=
  ∀ b, g.belief? id = some b → ∀ u ∈ b.observed.types, u.IsFormOf type

end Graph

namespace Resolver

variable {r r' : Resolver} {type : Descriptor} {name : String} {field : NodeId}

/-! ## Bases -/

/-- What is believed about a made-up field. -/
theorem belief?_makeField (r : Resolver) (record : NodeId) (name : String) (o : Observation) :
    (r.makeField record name o).2.graph.belief? (r.makeField record name o).1 =
      some (({} : Belief).observe o) := by
  change ((r.graph.addTyped (Graph.madeUpField name) o).2.appendField record r.graph.size).belief?
    r.graph.size = _
  rw [Graph.appendField, Graph.modifyPayload, Graph.belief?_modify]
  · exact Graph.belief?_addTyped_self rfl r.graph o
  · exact fun _ => rfl

/-- What is believed about the stand-in for the base of an access, if its type had no record: the
field stands for the record made up, or else the type of the base was observed on it first.

**Proof sketch.** Nothing is remembered for a type without a record, so a record is made up, which has a
single field, the one that stands for it. If this has the name, it is the stand-in. Otherwise a field is made
up, and the type is the first thing that is observed on it. -/
theorem Sound.standIn_began (h : r.Sound) {o : Observation} (hnone : r.index.record? type = none)
    (hstand : r.standIn type name o = .ok (field, r')) :
    (∃ record, r'.index.record? type = some record ∧ r'.graph.selfOf record = some field) ∨
      ∃ b, r'.graph.belief? field = some b ∧ b.Began o.type := by
  have hdummy : r.index.dummies.get? (type, name) = none := by
    by_contra hsome
    obtain ⟨other, hother⟩ := Option.ne_none_iff_exists'.mp hsome
    obtain ⟨record, hrecord, -⟩ := Sound.exists_record (h.dummies _ _ _ hother)
    exact absurd (hnone.symm.trans hrecord) (by simp)
  have hfor : r.recordFor type = r.makeRecord type := by
    unfold Resolver.recordFor
    rw [hnone]
  obtain ⟨hreaches, hrecord, self, hpayload, -⟩ := h.makeRecord (Nat.le_refl _) [] hnone
  have hlt := Graph.lt_size_of_tag? (hreaches.sound.records _ _ hrecord)
  have hread := hreaches.sound.wellFormed.typed.fieldNamed_eq hlt name
  simp only [Resolver.standIn, hdummy, bind, Except.bind, hfor] at hstand
  rw [hread] at hstand
  cases hfield : (r.makeRecord type).2.graph.fieldOf name (r.makeRecord type).1 with
  | some found =>
    rw [hfield] at hstand
    obtain ⟨rfl, rfl⟩ := Prod.mk.inj (Except.ok.inj hstand)
    have hmem := (Graph.mem_of_fieldOf hfield).1
    rw [Graph.fieldsOf, hpayload] at hmem
    obtain rfl := List.mem_singleton.mp hmem
    refine Or.inl ⟨_, hrecord, ?_⟩
    change (r.makeRecord type).2.graph.selfOf _ = some found
    rw [Graph.selfOf, hpayload]
    rfl
  | none =>
    rw [hfield] at hstand
    obtain ⟨rfl, rfl⟩ := Prod.mk.inj (Except.ok.inj hstand)
    exact Or.inr ⟨_, belief?_makeField _ _ name o, Belief.began_observe o⟩

/-! ## Members -/

/-- What the member of an access means: a constant if the base is an enumeration, and otherwise a field,
which is found for the type of the base or stands in for the member. -/
inductive Means (r : Resolver) (base : NodeId) (name : String) (r' : Resolver) :
    Option NodeId → Prop where
  /-- A constant. -/
  | constant (hbase : r.graph.tag? base = some .enum) :
    Means r base name r' ((r.graph.entriesOf base).find? (r.graph.isNamed name))
  /-- A field that is found. -/
  | found {field : NodeId} (hbase : r.graph.tag? base ≠ some .enum)
    (hmember : r.memberOf (r.graph.typeOf base).type name = some field) :
    Means r base name r' (some field)
  /-- A field that stands in. -/
  | standIn {field : NodeId} (hbase : r.graph.tag? base ≠ some .enum)
    (hmissing : r.memberOf (r.graph.typeOf base).type name = none)
    (hown : r'.ownField name (r.graph.typeOf base).type = some field)
    (hdummy : r'.index.dummies.get? ((r.graph.typeOf base).type, name) = some field) :
    Means r base name r' (some field)

/-- A member that was a reference means what its name means. -/
theorem SettlesMember.means {access base stub : NodeId} {member : Option NodeId}
    (hsettles : r.SettlesMember access base (some stub) member r')
    (htag : r.graph.tag? stub = some .reference) (hname : r.graph.name? stub = some name) :
    r.Means base name r' member := by
  cases hsettles with
  | stays hnot => exact absurd htag hnot
  | constant _ hname' hbase f =>
    obtain rfl := Option.some.inj (hname'.symm.trans hname)
    exact .constant hbase
  | @field _ field _ q _ hname' hbase hfinds hsound g hobserve f =>
    obtain rfl := Option.some.inj (hname'.symm.trans hname)
    subst hobserve
    cases hfinds with
    | found hmember => exact .found hbase hmember
    | standIn hmissing _ hown hdummy =>
      obtain ⟨record, hrecord, hfieldOf⟩ := Sound.exists_record hown
      have hkept := (Graph.Grows.of_sameTree 0 (q.graph.sameTree_informed field access)).fieldOf
        hsound.wellFormed.typed (hsound.records _ _ hrecord) hfieldOf
      exact .standIn hbase hmissing (Option.bind_eq_some_iff.mpr ⟨record, hrecord, hkept⟩) hdummy

/-! ## Moments -/

namespace Run

/-- How a member access by a name on a reference of a type was resolved in a run: the resolver at the
moment, with the base settled, and with the member settled. -/
structure Usage (g : Graph) (index : Index) (r : Resolver) (type : Descriptor) (name : String)
    (base : NodeId) (member : Option NodeId) (r₁ r₂ r₃ : Resolver) : Prop where
  /-- The index was right. -/
  sound : r₁.Sound
  /-- The index was right with the base settled. -/
  sound' : r₂.Sound
  /-- The index was right with the member settled. -/
  sound'' : r₃.Sound
  /-- The run up to the moment. -/
  before : ∃ done, Step g.size done ⟨g, index⟩ r₁
  /-- No usage is resolved while the base is settled. -/
  during : Step g.size [] r₁ r₂
  /-- No usage is resolved while the member is settled. -/
  during' : Step g.size [] r₂ r₃
  /-- The rest of the run. -/
  after : ∃ done, Step g.size done r₃ r
  /-- How the declaration of the base is found. -/
  finds : ∃ o baseName, o.type = type ∧ r₁.FindsBase o baseName base r₂
  /-- What the member means. -/
  means : r₂.Means base name r₃ member

variable {g : Graph} {t₀ : ScopeTable} {index : Index} {V₀ V : List NodeId} {r₁ r₂ r₃ : Resolver}
  {id base : NodeId} {member : Option NodeId}

/-- **The base of an access** keeps its type until the access is resolved. -/
theorem Access.typeOf_base {base' : NodeId} {member' : Option NodeId} (start : Sound ⟨g, index⟩)
    (raw : g.Raw) (moment : Access g t₀ index r id base base' member member' r₁ r₂ r₃)
    (hpayload : g.payload? id = some (.memberAccess base member))
    (htag : g.tag? base = some .reference) {b : Belief} (hb : g.belief? base = some b) :
    r₁.graph.typeOf base = g.typeOf base := by
  obtain ⟨before, hid, hruns, hstep⟩ := moment.runs
  have hkept := hstep.usages id _ hid hpayload (Or.inr rfl)
  have hpart : base ∈ r₁.graph.parts id := by
    obtain ⟨node, hnode, heq⟩ := Graph.exists_node_of_payload? hkept
    have hreference := hstep.graph.tag? htag
    rw [Graph.parts_eq hnode, heq]
    simp [Graph.partsOf, hreference, Tag.isExpression]
  have hbase := hruns.notMem_of_mem_parts start hid hpart
  have hstirred : g.Stirred (· ≠ base) before := by
    refine ⟨fun other hother => ?_, fun other hother => ?_, raw.confined _⟩
    · rintro rfl
      exact hbase hother
    · rintro rfl
      exact hother htag
  exact (hstep.refines _ hstirred).typeOf hb fun hne => hne rfl

/-- **The moment of a member access** on a reference, in a run from a raw graph.

**Proof sketch.** Everything is looked at from the moment of the visit. Until then nobody touched the access
or its base, so the type of the base is the written one. -/
theorem usage (run : Run g t₀ index V₀ V r) (hg : g.Sprouting [])
    (haccess : g.Accesses id type name) :
    ∃ base member r₁ r₂ r₃, r.graph.payload? id = some (.memberAccess base member) ∧
      Usage g index r type name base member r₁ r₂ r₃ := by
  obtain ⟨old, oldMember, b, hold, hname, htag, hb, htype⟩ := haccess
  have hgrows := (run.runs.reaches run.start).2.graph
  obtain ⟨base, member, hpayload⟩ := hgrows.exists_access hold
  have hid := run.mem_of_linked hg hpayload (Or.inl rfl)
  obtain ⟨-, old', oldMember', r₁, r₂, r₃, hold', moment⟩ := run.access hid hpayload
  obtain ⟨rfl, rfl⟩ := Payload.memberAccess.inj (Option.some.inj (hold'.symm.trans hold))
  obtain ⟨before, -, -, hstep⟩ := moment.runs
  refine ⟨base, member, r₁, r₂, r₃, hpayload, moment.sound, moment.sound', moment.sound'',
    ⟨before, hstep⟩, moment.during, moment.during', moment.after, ?_, ?_⟩
  · have hkept := moment.typeOf_base run.start hg.raw hold htag hb
    cases moment.base with
    | stays hnot => exact absurd (hstep.graph.tag? htag) hnot
    | found _ _ hfinds =>
      refine ⟨_, _, ?_, hfinds⟩
      rw [hkept, Graph.typeOf, hb]
      exact htype
  · obtain ⟨node, hnode, heq⟩ := Graph.exists_node_of_payload? hold
    have hraw := hg.raw.payload id node hnode
    have hfits := run.start.wellFormed.typed.nodes id node hnode
    rw [heq] at hraw hfits
    obtain ⟨stub, rfl, hstub⟩ := hraw
    obtain rfl := Option.some.inj ((Graph.name?_eq hnode).symm.trans hname)
    have hbefore := hstep.graph.trans moment.during.graph
    exact moment.member.means (hbefore.tag? hstub)
      (hbefore.name? (hfits.2 stub rfl).1)

namespace Usage

variable (h : Usage g index r type name base member r₁ r₂ r₃)

include h

/-- What is believed about the declaration of a base whose type is declared by a record in the end
began with this type.

**Proof sketch.** The base is a field that stands for a record, or else one that was made up for the type. The
first began with the name of its record, which is the record of the type in the end, and the second with the
type itself. -/
theorem began (hselves : g.SelvesBegan) (henum : index.enum? type = none) {record : NodeId}
    (hrecord : r.index.record? type = some record)
    (hspells : r.graph.spells .record type record = true) :
    ∃ b, r₂.graph.belief? base = some b ∧ b.Began type := by
  obtain ⟨done, hbefore⟩ := h.before
  obtain ⟨done', hafter⟩ := h.after
  obtain ⟨node, hnode, -, hparse⟩ := Graph.spells_iff.mp hspells
  have hlater := h.during'.graph.trans hafter.graph
  -- the record that declares the type by then is the one in the end
  have hself : ∀ {own self}, r₂.index.record? type = some own → r₂.graph.selfOf own = some self →
      ∃ b, r₂.graph.belief? self = some b ∧ b.Began type := by
    intro own self hown hself
    obtain rfl := Option.some.inj
      ((hafter.records _ _ (h.during'.records _ _ hown)).symm.trans hrecord)
    obtain ⟨old, hold, -⟩ := Graph.exists_node_of_tag? (h.sound'.records _ _ hown)
    have hname := hlater.name? (Graph.name?_eq hold)
    rw [Graph.name?_eq hnode, Option.some.injEq] at hname
    rw [← hparse, hname]
    exact h.during.selves (hbefore.selves hselves) _ _ _ (Graph.name?_eq hold) hself
  obtain ⟨o, baseName, rfl, hfinds⟩ := h.finds
  cases hfinds with
  | enum hfound => rw [hbefore.enum?, henum] at hfound; cases hfound
  | self _ hown hfield => exact hself hown hfield
  | standIn _ hnone hstand _ =>
    rcases h.sound.standIn_began hnone hstand with ⟨own, hown, hfield⟩ | hbegan
    · exact hself hown hfield
    · exact hbegan

/-- **The type of the declaration of a base** is the type of the base as long as only forms of it are
observed on the declaration. -/
theorem typeOf (hselves : g.SelvesBegan) (henum : index.enum? type = none) {record : NodeId}
    (hrecord : r.index.record? type = some record)
    (hspells : r.graph.spells .record type record = true) (hforms : r.graph.OnlyForms type base) :
    (r₂.graph.typeOf base).type = type.heard := by
  obtain ⟨b, hb, hbegan⟩ := h.began hselves henum hrecord hspells
  obtain ⟨done, hafter⟩ := h.after
  obtain ⟨b₃, hb₃, hevolves, -⟩ := (h.during'.refines _ (.all [] _)).evolves base b hb
  obtain ⟨b', hb', hevolves', -⟩ := (hafter.refines _ (.all done _)).evolves base b₃ hb₃
  rw [Graph.typeOf, hb]
  exact hbegan.type fun u hu => hforms b' hb' u (hevolves'.observed (hevolves.observed hu))

/-- Where no enumeration declares the type, the declaration of the base is a field. -/
theorem tag?_base (henum : index.enum? type = none) : r₂.graph.tag? base = some .field := by
  obtain ⟨done, hbefore⟩ := h.before
  obtain ⟨o, baseName, rfl, hfinds⟩ := h.finds
  cases hfinds with
  | enum hfound => rw [hbefore.enum?, henum] at hfound; cases hfound
  | self _ hown hfield =>
    have typed := h.sound.wellFormed.typed
    obtain ⟨self, hself, hmem, -⟩ := typed.exists_selfOf (h.sound.records _ _ hown)
    obtain rfl := Option.some.inj (hself.symm.trans hfield)
    exact typed.all_fieldsOf.tag_eq hmem
  | standIn _ _ _ hown => exact (h.sound'.ownField_spec hown).1

/-- By then a record declares the type. -/
theorem exists_record (henum : index.enum? type = none) :
    ∃ record, r₂.index.record? type = some record := by
  obtain ⟨done, hbefore⟩ := h.before
  obtain ⟨o, baseName, rfl, hfinds⟩ := h.finds
  cases hfinds with
  | enum hfound => rw [hbefore.enum?, henum] at hfound; cases hfound
  | self _ hown _ => exact ⟨_, hown⟩
  | standIn _ _ _ hown =>
    obtain ⟨record, hrecord, -⟩ := Sound.exists_record hown
    exact ⟨record, hrecord⟩

/-- Where no enumeration declares the type, the member is a field, which is found or stands in. -/
theorem exists_field (henum : index.enum? type = none) : ∃ field, member = some field ∧
    (r₂.memberOf (r₂.graph.typeOf base).type name = some field ∨
      r₂.memberOf (r₂.graph.typeOf base).type name = none ∧
        r₃.ownField name (r₂.graph.typeOf base).type = some field ∧
          r₃.index.dummies.get? ((r₂.graph.typeOf base).type, name) = some field) := by
  cases h.means with
  | constant hconstant => rw [h.tag?_base henum] at hconstant; cases hconstant
  | found _ hmember => exact ⟨_, rfl, Or.inl hmember⟩
  | standIn _ hmissing hown hdummy => exact ⟨_, rfl, Or.inr ⟨hmissing, hown, hdummy⟩⟩

end Usage

end Run

end Resolver

end ProgramGraph
