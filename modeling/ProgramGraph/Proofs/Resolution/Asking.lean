import ProgramGraph.Proofs.Building.Raw
import ProgramGraph.Proofs.Lookups.Fields

set_option autoImplicit false

/-!
# What is made up was asked for

A resolution makes up a field only for a usage, and then the usage is linked to it: an access whose
base or member it becomes, or a reference in a record. Nothing is made up for a type on behalf of
anything else, and a record is made up only together with such a field.

## Main definitions

* `ProgramGraph.Resolver.Adds` — all fields and records that are added were asked for.
* `ProgramGraph.Resolver.Answers` — a field is linked by a usage that asked for it.

## Main results

* `ProgramGraph.Resolver.Sound.adds_standIn` — a stand-in adds nothing but itself.
* `ProgramGraph.Resolver.Visited.adds`, `ProgramGraph.Resolver.Runs.adds` — a visit, and a run.

## Design

What is added is looked at from the index: the fields of the records that it has for types. A step adds
fields for one type only, and as no record is indexed under two types, the fields of all other types
stay as they are.
-/

namespace ProgramGraph.Resolver

variable {r r' r'' : Resolver} {owner type : Descriptor} {name : String} {field record : NodeId}
  {n : Nat} {asked asked' : Descriptor → NodeId → Prop}

/-! ## Additions -/

/-- All fields that are added to records of types were asked for, apart from those that stand for new
records, and each new record has a field that was asked for. -/
structure Adds (asked : Descriptor → NodeId → Prop) (r r' : Resolver) : Prop where
  /-- A field was there, or stands for a record, or was asked for. -/
  fields : ∀ type record, r'.index.record? type = some record → ∀ field ∈ r'.graph.fieldsOf record,
    (r.index.record? type = some record ∧ field ∈ r.graph.fieldsOf record) ∨
      r'.graph.selfOf record = some field ∨ asked type field
  /-- A record was there, or has a field that was asked for. -/
  records : ∀ type record, r'.index.record? type = some record →
    r.index.record? type = some record ∨ ∃ field ∈ r'.graph.fieldsOf record, asked type field

namespace Adds

/-- Nothing is added where all fields stay. -/
theorem of_fieldsOf (hindex : ∀ type, r'.index.record? type = r.index.record? type)
    (hfields : ∀ type record, r.index.record? type = some record →
      r'.graph.fieldsOf record = r.graph.fieldsOf record) : Adds asked r r' where
  fields type record hrecord field hfield := by
    rw [hindex] at hrecord
    exact Or.inl ⟨hrecord, hfields type record hrecord ▸ hfield⟩
  records type record hrecord := Or.inl (hindex type ▸ hrecord)

/-- Where nothing is made up, nothing was asked for. -/
theorem refl (r : Resolver) : Adds asked r r := of_fieldsOf (fun _ => rfl) fun _ _ _ => rfl

/-- More may have been asked for. -/
theorem mono (h : Adds asked r r') (hasked : ∀ type field, asked type field → asked' type field) :
    Adds asked' r r' where
  fields type record hrecord field hfield :=
    (h.fields type record hrecord field hfield).imp_right (Or.imp_right (hasked type field))
  records type record hrecord := (h.records type record hrecord).imp_right
    fun ⟨field, hfield, h⟩ => ⟨field, hfield, hasked type field h⟩

/-- **Additions add up.** -/
theorem trans (h : Adds asked r r') (h' : Adds asked r' r'') (sound : r'.Sound)
    (hgrows : r'.graph.Grows n r''.graph) : Adds asked r r'' where
  fields type record hrecord field hfield := by
    rcases h'.fields type record hrecord field hfield with ⟨hbefore, hold⟩ | hlater
    · rcases h.fields type record hbefore field hold with hfirst | hself | hasked
      · exact Or.inl hfirst
      · exact Or.inr (Or.inl ((hgrows.selfOf (sound.records _ _ hbefore)).trans hself))
      · exact Or.inr (Or.inr hasked)
    · exact Or.inr hlater
  records type record hrecord := by
    rcases h'.records type record hrecord with hbefore | hlater
    · refine (h.records type record hbefore).imp_right fun ⟨field, hfield, hasked⟩ => ?_
      obtain ⟨new, hnew, -⟩ := hgrows.fieldsOf (sound.records _ _ hbefore)
      exact ⟨field, hnew ▸ List.mem_append_left _ hfield, hasked⟩
    · exact Or.inr hlater

end Adds

/-! ## Stand-ins -/

/-- The fields of a record whose payload stays. -/
theorem fieldsOf_of_payload? {g g' : Graph} (h : g'.payload? record = g.payload? record) :
    g'.fieldsOf record = g.fieldsOf record := by
  unfold Graph.fieldsOf
  rw [h]

/-- Making up a record enters it under its type. -/
theorem record?_makeRecord (r : Resolver) (owner type : Descriptor) :
    (r.makeRecord owner).2.index.record? type =
      if type = owner then some (r.makeRecord owner).1 else r.index.record? type := by
  unfold makeRecord
  cases r.index.placeholderUnit <;> exact Assoc.get?_put ..

/-- Making up a record keeps the payloads of all nodes but units. -/
theorem Sound.payload?_makeRecord (h : r.Sound) (owner : Descriptor) {id : NodeId} {payload : Payload}
    (hpayload : r.graph.payload? id = some payload) (htag : payload.tag ≠ .unit) :
    (r.makeRecord owner).2.graph.payload? id = some payload := by
  obtain ⟨unit, g, heq, -, -, -, hkept⟩ := h.exists_unit (Nat.zero_le _)
  have hadded := hkept id payload hpayload
  have hmake : (r.makeRecord owner).2.graph =
      (g.addRecord owner.name "unknown" [] true).2.appendDeclaration unit (g.size + 1) := by
    unfold Resolver.makeRecord
    rcases heq with ⟨heq, hgraph⟩ | ⟨heq, hgraph⟩ <;> simp only [heq, hgraph, Graph.fst_addRecord] <;> rfl
  rw [hmake]
  exact Graph.payload?_makeRecord unit owner.name hadded htag

/-- Making up a record for a type adds a record with the field that stands for it. -/
theorem Sound.fieldsOf_makeRecord (h : r.Sound) (hnone : r.index.record? owner = none)
    (hrecord : (r.makeRecord owner).2.index.record? type = some record) :
    (r.index.record? type = some record ∧
        (r.makeRecord owner).2.graph.fieldsOf record = r.graph.fieldsOf record) ∨
      type = owner ∧ ∀ field ∈ (r.makeRecord owner).2.graph.fieldsOf record,
        (r.makeRecord owner).2.graph.selfOf record = some field := by
  rw [record?_makeRecord] at hrecord
  split at hrecord
  · next heq =>
    obtain rfl := Option.some.inj hrecord
    obtain ⟨-, -, self, hpayload, -⟩ := h.makeRecord (Nat.zero_le _) [] hnone
    refine Or.inr ⟨heq, fun field hfield => ?_⟩
    rw [Graph.fieldsOf, hpayload] at hfield
    rw [Graph.selfOf, hpayload, List.mem_singleton.mp hfield]
    rfl
  · obtain ⟨body, hbody⟩ := Graph.exists_record_of_tag? (h.records _ _ hrecord)
    refine Or.inl ⟨hrecord, fieldsOf_of_payload? ?_⟩
    rw [h.payload?_makeRecord owner hbody (by simp [Payload.tag]), hbody]

/-- Making up a field adds it to its record only. -/
theorem Sound.mem_fieldsOf_makeField (h : r.Sound) (hrecord : r.index.record? owner = some record)
    (name : String) (o : Observation) {other : NodeId}
    (hother : r.index.record? type = some other)
    (hfield : field ∈ (r.makeField record name o).2.graph.fieldsOf other) :
    field ∈ r.graph.fieldsOf other ∨ type = owner ∧ field = (r.makeField record name o).1 := by
  obtain ⟨body, hbody⟩ := Graph.exists_record_of_tag? (h.records _ _ hrecord)
  change field ∈ ((r.graph.addTyped (Graph.madeUpField name) o).2.appendField record
    r.graph.size).fieldsOf other at hfield
  by_cases heq : other = record
  · subst heq
    rw [Graph.fieldsOf, Graph.payload?_makeField_self hbody name o] at hfield
    rw [Graph.fieldsOf, hbody]
    refine (List.mem_append.mp hfield).imp_right fun hnew => ?_
    exact ⟨h.injective _ _ _ hother hrecord, List.mem_singleton.mp hnew⟩
  · obtain ⟨body', hbody'⟩ := Graph.exists_record_of_tag? (h.records _ _ hother)
    rw [Graph.fieldsOf, Graph.payload?_makeField_of_ne hbody' heq name o] at hfield
    rw [Graph.fieldsOf, hbody']
    exact Or.inl hfield

/-- The record of a type, found or made up, has no other fields than before, apart from the one that
stands for it. -/
theorem Sound.mem_fieldsOf_recordFor (h : r.Sound) (owner : Descriptor)
    (hrecord : (r.recordFor owner).2.index.record? type = some record)
    (hfield : field ∈ (r.recordFor owner).2.graph.fieldsOf record) :
    (r.index.record? type = some record ∧ field ∈ r.graph.fieldsOf record) ∨
      (r.recordFor owner).2.graph.selfOf record = some field := by
  unfold Resolver.recordFor at hrecord hfield ⊢
  cases hown : r.index.record? owner with
  | some own =>
    rw [hown] at hrecord hfield
    exact Or.inl ⟨hrecord, hfield⟩
  | none =>
    rw [hown] at hrecord hfield
    rcases h.fieldsOf_makeRecord hown hrecord with ⟨hold, hfields⟩ | ⟨-, hself⟩
    · exact Or.inl ⟨hold, hfields ▸ hfield⟩
    · exact Or.inr (hself field hfield)

/-- **How something stands in** for a member: it was remembered, or it is found in the record of the
type, or it is made up there.

**Proof sketch.** The cases are those of the function: it looks for a field that was remembered, then for one
in the record of the type, and only then does it make one up. -/
theorem Sound.standIn_cases (h : r.Sound) {o : Observation}
    (hstand : r.standIn owner name o = .ok (field, r')) :
    r' = r ∨ r' = (r.recordFor owner).2.remember owner name field ∨
      field = ((r.recordFor owner).2.makeField (r.recordFor owner).1 name o).1 ∧
        r' = ((r.recordFor owner).2.makeField (r.recordFor owner).1 name o).2.remember owner name
          field := by
  unfold Resolver.standIn at hstand
  cases hdummy : r.index.dummies.get? (owner, name) with
  | some old =>
    rw [hdummy] at hstand
    cases hstand
    exact Or.inl rfl
  | none =>
    obtain ⟨hreaches, hown, -⟩ := h.recordFor (Nat.zero_le _) [] owner
    have hlt := Graph.lt_size_of_tag? (hreaches.sound.records _ _ hown)
    rw [hdummy] at hstand
    simp only [bind, Except.bind, hreaches.sound.wellFormed.typed.fieldNamed_eq hlt] at hstand
    cases hfound : (r.recordFor owner).2.graph.fieldOf name (r.recordFor owner).1 with
    | some old =>
      rw [hfound] at hstand
      cases hstand
      exact Or.inr (Or.inl rfl)
    | none =>
      rw [hfound] at hstand
      cases hstand
      exact Or.inr (Or.inr ⟨rfl, rfl⟩)

/-- A stand-in is the only field that is added, apart from the one that stands for its record. -/
theorem Sound.mem_fieldsOf_standIn (h : r.Sound) {o : Observation} {added : NodeId}
    (hstand : r.standIn owner name o = .ok (added, r'))
    (hrecord : r'.index.record? type = some record) (hfield : field ∈ r'.graph.fieldsOf record) :
    (r.index.record? type = some record ∧ field ∈ r.graph.fieldsOf record) ∨
      r'.graph.selfOf record = some field ∨ type = owner ∧ field = added := by
  rcases h.standIn_cases hstand with rfl | rfl | ⟨rfl, rfl⟩
  · exact Or.inl ⟨hrecord, hfield⟩
  · exact (h.mem_fieldsOf_recordFor owner hrecord hfield).imp_right Or.inl
  · obtain ⟨hreaches, hown, -⟩ := h.recordFor (Nat.zero_le _) [] owner
    rcases hreaches.sound.mem_fieldsOf_makeField hown name o hrecord hfield with hbefore | hnew
    · refine (h.mem_fieldsOf_recordFor owner hrecord hbefore).imp_right fun hself => Or.inl ?_
      obtain ⟨body, hbody⟩ := Graph.exists_record_of_tag? (hreaches.sound.records _ _ hown)
      have hgrows := (Graph.Enlarges.makeField hreaches.sound.wellFormed (Nat.zero_le _) hbody name
        o).grows
      exact (hgrows.selfOf (hreaches.sound.records _ _ hrecord)).trans hself
    · exact Or.inr (Or.inr hnew)

/-- Standing in for a member of a type leaves the records of all other types alone. -/
theorem Sound.record?_standIn (h : r.Sound) {o : Observation}
    (hstand : r.standIn owner name o = .ok (field, r')) (hne : type ≠ owner) :
    r'.index.record? type = r.index.record? type := by
  have hfor : (r.recordFor owner).2.index.record? type = r.index.record? type := by
    unfold Resolver.recordFor
    cases r.index.record? owner with
    | some own => rfl
    | none =>
      change (r.makeRecord owner).2.index.record? type = _
      rw [record?_makeRecord, if_neg hne]
  rcases h.standIn_cases hstand with rfl | rfl | ⟨rfl, rfl⟩
  · rfl
  · exact hfor
  · exact hfor

/-- **A stand-in** adds nothing but itself, and the record of its type if there was none. -/
theorem Sound.adds_standIn (h : r.Sound) {o : Observation}
    (hstand : r.standIn owner name o = .ok (field, r')) (hown : r'.ownField name owner = some field) :
    Adds (fun type other => type = owner ∧ other = field) r r' where
  fields type record hrecord other hother := h.mem_fieldsOf_standIn hstand hrecord hother
  records type record hrecord := by
    by_cases heq : type = owner
    · subst heq
      obtain ⟨own, hown', hfieldOf⟩ := Sound.exists_record hown
      obtain rfl := Option.some.inj (hown'.symm.trans hrecord)
      exact Or.inr ⟨field, (Graph.mem_of_fieldOf hfieldOf).1, rfl, rfl⟩
    · exact Or.inl (h.record?_standIn hstand heq ▸ hrecord)

/-- **A member that is found** or stands in is all that is added. -/
theorem FindsMember.adds (hfinds : r.FindsMember owner name field r') (h : r.Sound) :
    Adds (fun type other => type = owner ∧ other = field) r r' := by
  cases hfinds with
  | found _ => exact .refl r
  | standIn _ hstand hown _ => exact h.adds_standIn hstand hown

/-! ## Visits -/

variable {g : Graph} {t t₀ : ScopeTable} {index : Index} {V V₀ : List NodeId} {id base base' : NodeId}
  {member member' : Option NodeId} {p : Place} {node : Node}

/-- A field is linked by a usage that asked for it: an access on something that is no enumeration, an
access whose base has a type that no enumeration declares, or a reference in a record. -/
inductive Answers (g : Graph) (index : Index) (V : List NodeId) (r : Resolver) (type : Descriptor)
    (field : NodeId) : Prop where
  /-- It is the member of an access. -/
  | member {usage base : NodeId} {tag : Tag} (hvisited : usage ∈ V)
    (hpayload : r.graph.payload? usage = some (.memberAccess base (some field)))
    (htag : r.graph.tag? base = some tag) (hnot : tag ≠ .enum)
  /-- It is the base of an access. -/
  | base {usage : NodeId} {member : Option NodeId} (hvisited : usage ∈ V)
    (hpayload : r.graph.payload? usage = some (.memberAccess field member))
    (hnot : index.enum? type = none)
  /-- It is what a reference in a record means. -/
  | reference {usage : NodeId} {p : Place} (hvisited : usage ∈ V)
    (hpayload : r.graph.payload? usage = some (.reference (some field) false))
    (hstands : g.Stands p usage) (haround : p.types.head? = some type)

/-- A field that was asked for stays linked. -/
theorem Answers.visit (h : Answers g index V r type field) (hstep : Step n [id] r r')
    (hnot : id ∉ V) : Answers g index (V ++ [id]) r' type field := by
  have hne : ∀ {usage}, usage ∈ V → usage ∉ [id] := by
    rintro usage hvisited hmem
    exact hnot (List.mem_singleton.mp hmem ▸ hvisited)
  cases h with
  | member hvisited hpayload htag henum =>
    exact .member (List.mem_append_left _ hvisited)
      (hstep.usages _ _ (hne hvisited) hpayload (Or.inr rfl)) (hstep.graph.tag? htag) henum
  | base hvisited hpayload henum =>
    exact .base (List.mem_append_left _ hvisited)
      (hstep.usages _ _ (hne hvisited) hpayload (Or.inr rfl)) henum
  | reference hvisited hpayload hstands haround =>
    exact .reference (List.mem_append_left _ hvisited)
      (hstep.usages _ _ (hne hvisited) hpayload (Or.inl rfl)) hstands haround

/-- What settling a base adds. -/
theorem SettlesBase.adds (h : r.SettlesBase base base' r') (sound : r.Sound) :
    Adds (fun type field => field = base' ∧ r.index.enum? type = none) r r' := by
  cases h with
  | stays _ => exact .refl r
  | found _ _ hfinds =>
    cases hfinds with
    | enum _ => exact .refl r
    | self _ _ _ => exact .refl r
    | standIn henum _ hstand hown =>
      exact (sound.adds_standIn hstand hown).mono fun type field ⟨htype, hfield⟩ =>
        ⟨hfield, htype ▸ henum⟩

/-- What settling a member adds. -/
theorem SettlesMember.adds (h : r.SettlesMember id base member member' r') (sound : r.Sound) :
    Adds (fun _ field => member' = some field ∧ r.graph.tag? base ≠ some .enum) r r' := by
  cases h with
  | none => exact .refl r
  | stays _ => exact .refl r
  | constant _ _ _ f => exact .of_fieldsOf (fun _ => rfl) fun _ _ _ => rfl
  | @field stub field _ q _ _ hbase hfinds hsound _ hobserve f =>
    subst hobserve
    have hsame := q.graph.sameTree_informed field id
    have hadds : Adds (fun _ other => some field = some other ∧ r.graph.tag? base ≠ some .enum) r q :=
      (hfinds.adds sound).mono fun type other ⟨_, hother⟩ => ⟨congrArg some hother.symm, hbase⟩
    exact hadds.trans (.of_fieldsOf (fun _ => rfl) fun _ record _ =>
      fieldsOf_of_payload? (hsame.payload? record)) hsound (.of_sameTree 0 hsame)

/-- What searching a declaration adds. -/
theorem FindsDeclaration.adds {seen : List NodeId} {around : Option Descriptor} {isStatic : Bool}
    {target : Option NodeId} (h : r.FindsDeclaration seen around name isStatic target r')
    (sound : r.Sound) :
    Adds (fun type field => target = some field ∧ isStatic = false ∧ around = some type) r r' := by
  cases h with
  | lexical _ => exact .refl r
  | member _ htype hstatic _ hfinds =>
    exact (hfinds.adds sound).mono fun type field ⟨howner, hfield⟩ =>
      ⟨congrArg some hfield.symm, hstatic, htype.trans (congrArg some howner.symm)⟩
  | nothing _ _ => exact .refl r

/-- Where only the payload of a usage is written, nothing is added. -/
theorem Adds.of_payload? (sound : r.Sound) (hindex : ∀ type, r'.index.record? type = r.index.record? type)
    {payload : Payload} (hpayload : r.graph.payload? id = some payload)
    (hkind : payload.tag = .reference ∨ payload.tag = .memberAccess)
    (hkept : ∀ other, other ≠ id → r'.graph.payload? other = r.graph.payload? other) :
    Adds asked r r' := by
  refine .of_fieldsOf hindex fun type record hrecord => fieldsOf_of_payload? (hkept record ?_)
  rintro rfl
  have htag := (sound.records _ _ hrecord).symm.trans (Graph.tag?_of_payload? hpayload)
  rcases hkind with hkind | hkind <;> rw [hkind] at htag <;> exact absurd htag (by decide)

/-- Pointing a reference at something adds nothing. -/
theorem adds_link {reference : NodeId} {old target : Option NodeId} {isStatic : Bool} (sound : r.Sound)
    (hpayload : r.graph.payload? reference = some (.reference old isStatic))
    (hlink : r.link reference target = .ok r') : Adds asked r r' := by
  rw [Sound.link_eq hpayload] at hlink
  cases hlink
  refine .of_payload? sound (fun _ => rfl) hpayload (Or.inl rfl) fun other hother => ?_
  rw [(Graph.sameTree_following ..).payload?, Graph.payload?_setTarget_of_ne hother,
    (r.graph.sameTree_freed reference old).payload?]

/-- **A visit** adds only what its usage asks for and is linked to.

**Proof sketch.** By the kind of the usage. For an access the base, the member and the final write are taken
in turn: each adds a field for a type only where the access asks for it and is linked to it in the end. For a
reference the search adds a field for the record around it, and linking adds nothing. -/
theorem Visited.adds (now : Visited n t₀ V p id node t r r') (sound : r.Sound)
    (henums : ∀ type, r.index.enum? type = index.enum? type)
    (hstands : r.graph.tag? id = some .reference → g.Stands p id) :
    Adds (Answers g index (V ++ [id]) r') r r' := by
  have hvisited : id ∈ V ++ [id] := List.mem_append_right _ (List.mem_singleton.mpr rfl)
  cases now.resolves with
  | other _ _ => exact .refl r
  | @access base base' member member' r₁ r₂ hpayload hreaches hbase hreaches' hmember hwrites _
      hwritten =>
    have hfits := sound.wellFormed.typed.nodes id node now.found
    rw [Option.some.inj ((Graph.payload?_eq now.found).symm.trans hpayload)] at hfits
    obtain ⟨tag, htag, -⟩ := sound.exists_settledBase hreaches.sound hfits.1 hbase
    have hkept := hwrites.step.graph.tag? (hreaches'.step.graph.tag? htag)
    let written : Resolver := { r₂ with graph := r₂.graph.setAccess id base' member' }
    change written.graph.payload? id = _ at hwritten
    have hfirst : Adds (Answers g index (V ++ [id]) written) r r₁ := by
      refine (hbase.adds sound).mono ?_
      rintro type field ⟨rfl, hnot⟩
      exact .base hvisited hwritten (henums type ▸ hnot)
    have hsecond : Adds (Answers g index (V ++ [id]) written) r₁ r₂ := by
      refine (hmember.adds hreaches.sound).mono ?_
      rintro type field ⟨rfl, hnot⟩
      exact .member hvisited hwritten hkept fun heq => hnot (heq ▸ htag)
    have hpayload₂ := hreaches'.step.usages id _ (by simp)
      (hreaches.step.usages id _ (by simp) hpayload (Or.inr rfl)) (Or.inr rfl)
    have hlast : Adds (Answers g index (V ++ [id]) written) r₂ written :=
      .of_payload? hreaches'.sound (fun _ => rfl) hpayload₂ (Or.inr rfl) fun other hother =>
        Graph.payload?_setAccess_of_ne hother
    exact (hfirst.trans hsecond hreaches.sound hreaches'.step.graph).trans hlast hreaches'.sound
      hwrites.step.graph
  | @reference name isStatic old target r₁ _ f hpayload _ hreaches hfinds hlink hlinks hwritten =>
    change r.graph.payload? id = _ at hpayload
    have htag := Graph.tag?_of_payload? hpayload
    have hopens : node.tag.opens? = none := by
      rw [Graph.tag?_eq now.found, Option.some.injEq] at htag
      rw [htag]
      rfl
    have haround : (Walk.visitOf p id node).recordType = p.types.head? := by
      unfold Walk.visitOf
      rw [Place.enter_of_opens?_eq_none hopens]
    have hfirst : Adds (Answers g index (V ++ [id]) r') r r₁ := by
      refine (hfinds.adds sound).mono ?_
      rintro type field ⟨rfl, rfl, htype⟩
      exact .reference hvisited hwritten (hstands htag) (haround ▸ htype)
    have hcounted := (hreaches.count f).sound
    have hpayload₁ := hreaches.step.usages id _ (by simp) hpayload (Or.inl rfl)
    have hcount : Adds (Answers g index (V ++ [id]) r') r₁ (r₁.count f) :=
      .of_fieldsOf (fun _ => rfl) fun _ _ _ => rfl
    have hlast := hcount.trans (adds_link hcounted hpayload₁ hlink) hcounted hlinks.step.graph
    exact hfirst.trans hlast hreaches.sound hlinks.step.graph

/-- **A run** adds only what its usages ask for and are linked to. -/
theorem Runs.adds (h : Runs g.size t₀ ⟨g, index⟩ V r) (start : Sound ⟨g, index⟩) :
    Adds (Answers g index V r) ⟨g, index⟩ r := by
  induction h with
  | start => exact .refl _
  | @visit V p id node t r r' before now ih =>
    obtain ⟨sound, hstep⟩ := before.reaches start
    have hstands : r.graph.tag? id = some .reference → g.Stands p id := by
      intro htag
      refine hstep.graph.stands_back (Nat.le_refl _) now.stands ?_
      by_contra hge
      have hmade := (hstep.graph.fresh id node (Nat.not_lt.mp hge) now.found).2.not_isExpression
      rw [Graph.tag?_eq now.found, Option.some.injEq, Node.tag] at htag
      rw [htag] at hmade
      exact absurd hmade (by decide)
    have hbefore : Adds (Answers g index (V ++ [id]) r') ⟨g, index⟩ r :=
      ih.mono fun _ _ h => h.visit now.reaches.step now.notMem
    exact hbefore.trans (now.adds sound (fun type => hstep.enum? type) hstands) sound
      now.reaches.step.graph

end ProgramGraph.Resolver
