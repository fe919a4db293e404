import ProgramGraph.Proofs.Lookups.Completeness
import ProgramGraph.Proofs.Lookups.Meeting
import ProgramGraph.Proofs.Sessions.History

set_option autoImplicit false

/-!
# What usages mean by themselves

What was written decides what a usage should mean: a declaration that was written, a field that has to
be made up, or nothing. A run keeps to this unless a field that was made up for another usage gets in
between. That happens in two ways: the field is declared in the scope of a record around a reference, or
it belongs to a supertype that is listed before the one with the written field.

## Main definitions

* `ProgramGraph.Sense` — what a usage should mean, and `ProgramGraph.Graph.Bears` — a link does mean
  this.
* `ProgramGraph.Resolver.memberSense`, `ProgramGraph.Resolver.referenceSense`,
  `ProgramGraph.Resolver.baseSense`, `ProgramGraph.Resolver.accessSense` — the senses of usages.
* `ProgramGraph.Graph.Provided` — a reference needs no made-up declaration.
* `ProgramGraph.Graph.Overtaken` — a made-up field gets before a written one.
* `ProgramGraph.Graph.Astray` — a link goes to a made-up field though it should not.
* `ProgramGraph.Graph.KeepsType` — the base of an access has one type all the time.
* `ProgramGraph.Graph.IsOperand` — a node is the base or the member of an access.

## Main results

* `ProgramGraph.Resolver.Run.bears_reference` — references.
* `ProgramGraph.Resolver.Run.Usage.bears_base`, `ProgramGraph.Resolver.Run.Usage.bears_constant`,
  `ProgramGraph.Resolver.Run.Usage.bears_member` — accesses on references.
* `ProgramGraph.Resolver.Run.Access.bears_of_stays` — accesses on other expressions.
* `ProgramGraph.Resolver.Run.mem_iff_of_reference` — which references are resolved.

## Design

The senses are read off the graph and the index that a run begins with. So they can be compared between
two graphs before anything is resolved.
-/

namespace ProgramGraph

/-! ## Senses -/

/-- What a usage means, as far as it is decided by what was written. -/
inductive Sense where
  /-- A declaration that was written. -/
  | written (d : NodeId)
  /-- A declaration that is to be made up. -/
  | madeUp
  /-- Nothing. -/
  | nothing
deriving DecidableEq

namespace Sense

/-- A declaration that was written if there is one, and otherwise one that is made up. -/
def orMadeUp : Option NodeId → Sense
  | some d => .written d
  | none => .madeUp

/-- A declaration that was written if there is one, and otherwise nothing. -/
def orNothing : Option NodeId → Sense
  | some d => .written d
  | none => .nothing

end Sense

namespace Graph

/-- A link has a sense. -/
inductive Bears (g : Graph) : Sense → Option NodeId → Prop where
  /-- It goes to the declaration. -/
  | written {d : NodeId} (h : g.IsWritten d) : Bears g (.written d) (some d)
  /-- It goes to something that was made up. -/
  | madeUp {d : NodeId} (h : g.IsMadeUp d) : Bears g .madeUp (some d)
  /-- There is none. -/
  | nothing : Bears g .nothing none

/-- What was made up for a type was made up. -/
theorem MadeUpFor.isMadeUp {g : Graph} {index : Index} {name : String} {type : Descriptor} {field : NodeId}
    (h : g.MadeUpFor index name type field) : g.IsMadeUp field := by
  obtain ⟨_, _, _, _, hmade⟩ := h
  exact hmade

/-- A made-up field of a supertype gets before a written field of a supertype that is listed later. -/
structure Overtaken (g : Graph) (index : Index) (name : String) (type : Descriptor) (field : NodeId) :
    Prop where
  /-- The type has supertypes only if it is known. -/
  known : type.isUnknown = false
  /-- The type has no written field of the name. -/
  own : g.realOf index name type = none
  /-- The field was made up for one of the supertypes before the first one that has a written field. -/
  super : ∃ inner super outer nearer written, index.superTypesOf type = inner ++ super :: outer ∧
    (∀ t ∈ inner, g.realOf index name t = none) ∧ g.realOf index name super = some written ∧
      nearer ∈ inner ∧ g.MadeUpFor index name nearer field

/-- No declaration has to be made up for a reference at a place: its name is static, or declared in a scope
around it, or the name of a written field for the record around it. -/
def Provided (g : Graph) (index : Index) (p : Place) (name : String) (isStatic : Bool) : Prop :=
  isStatic = true ∨ (∃ scope ∈ p.scopes, g.realIn name scope ≠ none) ∨
    ∃ owner, p.types.head? = some owner ∧
      ∃ type ∈ owner :: index.superTypesOf owner, g.realOf index name type ≠ none

/-- The link of a usage of a graph goes to a made-up field that gets before what the usage should mean. -/
inductive Astray (start g : Graph) (index : Index) (usage : NodeId) : Option NodeId → Prop where
  /-- A reference means a made-up field of a record around it. -/
  | haunted {p : Place} {name : String} {d : NodeId} {isStatic : Bool}
    (hpayload : g.payload? usage = some (.reference (some d) isStatic)) (hstands : g.Stands p usage)
    (hname : g.name? usage = some name) (hprovided : g.Provided index p name isStatic)
    (hhaunts : g.Haunts name p.scopes d) : Astray start g index usage (some d)
  /-- A reference means a made-up field of a supertype of the record around it. -/
  | inherited {p : Place} {name : String} {type : Descriptor} {d : NodeId} {isStatic : Bool}
    (hpayload : g.payload? usage = some (.reference (some d) isStatic)) (hstands : g.Stands p usage)
    (hname : g.name? usage = some name) (htype : p.types.head? = some type)
    (hovertaken : g.Overtaken index name type d) : Astray start g index usage (some d)
  /-- The member of an access is a made-up field of a supertype of the base. -/
  | member {base : NodeId} {stub : Option NodeId} {name : String} {d : NodeId}
    (hpayload : start.payload? usage = some (.memberAccess base stub))
    (hname : g.name? usage = some name)
    (hovertaken : g.Overtaken index name (start.typeOf base).type d) :
    Astray start g index usage (some d)

/-- If a member access of a graph is one on a reference of a type that no enumeration declares, then the
name of the record for this type spells it, and only forms of the type are observed on the declaration
of the base. -/
def KeepsType (start g : Graph) (index : Index) (usage base : NodeId) : Prop :=
  ∀ type name, start.Accesses usage type name → index.enum? type = none →
    ∃ record, index.record? type = some record ∧ g.spells .record type record = true ∧
      g.OnlyForms type base

/-- A type is kept in terms of the record of the type. -/
theorem KeepsType.of_record {start g : Graph} {index : Index} {usage base record : NodeId}
    {stub : Option NodeId} {type : Descriptor} {old : NodeId}
    (hstart : start.payload? usage = some (.memberAccess old stub) ∧ (start.typeOf old).type = type)
    (h : index.record? type = some record ∧ g.spells .record type record = true ∧
      (g.belief? base).all (fun b => b.observed.types.all (· == type)) = true) :
    start.KeepsType g index usage base := by
  rintro other name ⟨base', member, belief, hpayload, -, -, hbelief, rfl⟩ -
  obtain ⟨rfl, -⟩ := Payload.memberAccess.inj (Option.some.inj (hstart.1.symm.trans hpayload))
  obtain rfl : belief.type.type = type := by rw [← hstart.2, typeOf, hbelief]
  refine ⟨record, h.1, h.2.1, fun b hb u hu => Or.inl ?_⟩
  have hall := h.2.2
  rw [hb] at hall
  exact beq_iff_eq.mp (List.all_eq_true.mp hall u hu)

/-- The member of an access on something whose type has no supertypes does not go astray. -/
theorem not_astray_of_superTypesOf {start g : Graph} {index : Index} {usage base base' : NodeId}
    {stub member : Option NodeId} (hstart : start.payload? usage = some (.memberAccess base stub))
    (hpayload : g.payload? usage = some (.memberAccess base' member))
    (hsupers : index.superTypesOf (start.typeOf base).type = []) :
    ¬ start.Astray g index usage member := by
  rintro (⟨hreference, -⟩ | ⟨hreference, -⟩ | ⟨haccess, -, hovertaken⟩)
  · cases hpayload.symm.trans hreference
  · cases hpayload.symm.trans hreference
  · obtain ⟨rfl, -⟩ := Payload.memberAccess.inj (Option.some.inj (hstart.symm.trans haccess))
    obtain ⟨inner, super, outer, _, _, hsplit, -⟩ := hovertaken.super
    rw [hsupers] at hsplit
    cases inner <;> cases hsplit

/-- A node is the base or the member of an access. -/
def IsOperand (g : Graph) (id : NodeId) : Prop :=
  ∃ access, g.tag? access = some .memberAccess ∧ id ∈ g.parts access

end Graph

namespace Resolver

/-- The field for a member of a type, also of an unknown one. -/
def realMember (r : Resolver) (owner : Descriptor) (name : String) : Option NodeId :=
  (r.memberOf owner name).or (r.ownField name owner)

/-- The sense of a member of a type. -/
def memberSense (r : Resolver) (owner : Descriptor) (name : String) : Sense :=
  .orMadeUp (r.realMember owner name)

/-- The sense of a reference at a place. -/
def referenceSense (r : Resolver) (p : Place) (name : String) (isStatic : Bool) : Sense :=
  match (p.scopes.flatMap r.graph.declaredIn).find? (r.graph.isNamed name), p.types.head? with
  | some d, _ => .written d
  | none, some owner => if isStatic then .nothing else r.memberSense owner name
  | none, none => .nothing

/-- The sense of the base of an access that is a reference of a type. -/
def baseSense (r : Resolver) (type : Descriptor) : Sense :=
  .orMadeUp ((r.index.enum? type).or ((r.index.record? type).bind r.graph.selfOf))

/-- The sense of the member of an access on a reference of a type. -/
def accessSense (r : Resolver) (type : Descriptor) (name : String) : Sense :=
  match r.index.enum? type with
  | some enum => .orNothing ((r.graph.entriesOf enum).find? (r.graph.isNamed name))
  | none => r.memberSense type.heard name

namespace Run

variable {g : Graph} {t₀ t : ScopeTable} {index : Index} {V₀ V done done' : List NodeId}
  {r r₁ r₂ r₃ q q' : Resolver} {id base base' field : NodeId} {p : Place} {name : String}
  {isStatic : Bool} {type owner : Descriptor} {target member member' : Option NodeId}

section

variable (run : Run g t₀ index V₀ V r) (raw : g.Raw)

include run raw

/-- A node that was there at the start was written. -/
theorem bears_of_lt {d : NodeId} (hlt : d < g.size) : r.graph.Bears (.written d) (some d) :=
  .written ((run.runs.reaches run.start).2.graph.isWritten raw hlt)

/-! ## Fields -/

/-- A written field is found at the start. -/
theorem bears_realOf {d : NodeId} (hreal : r.graph.realOf r.index name type = some d) :
    r.graph.Bears (.written d) (some d) := by
  rw [run.realOf_eq raw] at hreal
  exact run.bears_of_lt raw (Graph.lt_size_of_tag? (run.start.ownField_spec hreal).1)

/-- The sense of a member, in terms of the fields that are written in the end. -/
theorem memberSense_eq (owner : Descriptor) (name : String) :
    (⟨g, index⟩ : Resolver).memberSense owner name = .orMadeUp
      ((((⟨g, index⟩ : Resolver).lineage owner).findSome? (r.graph.realOf r.index name)).or
        (r.graph.realOf r.index name owner)) := by
  rw [memberSense, realMember, memberOf, run.realOf_eq raw]
  congr 3
  funext type
  exact (run.realOf_eq raw name type).symm

/-- The sense of a member of a known type. -/
theorem memberSense_of_known (hknown : owner.isUnknown = false) (name : String) :
    (⟨g, index⟩ : Resolver).memberSense owner name = .orMadeUp
      (((owner :: index.superTypesOf owner).findSome? (r.graph.realOf r.index name)).or
        (r.graph.realOf r.index name owner)) := by
  rw [run.memberSense_eq raw, lineage_eq (.refl g.size [] _) hknown]

section

variable (hbefore : Step g.size done ⟨g, index⟩ q)

include hbefore

/-- What is found among the fields of a known type and its supertypes.

**Proof sketch.** If the type has a record, there are four cases of what is meant: a real field of its own, an
inherited one, one that was overtaken, or a made-up one. The sense that the documents give is a search through
the same types for real fields, so it agrees but in the third case. A type without a record has no supertypes,
and what is found is made up. -/
theorem bears_memberOf (sound : q.Sound) (hafter : Step g.size done' q r) (hknown : owner.isUnknown = false)
    (hfound : q.memberOf owner name = some field) :
    r.graph.Bears ((⟨g, index⟩ : Resolver).memberSense owner name) (some field) ∨
      r.graph.Overtaken r.index name owner field := by
  rw [run.memberSense_of_known raw hknown, List.findSome?_cons]
  cases hrecord : index.record? owner with
  | some record =>
    cases run.meansField_of_memberOf raw hbefore sound hafter hknown hrecord hfound with
    | own hown =>
      rw [hown]
      exact Or.inl (run.bears_realOf raw hown)
    | inherited hown hsupers hinner hsuper =>
      rw [hown, List.findSome?_eq_some_iff.mpr ⟨_, _, _, hsupers, hsuper, hinner⟩]
      exact Or.inl (run.bears_realOf raw hsuper)
    | overtaken hown hsupers hinner hsuper hnearer hmade =>
      have hsupers' := ((run.runs.reaches run.start).2.superTypesOf owner).trans hsupers
      exact Or.inr ⟨hknown, hown, _, _, _, _, _, hsupers', hinner, hsuper, hnearer, hmade⟩
    | standIn hnone _ hmade =>
      obtain ⟨hown, hsupers⟩ := List.forall_mem_cons.mp hnone
      rw [hown, List.findSome?_eq_none_iff.mpr hsupers]
      exact Or.inl (.madeUp hmade.isMadeUp)
  | none =>
    -- a type without a record has no supertypes
    have hsupers := run.start.superTypes owner hrecord
    have hown : r.graph.realOf r.index name owner = none := by
      rw [run.realOf_eq raw, ownField, hrecord]
      rfl
    rw [memberOf, lineage_eq hbefore hknown, hsupers, List.findSome?_cons] at hfound
    rw [hsupers, hown]
    cases hq : q.ownField name owner with
    | none =>
      rw [hq] at hfound
      cases hfound
    | some found =>
      rw [hq, Option.some.injEq] at hfound
      subst hfound
      exact Or.inl (.madeUp (madeUpFor_of_ownField sound hafter hq hown).isMadeUp)

/-- What is found after it was made up for a known type. -/
theorem bears_ownField (sound' : q'.Sound) (hafter : Step g.size done' q' r)
    (hknown : owner.isUnknown = false) (hmissing : q.memberOf owner name = none)
    (hown : q'.ownField name owner = some field) :
    r.graph.Bears ((⟨g, index⟩ : Resolver).memberSense owner name) (some field) := by
  obtain ⟨hreal, hsupers⟩ := List.forall_mem_cons.mp (run.realOf_eq_none raw hbefore hknown hmissing)
  rw [run.memberSense_of_known raw hknown, List.findSome?_cons, hreal,
    List.findSome?_eq_none_iff.mpr hsupers]
  exact .madeUp (madeUpFor_of_ownField sound' hafter hown hreal).isMadeUp

variable (sound : q.Sound) (sound' : q'.Sound) (during : Step g.size [] q q')
  (hafter : Step g.size done' q' r)

include sound sound' during hafter

/-- What is found for an unknown type. -/
theorem bears_unknown (hknown : owner.isUnknown = true) (hown : q'.ownField name owner = some field) :
    r.graph.Bears ((⟨g, index⟩ : Resolver).memberSense owner name) (some field) := by
  have hlineage : (⟨g, index⟩ : Resolver).lineage owner = [] := if_pos hknown
  rw [run.memberSense_eq raw, hlineage]
  cases hreal : r.graph.realOf r.index name owner with
  | some d =>
    have hmoment := hbefore.trans run.start sound (during.weaken (List.nil_subset _))
    rw [run.ownField_of_realOf raw hmoment hreal, Option.some.injEq] at hown
    exact hown ▸ run.bears_realOf raw hreal
  | none => exact .madeUp (madeUpFor_of_ownField sound' hafter hown hreal).isMadeUp

/-- **Which field is found** for a member of a type: the written one, or a made-up one where none was
written, or a made-up one that overtakes it. -/
theorem bears_field (hfound : q.memberOf owner name = some field ∨
      q.memberOf owner name = none ∧ q'.ownField name owner = some field) :
    r.graph.Bears ((⟨g, index⟩ : Resolver).memberSense owner name) (some field) ∨
      r.graph.Overtaken r.index name owner field := by
  cases hknown : owner.isUnknown with
  | true =>
    rcases hfound with hmember | ⟨-, hown⟩
    · cases (q.memberOf_of_isUnknown name hknown).symm.trans hmember
    · exact Or.inl (run.bears_unknown raw hbefore sound sound' during hafter hknown hown)
  | false =>
    rcases hfound with hmember | ⟨hmissing, hown⟩
    · have hlater := (during.weaken (List.nil_subset _)).trans sound sound' hafter
      exact run.bears_memberOf raw hbefore sound hlater hknown hmember
    · exact Or.inl (run.bears_ownField raw hbefore sound' hafter hknown hmissing hown)

end

/-- **The member of an access** on something that is no enumeration. -/
theorem bears_means (hbefore : Step g.size done ⟨g, index⟩ q) (sound : q.Sound) (sound' : q'.Sound)
    (during : Step g.size [] q q') (hafter : Step g.size done' q' r)
    (hmeans : q.Means base name q' member) (hbase : q.graph.tag? base ≠ some .enum) :
    ∃ field, member = some field ∧ (r.graph.Bears
      ((⟨g, index⟩ : Resolver).memberSense (q.graph.typeOf base).type name) member ∨
        r.graph.Overtaken r.index name (q.graph.typeOf base).type field) := by
  cases hmeans with
  | constant henum => exact absurd henum hbase
  | found _ hmember =>
    exact ⟨_, rfl, run.bears_field raw hbefore sound sound' during hafter (Or.inl hmember)⟩
  | standIn _ hmissing hown _ =>
    exact ⟨_, rfl, run.bears_field raw hbefore sound sound' during hafter (Or.inr ⟨hmissing, hown⟩)⟩

end

/-! ## References -/

section

variable (run : Run g t₀ index V₀ V r) (hg : g.Sprouting []) (hp : g.Stands p id)

include run hg hp

/-- What is written in a scope around a node. -/
theorem realIn_eq_find? {scope : NodeId} (hscope : scope ∈ p.scopes) :
    r.graph.realIn name scope = (g.declaredIn scope).find? (g.isNamed name) := by
  obtain ⟨q, tag, -, htag, hopens⟩ := hp.exists_opens hscope
  have hk := Tag.isExpression_of_opens? hopens
  exact (run.runs.reaches run.start).2.graph.realIn_eq hg.raw run.start.wellFormed
    run.sound.wellFormed htag hk

/-- What is declared by a name in the scopes around a node is what is written there in the end. -/
theorem find?_declaredIn (name : String) : (p.scopes.flatMap g.declaredIn).find? (g.isNamed name) =
    p.scopes.findSome? (r.graph.realIn name) := by
  rw [List.find?_flatMap, ← List.head?_filterMap, ← List.head?_filterMap]
  exact congrArg List.head? (List.filterMap_congr fun scope hscope => (run.realIn_eq_find? hg hp hscope).symm)

/-- A reference in a record is provided for unless it should mean something made up.

**Proof sketch.** If something of the name is written in a scope around, this is provided. If not, there is a
record around the reference, and if neither it nor a supertype had a field of the name, the sense of the
reference would be something made up. -/
theorem provided {scope : NodeId} (hscope : scope ∈ p.scopes) (hrecord : g.tag? scope = some .record)
    (hsense : (⟨g, index⟩ : Resolver).referenceSense p name isStatic ≠ .madeUp) :
    r.graph.Provided r.index p name isStatic := by
  cases isStatic with
  | true => exact Or.inl rfl
  | false =>
    refine Or.inr ?_
    cases hlexical : (p.scopes.flatMap g.declaredIn).find? (g.isNamed name) with
    | some d =>
      rw [run.find?_declaredIn hg hp] at hlexical
      obtain ⟨around, haround, hfound⟩ := List.exists_of_findSome?_eq_some hlexical
      exact Or.inl ⟨around, haround, by rw [hfound]; exact Option.some_ne_none d⟩
    | none =>
      obtain ⟨owner, howner⟩ := hp.exists_type hscope hrecord
      refine Or.inr ⟨owner, howner, ?_⟩
      by_contra! hnone
      -- no written field is found then
      have hown : ∀ type ∈ owner :: index.superTypesOf owner,
          (⟨g, index⟩ : Resolver).ownField name type = none := fun type htype => by
        rw [← run.realOf_eq hg.raw]
        refine hnone type ?_
        rwa [(run.runs.reaches run.start).2.superTypesOf]
      have hlineage : (⟨g, index⟩ : Resolver).lineage owner ⊆ owner :: index.superTypesOf owner := by
        unfold lineage
        split
        · exact List.nil_subset _
        · exact List.Subset.refl _
      have hmember : (⟨g, index⟩ : Resolver).realMember owner name = none := by
        rw [realMember, hown owner List.mem_cons_self, Option.or_none, memberOf]
        exact List.findSome?_eq_none_iff.mpr fun type htype => hown type (hlineage htype)
      refine hsense ?_
      simp only [referenceSense, hlexical, howner, memberSense, hmember]
      rfl

variable (hstands : r.graph.Stands p id) (hname : r.graph.name? id = some name)

include hstands hname

/-- A reference that means a made-up field of a record around it. -/
theorem bears_haunted {d : NodeId} (hpayload : r.graph.payload? id = some (.reference (some d) isStatic))
    (hhaunts : r.graph.Haunts name p.scopes d) :
    r.graph.Bears ((⟨g, index⟩ : Resolver).referenceSense p name isStatic) (some d) ∨
      g.Astray r.graph r.index id (some d) := by
  have ⟨record, hrecord, hfield, _, hmade⟩ := hhaunts
  by_cases hsense : (⟨g, index⟩ : Resolver).referenceSense p name isStatic = .madeUp
  · rw [hsense]
    exact Or.inl (.madeUp hmade)
  · obtain ⟨-, tag, -, htag, -⟩ := hp.exists_opens hrecord
    have hend := (run.runs.reaches run.start).2.graph.tag? htag
    obtain rfl := Option.some.inj (hend.symm.trans (Graph.tag?_of_mem_fieldsOf hfield))
    exact Or.inr (.haunted hpayload hstands hname (run.provided hg hp hrecord htag hsense) hhaunts)

variable (moment : Reference g t₀ index r name isStatic target p t r₁ r₂)
  (hpayload : r.graph.payload? id = some (.reference target isStatic))

include moment hpayload

/-- A reference to something that is written in a scope around it. -/
theorem bears_lexical {d : NodeId}
    (hlexical : (p.scopes.flatMap g.declaredIn).find? (g.isNamed name) = some d) :
    r.graph.Bears ((⟨g, index⟩ : Resolver).referenceSense p name isStatic) target ∨
      g.Astray r.graph r.index id target := by
  have hfound := hlexical
  rw [run.find?_declaredIn hg hp] at hfound
  obtain ⟨inner, scope, outer, hscopes, hreal, hinner⟩ := List.findSome?_eq_some_iff.mp hfound
  rcases run.target_of_realIn hg hp moment hscopes hinner hreal with
    rfl | ⟨field, rfl, record, hrecord, hhaunts⟩
  · obtain ⟨node, hnode, -⟩ := Graph.exists_node_of_name? (Graph.isNamed_iff.mp (List.find?_some hlexical))
    simp only [referenceSense, hlexical]
    exact Or.inl (run.bears_of_lt hg.raw (Graph.lt_size hnode))
  · exact run.bears_haunted hg hp hstands hname hpayload
      ⟨record, hscopes ▸ List.mem_append_left _ hrecord, hhaunts⟩

/-- A reference to nothing that is written in a scope around it.

**Proof sketch.** By the way in which the reference was resolved. If it was found lexically after all, this is
a made-up field inside one of the scopes, and the reference is astray. If a member was found or made up for
the record around it, this bears the sense of the member, or the member was overtaken. Nothing was found only
outside of records or for a static name, where the sense is empty too. -/
theorem bears_missing (hlexical : (p.scopes.flatMap g.declaredIn).find? (g.isNamed name) = none) :
    r.graph.Bears ((⟨g, index⟩ : Resolver).referenceSense p name isStatic) target ∨
      g.Astray r.graph r.index id target := by
  cases moment.finds with
  | lexical hseen =>
    have hmissing := hlexical
    rw [run.find?_declaredIn hg hp, List.findSome?_eq_none_iff] at hmissing
    rw [run.find?_seen moment] at hseen
    exact run.bears_haunted hg hp hstands hname hpayload
      (run.haunts_of_find? hg hp moment (List.Subset.refl _) hmissing hseen)
  | @member owner field _ _ _ htype hstatic _ hfinds =>
    obtain ⟨done, hbefore⟩ := moment.before
    obtain ⟨done', hafter⟩ := moment.after
    have hfound : r₁.memberOf owner name = some field ∨
        r₁.memberOf owner name = none ∧ r₂.ownField name owner = some field := by
      cases hfinds with
      | found hmember => exact Or.inl hmember
      | standIn hmissing _ hown _ => exact Or.inr ⟨hmissing, hown⟩
    have hsense : (⟨g, index⟩ : Resolver).referenceSense p name isStatic =
        (⟨g, index⟩ : Resolver).memberSense owner name := by
      simp only [referenceSense, hlexical, htype, hstatic]
      rfl
    rw [hsense]
    refine (run.bears_field hg.raw hbefore moment.sound moment.sound' moment.during hafter hfound).imp_right
      fun hovertaken => ?_
    exact .inherited hpayload hstands hname htype hovertaken
  | nothing _ hno =>
    left
    simp only [referenceSense, hlexical]
    cases htype : p.types.head? with
    | none => exact .nothing
    | some owner =>
      cases hstatic : isStatic with
      | true => exact .nothing
      | false =>
        -- a reference in a record that is not static means something
        obtain ⟨around, haround, hspells⟩ := hp.exists_record htype
        obtain ⟨node, hnode, hrecord, -⟩ := Graph.spells_iff.mp hspells
        obtain ⟨d, hd⟩ := run.exists_target hp moment hstatic haround
          ((Graph.tag?_eq hnode).trans (congrArg some hrecord))
        cases hd

/-- **What a reference means.** -/
theorem bears_reference : r.graph.Bears ((⟨g, index⟩ : Resolver).referenceSense p name isStatic) target ∨
    g.Astray r.graph r.index id target := by
  cases hlexical : (p.scopes.flatMap g.declaredIn).find? (g.isNamed name) with
  | some d => exact run.bears_lexical hg hp hstands hname moment hpayload hlexical
  | none => exact run.bears_missing hg hp hstands hname moment hpayload hlexical

end

/-! ## Accesses on references -/

section

variable (usage : Usage g index r type name base member r₁ r₂ r₃)

include usage

/-- The stand-in for a base is a field of the record of the type. -/
theorem Usage.mem_fieldsOf (henum : index.enum? type = none) :
    ∃ record, r₂.index.record? type = some record ∧ base ∈ r₂.graph.fieldsOf record := by
  obtain ⟨done, hbefore⟩ := usage.before
  obtain ⟨o, baseName, rfl, hfinds⟩ := usage.finds
  cases hfinds with
  | enum hfound => rw [hbefore.enum?, henum] at hfound; cases hfound
  | self _ hrecord hself =>
    obtain ⟨self, hself', hmem, -⟩ :=
      usage.sound.wellFormed.typed.exists_selfOf (usage.sound.records _ _ hrecord)
    obtain rfl := Option.some.inj (hself.symm.trans hself')
    exact ⟨_, hrecord, hmem⟩
  | standIn _ _ _ hown =>
    obtain ⟨record, hrecord, hfound⟩ := Sound.exists_record hown
    exact ⟨record, hrecord, (Graph.mem_of_fieldOf hfound).1⟩

variable (run : Run g t₀ index V₀ V r) (raw : g.Raw)

include run raw

/-- **What the base of an access means.**

**Proof sketch.** If the type is that of an enumeration or of a record of the graph, the base is the
enumeration or the field that stands for the record. Otherwise it is a field of the record for the type that
the run made up, and so it was made up itself. -/
theorem Usage.bears_base : r.graph.Bears ((⟨g, index⟩ : Resolver).baseSense type) (some base) := by
  unfold baseSense
  cases henum : index.enum? type with
  | some enum =>
    obtain ⟨rfl, -⟩ := usage.eq_of_enum henum
    exact run.bears_of_lt raw (Graph.lt_size_of_tag? (run.start.enums _ _ henum))
  | none =>
    cases hrecord : index.record? type with
    | some record =>
      have hself := (usage.selfOf run.start henum hrecord).1
      obtain ⟨self, hself', hmem, -⟩ :=
        run.start.wellFormed.typed.exists_selfOf (run.start.records _ _ hrecord)
      obtain rfl := Option.some.inj (hself.symm.trans hself')
      change r.graph.Bears (.orMadeUp (g.selfOf record)) _
      rw [hself]
      exact run.bears_of_lt raw (run.start.wellFormed.typed.all_fieldsOf.lt_size hmem)
    | none =>
      obtain ⟨done, hbefore⟩ := usage.before
      obtain ⟨done', hafter⟩ := usage.after
      have hmoment := hbefore.trans run.start usage.sound (usage.during.weaken (List.nil_subset _))
      obtain ⟨own, hown, hmem⟩ := usage.mem_fieldsOf henum
      have hle : g.size ≤ own := (hmoment.made _ _ hown).resolve_left (by simp [hrecord])
      have hlater := usage.during'.graph.trans hafter.graph
      have hlt := usage.sound'.wellFormed.typed.all_fieldsOf.lt_size hmem
      exact .madeUp ((run.runs.reaches run.start).2.graph.isMadeUp
        (hmoment.graph.le_of_mem_parts hle (Graph.mem_parts_of_mem_fieldsOf hmem))
        (Nat.lt_of_lt_of_le hlt hlater.size))

/-- **What the member of an access on an enumeration means.** -/
theorem Usage.bears_constant {enum : NodeId} (henum : index.enum? type = some enum) :
    r.graph.Bears ((⟨g, index⟩ : Resolver).accessSense type name) member := by
  obtain ⟨rfl, rfl⟩ := usage.eq_of_enum henum
  have hgrows := (run.runs.reaches run.start).2.graph
  have hlt : ∀ constant ∈ g.entriesOf base, constant < g.size :=
    fun _ hconstant => run.start.wellFormed.typed.all_entriesOf.lt_size hconstant
  rw [hgrows.entriesOf (run.start.enums _ _ henum), hgrows.find?_isNamed hlt]
  simp only [accessSense, henum]
  cases hfound : (g.entriesOf base).find? (g.isNamed name) with
  | none => exact .nothing
  | some constant => exact run.bears_of_lt raw (hlt constant (List.mem_of_find?_eq_some hfound))

/-- **What the member of an access means,** if its base keeps its type.

**Proof sketch.** If the type is that of an enumeration, the member is a constant. Otherwise the base keeps
the type until the member is looked up, so that the member is a field that the record of this type has, or a
made-up one, unless another type was known by then and its field overtook. -/
theorem Usage.bears_member (haccess : g.Accesses id type name) (hkeeps : g.KeepsType r.graph r.index id base) :
    r.graph.Bears ((⟨g, index⟩ : Resolver).accessSense type name) member ∨
      ∃ field, member = some field ∧ r.graph.Overtaken r.index name type field := by
  have hstep := (run.runs.reaches run.start).2
  cases henum : index.enum? type with
  | some enum => exact Or.inl (usage.bears_constant run raw henum)
  | none =>
    simp only [accessSense, henum]
    obtain ⟨done, hbefore⟩ := usage.before
    obtain ⟨done', hafter⟩ := usage.after
    obtain ⟨record, hrecord, hspells, hforms⟩ := hkeeps type name haccess (by rw [hstep.enum?, henum])
    have htype := usage.typeOf raw.selvesBegan henum hrecord hspells hforms
    have hmoment := hbefore.trans run.start usage.sound (usage.during.weaken (List.nil_subset _))
    obtain ⟨field, hmember, hfield⟩ := run.bears_means raw hmoment usage.sound' usage.sound''
      usage.during' hafter usage.means (by rw [usage.tag?_base henum]; simp)
    rw [htype] at hfield
    refine hfield.imp_right fun hovertaken => ⟨field, hmember, ?_⟩
    -- unknown types have no supertypes
    have hheard : type.heard = type := by
      unfold Descriptor.heard
      split
      · next hunknown =>
        have hknown := hovertaken.known
        rw [Descriptor.heard, if_pos hunknown] at hknown
        cases hknown
      · rfl
    rwa [hheard] at hovertaken

end

/-! ## Accesses on other expressions -/

/-- The name of an access is the one of its member. -/
theorem exists_stub (hg : g.Sprouting []) (hpayload : g.payload? id = some (.memberAccess base member))
    (hname : g.name? id = some name) :
    ∃ stub, member = some stub ∧ g.tag? stub = some .reference ∧ g.name? stub = some name := by
  obtain ⟨node, hnode, heq⟩ := Graph.exists_node_of_payload? hpayload
  have hraw := hg.raw.payload id node hnode
  have hfits := hg.wellFormed.typed.nodes id node hnode
  rw [heq] at hraw hfits
  obtain ⟨stub, rfl, hstub⟩ := hraw
  obtain rfl := Option.some.inj ((Graph.name?_eq hnode).symm.trans hname)
  exact ⟨stub, rfl, hstub, (hfits.2 stub rfl).1⟩

/-- **What an access on another expression means.** Its base stays, and keeps its type.

**Proof sketch.** The base is no reference, so it stays. It is no field either, so its type is the one that it
had at the start, and the member is searched for this type. -/
theorem Access.bears_of_stays (moment : Access g t₀ index r id base base' member member' r₁ r₂ r₃)
    (run : Run g t₀ index V₀ V r) (hg : g.Sprouting [])
    (hpayload : g.payload? id = some (.memberAccess base member)) (hname : g.name? id = some name)
    {tag : Tag} (htag : g.tag? base = some tag) (hexpression : tag.isExpression = true)
    (hnot : tag ≠ .reference) :
    base' = base ∧ ∃ field, member' = some field ∧
      (r.graph.Bears ((⟨g, index⟩ : Resolver).memberSense (g.typeOf base).type name) member' ∨
        r.graph.Overtaken r.index name (g.typeOf base).type field) := by
  obtain ⟨before, -, -, hstep⟩ := moment.runs
  obtain ⟨done, hafter⟩ := moment.after
  obtain ⟨stub, rfl, hstub, hstubName⟩ := exists_stub hg hpayload hname
  have hkept := hstep.graph.tag? htag
  have wired := Graph.Orderly.empty.wired.quiet hg.quiet
  have hkind : tag ≠ .field ∧ tag ≠ .reference := by
    refine ⟨?_, hnot⟩
    rintro rfl
    cases hexpression
  have htyped : tag.isTyped = true := by
    rw [Tag.isTyped_eq, hexpression, Bool.or_true]
  obtain ⟨b, hb⟩ := Option.isSome_iff_exists.mp (wired.typed base tag htag htyped)
  cases moment.base with
  | found hreference => exact absurd (Option.some.inj (hkept.symm.trans hreference)) hnot
  | stays _ =>
    have hmeans := moment.member.means (hstep.graph.tag? hstub) (hstep.graph.name? hstubName)
    rw [← wired.typeOf_changes hstep.changes htag hkind hb]
    refine ⟨rfl, run.bears_means hg.raw hstep moment.sound moment.sound'' moment.during' hafter hmeans ?_⟩
    rw [hkept]
    rintro ⟨⟩
    cases hexpression

/-! ## Which references are resolved -/

/-- **The references that are resolved** are those that are no operands of accesses.

**Proof sketch.** If a visited reference were an operand, it would be a part of the access at its visit too,
but the access was settled before and has no references as operands any more. If a reference is no operand,
what it is a part of is no access and keeps its parts, so the walk comes to it. -/
theorem mem_iff_of_reference (run : Run g t₀ index V₀ V r) (hg : g.Sprouting [])
    (hreference : g.tag? id = some .reference) : id ∈ V ↔ ¬ g.IsOperand id := by
  have hgrows := (run.runs.reaches run.start).2.graph
  have tree := run.start.wellFormed.tree
  constructor
  · rintro hid ⟨access, haccess, hpart⟩
    obtain ⟨p, hp⟩ := run.placed id hid
    have hreference' := hgrows.tag? hreference
    cases hp with
    | unit hunit =>
      have htag := run.sound.wellFormed.typed.units.tag_eq hunit
      rw [hreference'] at htag
      cases htag
    | @part _ whole _ _ _ _ hpart' =>
      -- what it is a part of in the end is the access, whose operands are no references
      have hback := (hgrows.mem_parts_back hpart').resolve_right
        (Nat.not_le.mpr (Graph.lt_size_of_tag? hreference))
      obtain rfl := tree.whole_unique id access whole hpart hback
      obtain ⟨node, hnode, htag⟩ := Graph.exists_node_of_tag? (hgrows.tag? haccess)
      rw [Graph.parts_eq hnode] at hpart'
      rw [Node.tag] at htag
      cases hpayload : node.payload with
      | memberAccess base member =>
        rw [hpayload] at hpart'
        have hlinked := (Graph.payload?_eq hnode).trans (congrArg some hpayload)
        refine (run.access (run.mem_of_linked hg hlinked (Or.inl rfl)) hlinked).1 id ?_ hreference'
        exact (List.mem_filter.mp hpart').1
      | _ => rw [hpayload] at htag; cases htag
  · intro hnot
    obtain ⟨p, hp⟩ := hg.stands (Graph.lt_size_of_tag? hreference)
    cases hp with
    | unit hunit =>
      have htag := hg.wellFormed.typed.units.tag_eq hunit
      rw [hreference] at htag
      cases htag
    | @part _ whole _ node above found hpart =>
      have hwhole : node.tag ≠ .memberAccess := fun heq =>
        hnot ⟨whole, (Graph.tag?_eq found).trans (congrArg some heq), hpart⟩
      have hother : node.tag ≠ .reference := by
        intro heq
        rw [Graph.parts_of_reference ((Graph.tag?_eq found).trans (congrArg some heq))] at hpart
        cases hpart
      obtain ⟨node', hnode', -⟩ := hgrows.nodes whole node found
      have hpart' := (hgrows.mem_parts hpart).resolve_right fun hemptied =>
        hwhole (Option.some.inj ((Graph.tag?_eq found).symm.trans hemptied.2))
      exact run.complete _ id ((hgrows.stands_of_tag? above (Graph.tag?_eq found) hother).part hnode' hpart')
        (Graph.lt_size_of_tag? hreference)

end Run

end Resolver

end ProgramGraph
