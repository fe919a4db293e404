import ProgramGraph.Proofs.Building.Documents
import ProgramGraph.Proofs.Resolution.Verdicts

set_option autoImplicit false

/-!
# Right links

Whatever documents a graph was built from, after one resolution all its links are right. A
reference means a value declaration of its name, made in a scope around it or held as a field by the
record around it or by a record for one of its supertypes. The member of an access is a constant of
its base if that is an enumeration, and otherwise a field.

## Main definitions

* `ProgramGraph.Graph.InScope` — a declaration is made in a scope around a usage.
* `ProgramGraph.Graph.InRecordAround` — a declaration is a field for the record around a usage.
* `ProgramGraph.Graph.RightReference`, `ProgramGraph.Graph.RightMember` — right links.

## Main results

* `ProgramGraph.Graph.resolveUsages_right` — all links of the resolved graph are right.
-/

namespace ProgramGraph

namespace Graph

variable {g g' : Graph} {loose : List NodeId} {p q : Place} {id : NodeId} {n : Nat}

/-! ## Right links -/

/-- A declaration is made in the scope of a usage or in a scope around it, in the same unit. -/
def InScope (g : Graph) (usage d : NodeId) : Prop :=
  ∃ p q unit, g.Stands p usage ∧ g.Stands q d ∧ q.scopes ≠ [] ∧ q.scopes <:+ p.scopes ∧
    unit ∈ g.units ∧ p.scopes.getLast? = some unit ∧ q.scopes.getLast? = some unit

/-- A usage lies inside a record whose name spells a type, and a declaration is a field of the
record indexed under this type or under one of its declared supertypes. -/
def InRecordAround (g : Graph) (index : Index) (usage d : NodeId) : Prop :=
  ∃ p around type own, g.Stands p usage ∧ around ∈ p.scopes ∧ g.spells .record type around = true ∧
    index.record? type = some own ∧ ∃ declared holder,
      (declared = type ∨ declared ∈ g.superTypesOf own) ∧ index.record? declared = some holder ∧
        d ∈ g.fieldsOf holder

/-- A reference means a declaration that it can mean. -/
structure RightReference (g : Graph) (index : Index) (usage d : NodeId) (isStatic : Bool) : Prop where
  /-- The declaration is one of a value. -/
  value : g.All Tag.isValueDeclaration [d]
  /-- It has the name of the reference. -/
  name : ∃ name, g.name? usage = some name ∧ g.name? d = some name
  /-- It can be seen, or it belongs to the record around the reference. -/
  origin : g.InScope usage d ∨ isStatic = false ∧ g.InRecordAround index usage d

/-- The member of an access is one of its base. -/
structure RightMember (g : Graph) (usage base member : NodeId) : Prop where
  /-- The member has the name of the access. -/
  name : ∃ name, g.name? usage = some name ∧ g.name? member = some name
  /-- The member of an enumeration is one of its constants. -/
  constant : g.tag? base = some .enum →
    g.tag? member = some .enumConstant ∧ member ∈ g.entriesOf base
  /-- Any other member is a field. -/
  field : g.tag? base ≠ some .enum → g.tag? member = some .field

/-! ## Places -/

/-- Only units have no scope around them. -/
theorem Stands.mem_units (typed : g.WellTyped) (h : g.Stands p id) (hnone : p.scopes = []) :
    id ∈ g.units := by
  induction h with
  | unit hunit => exact hunit
  | @part p whole part node _ found _ ih =>
    by_cases hopens : node.tag.opens?.isSome
    · rw [Place.scopes_enter_of_opens? hopens] at hnone
      exact absurd hnone (List.cons_ne_nil _ _)
    · rw [Place.enter_of_opens?_eq_none (by simpa using hopens)] at hnone
      have htag := typed.units.tag_eq (ih hnone)
      rw [tag?_eq found, Option.some.injEq] at htag
      exact absurd (by rw [htag]; rfl) hopens

/-- The outermost scope around a node is a unit. -/
theorem Stands.exists_unit (typed : g.WellTyped) (h : g.Stands p id) (hsome : p.scopes ≠ []) :
    ∃ unit ∈ g.units, p.scopes.getLast? = some unit := by
  induction h with
  | unit _ => exact absurd rfl hsome
  | @part p whole part node above found _ ih =>
    by_cases hopens : node.tag.opens?.isSome
    · rw [Place.scopes_enter_of_opens? hopens]
      by_cases hnone : p.scopes = []
      · exact ⟨whole, above.mem_units typed hnone, by rw [hnone]; rfl⟩
      · obtain ⟨unit, hunit, hlast⟩ := ih hnone
        exact ⟨unit, hunit, by rw [List.getLast?_cons, hlast]; rfl⟩
    · have heq : p.enter whole node = p := Place.enter_of_opens?_eq_none (by simpa using hopens)
      rw [heq] at hsome ⊢
      exact ih hsome

/-- The innermost record type around a node is spelled by a record around it. -/
theorem Stands.exists_record (h : g.Stands p id) {type : Descriptor}
    (htype : p.types.head? = some type) : ∃ around ∈ p.scopes, g.spells .record type around = true := by
  induction h with
  | unit _ => exact absurd htype (by simp)
  | @part p whole part node _ found _ ih =>
    by_cases hrecord : node.tag = .record
    · have hopens : node.tag.opens?.isSome := by rw [hrecord]; rfl
      rw [Place.enter, if_pos hrecord, List.head?_cons, Option.some.injEq] at htype
      refine ⟨whole, ?_, spells_iff.mpr ⟨node, found, hrecord, htype⟩⟩
      rw [Place.scopes_enter_of_opens? hopens]
      exact List.mem_cons_self ..
    · rw [Place.enter, if_neg hrecord] at htype
      obtain ⟨around, haround, hspells⟩ := ih htype
      refine ⟨around, ?_, hspells⟩
      unfold Place.enter
      split
      · exact List.mem_cons_of_mem _ haround
      · exact haround

/-- **What is declared in a scope around a usage** is declared in the same unit. -/
theorem Stands.inScope (wf : g.WellFormed loose) {d scope : NodeId} (hp : g.Stands p id)
    (hq : g.Stands q d) (hhead : q.scopes.head? = some scope) (hscope : scope ∈ p.scopes) :
    g.InScope id d := by
  obtain ⟨scopes, hscopes⟩ : ∃ scopes, q.scopes = scope :: scopes := by
    cases hcases : q.scopes with
    | nil => simp [hcases] at hhead
    | cons first rest =>
      rw [hcases] at hhead
      exact ⟨rest, by rw [Option.some.inj hhead]⟩
  have hself : scope :: scopes <:+ q.scopes := hscopes ▸ List.suffix_refl q.scopes
  obtain ⟨q', hq', rfl, -⟩ := hq.outer hself
  have hsuffix : q.scopes <:+ p.scopes := hscopes ▸ hp.scopes_eq wf.tree hq' hscope
  have hsome : q.scopes ≠ [] := by rw [hscopes]; exact List.cons_ne_nil _ _
  obtain ⟨unit, hunit, hlast⟩ := hq.exists_unit wf.typed hsome
  refine ⟨p, q, unit, hp, hq, hsome, hsuffix, hunit, ?_, hlast⟩
  obtain ⟨inner, hinner⟩ := hsuffix
  rw [← hinner, List.getLast?_append, hlast]
  rfl

/-- Records keep their supertypes. -/
theorem Grows.superTypesOf (h : g.Grows n g') (hid : g.tag? id = some .record) :
    g'.superTypesOf id = g.superTypesOf id := by
  obtain ⟨body, hbody⟩ := exists_record_of_tag? hid
  obtain ⟨new, hnew, -⟩ := h.record hbody
  simp only [Graph.superTypesOf, hbody, hnew]

end Graph

namespace Resolver.Run

variable {g : Graph} {t₀ : ScopeTable} {index : Index} {V₀ V : List NodeId} {r : Resolver}
  {id : NodeId}

/-- A field for a member of a type, seen from the end of a run: it is a field of a record that is
indexed under the type or under one of its declared supertypes.

**Proof sketch.** The lineage of a type consists of the type and of the supertypes that the record of the type
declared when the run began. These are the supertypes of the record in the end. -/
theorem mem_fieldsOf (run : Run g t₀ index V₀ V r) {owner type : Descriptor} {name : String}
    {field own : NodeId} (hown : r.index.record? owner = some own)
    (htype : type = owner ∨ type ∈ r.lineage owner) (hfield : r.ownField name type = some field) :
    ∃ declared holder, (declared = owner ∨ declared ∈ r.graph.superTypesOf own) ∧
      r.index.record? declared = some holder ∧ field ∈ r.graph.fieldsOf holder := by
  have hstep := (run.runs.reaches run.start).2
  obtain ⟨holder, hholder, hfieldOf⟩ := Sound.exists_record hfield
  refine ⟨type, holder, ?_, hholder, (Graph.mem_of_fieldOf hfieldOf).1⟩
  refine htype.elim Or.inl fun hlineage => ?_
  unfold lineage at hlineage
  split at hlineage
  · exact absurd hlineage List.not_mem_nil
  · refine (List.mem_cons.mp hlineage).imp_right fun hsuper => ?_
    rw [hstep.superTypesOf, run.indexed.superTypes] at hsuper
    cases hold : index.record? owner with
    | none =>
      rw [hold] at hsuper
      exact absurd hsuper List.not_mem_nil
    | some record =>
      obtain rfl := Option.some.inj ((hstep.records _ _ hold).symm.trans hown)
      rw [hold, Option.map_some, Option.getD_some] at hsuper
      rwa [hstep.graph.superTypesOf (run.start.records _ _ hold)]

/-- **A reference** that was visited means a declaration that it can mean.

**Proof sketch.** By the way in which the reference was resolved. What the table shows is declared in one of
the scopes around the reference. A member belongs to the record that is indexed for one of the types of the
line. Both remain so until the end of the run. -/
theorem rightReference (run : Run g t₀ index V₀ V r) (hid : id ∈ V) {d : NodeId} {isStatic : Bool}
    (hpayload : r.graph.payload? id = some (.reference (some d) isStatic)) :
    r.graph.RightReference r.index id d isStatic := by
  obtain ⟨node, hnode, heq⟩ := Graph.exists_node_of_payload? hpayload
  have hfits := run.sound.wellFormed.typed.nodes id node hnode
  rw [heq] at hfits
  obtain ⟨hvalue, hname⟩ := hfits d rfl
  refine ⟨hvalue, ⟨node.name, Graph.name?_eq hnode, hname⟩, ?_⟩
  obtain ⟨p, t, r₁, r₂, hp, moment⟩ := run.reference hid hpayload (Graph.name?_eq hnode)
  obtain ⟨done, hbefore⟩ := moment.before
  obtain ⟨done', hafter⟩ := moment.after
  have hlater := (moment.during.weaken (List.nil_subset done')).trans moment.sound moment.sound' hafter
  cases moment.finds with
  | lexical hseen =>
    left
    obtain ⟨scope, hscope, hd⟩ := List.mem_flatMap.mp (List.mem_of_find?_eq_some hseen)
    obtain ⟨hkind, q, hq, hhead⟩ := moment.more.mem_declarations run.indexed.holds
      run.start.wellFormed hbefore.graph hd
    obtain ⟨tag, htag, hk⟩ := hkind d (List.mem_singleton.mpr rfl)
    refine hp.inScope run.sound.wellFormed (hlater.graph.stands_of_tag? hq htag ?_) hhead hscope
    rintro rfl
    exact absurd hk (by decide)
  | @member owner _ record _ _ htype hstatic hrecord hfinds =>
    refine Or.inr ⟨hstatic, ?_⟩
    obtain ⟨around, haround, hspells⟩ := hp.exists_record htype
    have hown := hlater.records _ _ hrecord
    obtain ⟨type, hlineage, hfield⟩ : ∃ type, (type = owner ∨ type ∈ r.lineage owner) ∧
        r.ownField node.name type = some d := by
      cases hfinds with
      | found hmember =>
        obtain ⟨type, htype, hfield⟩ := List.exists_of_findSome?_eq_some hmember
        exact ⟨type, Or.inr (hlater.lineage owner ▸ htype), hlater.ownField moment.sound hfield⟩
      | standIn _ _ hfield _ => exact ⟨owner, Or.inl rfl, hafter.ownField moment.sound' hfield⟩
    exact ⟨p, around, owner, record, hp, haround, hspells, hown,
      run.mem_fieldsOf hown hlineage hfield⟩

/-- **The member of an access** that was visited is one of its base. -/
theorem rightMember (run : Run g t₀ index V₀ V r) (hid : id ∈ V) {base member : NodeId}
    (hpayload : r.graph.payload? id = some (.memberAccess base (some member))) :
    r.graph.RightMember id base member := by
  obtain ⟨node, hnode, heq⟩ := Graph.exists_node_of_payload? hpayload
  have typed := run.sound.wellFormed.typed
  have hfits := typed.nodes id node hnode
  rw [heq] at hfits
  obtain ⟨hname, hkind⟩ := hfits.2 member rfl
  have hsettled := (run.access hid hpayload).1 member
    (List.mem_cons_of_mem _ (List.mem_singleton.mpr rfl))
  have hmember := (hkind.resolve_left hsettled).2
  refine ⟨⟨node.name, Graph.name?_eq hnode, hname⟩, fun henum => ?_, fun hnot => ?_⟩
  · rw [if_pos henum] at hmember
    exact ⟨typed.all_entriesOf.tag_eq hmember, hmember⟩
  · rwa [if_neg hnot] at hmember

/-- In a raw graph in which everything stands somewhere, whatever was linked was visited. -/
theorem mem_of_linked (run : Run g t₀ index V₀ V r) (hg : g.Sprouting []) {payload : Payload}
    (hpayload : r.graph.payload? id = some payload)
    (hlinked : payload.tag = .memberAccess ∨
      ∃ d isStatic, payload = .reference (some d) isStatic) : id ∈ V := by
  have hkind : payload.tag = .reference ∨ payload.tag = .memberAccess := by
    rcases hlinked with haccess | ⟨d, isStatic, rfl⟩
    · exact Or.inr haccess
    · exact Or.inl rfl
  have hlt := run.lt_size hpayload hkind
  obtain ⟨p, hp⟩ := hg.stands hlt
  rcases hlinked with haccess | ⟨d, isStatic, rfl⟩
  · obtain ⟨node, hnode⟩ := Graph.exists_node hlt
    have hgrows := (run.runs.reaches run.start).2.graph
    have htag := hgrows.tag?_back (Graph.tag?_of_payload? hpayload) (by rw [haccess]; rfl)
    exact run.complete p id (hgrows.stands_of_tag? hp htag (by rw [haccess]; decide)) hlt
  · by_contra hid
    have hold := run.payload?_of_notMem hpayload hkind hid
    obtain ⟨node, hnode, heq⟩ := Graph.exists_node_of_payload? hold
    have hraw := hg.raw.payload id node hnode
    rw [heq] at hraw
    exact absurd hraw (by simp [Payload.IsRaw])

end Resolver.Run

/-- **Right links.** Whatever documents a graph was built from, resolving its usages does not fail,
and afterwards every reference that means something means a declaration that it can mean, and the
member of every access is one of its base.

**Proof sketch.** What is linked at the end was visited in the run, as the documents bring no links with them.
At the moment of the visit the link was right, by the three ways in which a declaration is found. A run only
adds, so what a link could mean then it can mean at the end. -/
theorem Graph.resolveUsages_right (documents : List (String × Document)) :
    ∃ g index, (ofDocuments documents).resolveUsages = .ok (g, index) ∧
      (∀ usage d isStatic, g.payload? usage = some (.reference (some d) isStatic) →
        g.RightReference index usage d isStatic) ∧
      ∀ usage base member, g.payload? usage = some (.memberAccess base (some member)) →
        g.RightMember usage base member := by
  have hg := sprouting_ofDocuments documents
  obtain ⟨r, t₀, index, V₀, V, hresolve, run⟩ := resolveUsages_ok hg.wellFormed
  refine ⟨r.graph, r.index, hresolve, fun usage d isStatic hpayload => ?_,
    fun usage base member hpayload => ?_⟩
  · exact run.rightReference (run.mem_of_linked hg hpayload (Or.inr ⟨d, isStatic, rfl⟩)) hpayload
  · exact run.rightMember (run.mem_of_linked hg hpayload (Or.inl rfl)) hpayload

end ProgramGraph
