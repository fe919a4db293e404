import ProgramGraph.Proofs.Resolution.Members

set_option autoImplicit false

/-!
# Resolving usages

What references and member accesses are resolved to. Neither fails, and each leaves the index right
about the graph.

## Main definitions

* `ProgramGraph.Resolver.FindsBase` — how the declaration for the base of an access is found.

## Main results

* `ProgramGraph.Resolver.Sound.resolveBase` — the declaration for the base of an access.
* `ProgramGraph.Resolver.Sound.settleMember` — the declaration for its member.
* `ProgramGraph.Resolver.Sound.resolveAccess` — a member access.
* `ProgramGraph.Resolver.Sound.findDeclaration` — the declaration a name means.
* `ProgramGraph.Resolver.Sound.resolveReference` — a reference.
-/

namespace ProgramGraph

/-! ## Writing links -/

namespace Graph

variable {g : Graph} {n : Nat} {id base base' : NodeId} {member member' : Option NodeId}
  {name : String}

/-- What takes the place of a reference is no expression. -/
theorem Replaced.sublist {old new : Option NodeId} (h : g.Replaced g old new) :
    (new.toList.filter fun id => (g.tag? id).any Tag.isExpression).Sublist
      (old.toList.filter fun id => (g.tag? id).any Tag.isExpression) := by
  rcases h with rfl | ⟨-, hnone⟩
  · exact List.Sublist.refl _
  · have hnil : (new.toList.filter fun id => (g.tag? id).any Tag.isExpression) = [] := by
      rw [List.filter_eq_nil_iff]
      intro id hid
      obtain ⟨tag, htag, hk⟩ := hnone id (by simpa using hid)
      rw [htag, Option.any_some, hk]
      decide
    rw [hnil]
    exact List.nil_sublist _

/-- What writing base and member of an access keeps. -/
theorem keeps_setAccess (hpayload : g.payload? id = some (.memberAccess base member)) :
    g.Keeps (g.setAccess id base' member') := by
  obtain ⟨node, hnode, heq⟩ := exists_node_of_payload? hpayload
  refine keeps_modifyPayload hnode ?_ fun entries superTypes heq' => ?_
  · rw [heq]
    rfl
  · rw [heq] at heq'
    exact absurd heq' (by simp)

/-- The payload of the access afterwards. -/
theorem payload?_setAccess_self (hpayload : g.payload? id = some (.memberAccess base member)) :
    (g.setAccess id base' member').payload? id = some (.memberAccess base' member') := by
  obtain ⟨node, hnode, heq⟩ := exists_node_of_payload? hpayload
  rw [setAccess, payload?_eq (node?_modifyPayload_self hnode), heq]

/-- The payloads of the other nodes. -/
theorem payload?_setAccess_of_ne {other : NodeId} (h : other ≠ id) :
    (g.setAccess id base' member').payload? other = g.payload? other := by
  rw [setAccess, payload?, node?_modifyPayload_of_ne h, payload?]

/-- **Writing base and member** of an access.

**Proof sketch.** References may fall out of the parts, and nothing comes in, since what takes the place of a
reference is no expression. -/
theorem WellFormed.setAccess (wf : g.WellFormed [])
    (hpayload : g.payload? id = some (.memberAccess base member)) (hname : g.name? id = some name)
    (hbase : g.Replaced g (some base) (some base')) (hmember : g.Replaced g member member')
    (hfits : g.Fits name (.memberAccess base' member')) :
    (g.setAccess id base' member').WellFormed [] ∧ g.Grows n (g.setAccess id base' member') := by
  obtain ⟨node, hnode, heq⟩ := exists_node_of_payload? hpayload
  obtain rfl := Option.some.inj ((name?_eq hnode).symm.trans hname)
  have hkeeps : g.Keeps (g.setAccess id base' member') := keeps_setAccess hpayload
  have hmono : ∀ {old new : Option NodeId}, g.Replaced g old new →
      g.Replaced (g.setAccess id base' member') old new := by
    intro old new h
    rcases h with rfl | ⟨hstub, hnone⟩
    · exact Or.inl rfl
    · refine Or.inr ⟨hstub, fun other hother => ?_⟩
      obtain ⟨tag, htag, hk⟩ := hnone other hother
      exact ⟨tag, hkeeps.tag _ _ htag, hk⟩
  have hunit : node.tag = .unit → node.dummy = true := by
    rw [Node.tag, heq]
    simp [Payload.tag]
  refine ⟨wf.rewrite hnode hkeeps ?_ ?_, .of_modifyPayload hnode hunit ?_⟩
  · rw [heq]
    have hsplit : ∀ (base : NodeId) (member : Option NodeId),
        g.partsOf (.memberAccess base member) =
          ((some base).toList.filter fun id => (g.tag? id).any Tag.isExpression) ++
            member.toList.filter fun id => (g.tag? id).any Tag.isExpression := by
      intro base member
      rw [← List.filter_append]
      rfl
    change (g.partsOf (.memberAccess base' member')).Sublist (g.partsOf (.memberAccess base member))
    rw [hsplit, hsplit]
    exact hbase.sublist.append hmember.sublist
  · rw [heq]
    exact hfits
  · rw [heq]
    exact .memberAccess (hmono hbase) (hmono hmember)

end Graph

namespace Resolver

variable {r r' : Resolver} {owner type : Descriptor} {name : String} {field record : NodeId}
  {n : Nat} {done : List NodeId}

/-! ## Bases -/

/-- How the declaration for a base of a type is found, which has a name: the enumeration or the
record that declares the type, or else a stand-in in the record that is made up for the type. -/
inductive FindsBase (r : Resolver) (o : Observation) (name : String) (base : NodeId) :
    Resolver → Prop where
  /-- The enumeration of the type. -/
  | enum (henum : r.index.enum? o.type = some base) : FindsBase r o name base r
  /-- The field that stands for the record of the type. -/
  | self {record : NodeId} (henum : r.index.enum? o.type = none)
    (hrecord : r.index.record? o.type = some record) (hself : r.graph.selfOf record = some base) :
    FindsBase r o name base r
  /-- A stand-in. -/
  | standIn {r' : Resolver} (henum : r.index.enum? o.type = none)
    (hrecord : r.index.record? o.type = none) (hstand : r.standIn o.type name o = .ok (base, r'))
    (hown : r'.ownField name o.type = some base) : FindsBase r o name base r'

namespace Sound

/-- No member is found for a type without a record. -/
theorem memberOf_eq_none (h : r.Sound) (hrecord : r.index.record? type = none) :
    r.memberOf type name = none := by
  refine memberOf_of_superTypesOf_eq_nil (h.superTypes _ hrecord) ?_
  rw [ownField, hrecord]
  rfl

/-- **Resolving the base of an access** that is a reference does not fail.

**Proof sketch.** By cases on what the index holds under the type: an enumeration, which is the base, or a
record, whose own field is the base and can be read, or neither, so that a field has to stand in. -/
theorem resolveBase (h : r.Sound) (hn : n ≤ r.graph.size) (done : List NodeId)
    {reference : NodeId} (hname : r.graph.name? reference = some name) :
    ∃ base r', r.resolveBase reference = .ok (base, r') ∧ Reaches n done 4 r r' ∧
      r.FindsBase (r.graph.typeOf reference) name base r' := by
  obtain ⟨node, hnode, rfl⟩ := Graph.exists_node_of_name? hname
  cases henum : r.index.enum? (r.graph.typeOf reference).type with
  | some enum =>
    refine ⟨enum, r, ?_, (Reaches.refl h n done).mono (by omega), .enum henum⟩
    simp only [Resolver.resolveBase, henum]
    rfl
  | none =>
    cases hrecord : r.index.record? (r.graph.typeOf reference).type with
    | some record =>
      have htag := h.records _ _ hrecord
      obtain ⟨recordNode, hrecordNode, -⟩ := Graph.exists_node_of_tag? htag
      obtain ⟨self, hself, -⟩ := h.wellFormed.typed.exists_selfOf htag
      refine ⟨self, r, ?_, (Reaches.refl h n done).mono (by omega), .self henum hrecord hself⟩
      simp only [Resolver.resolveBase, henum, hrecord, Graph.self?_eq hrecordNode, hself, bind,
        Except.bind]
      rfl
    | none =>
      obtain ⟨field, r', hstand, hreaches, hown, -⟩ :=
        h.standIn hn done (h.memberOf_eq_none hrecord) (r.graph.typeOf reference)
      refine ⟨field, r', ?_, hreaches, .standIn henum hrecord hstand hown⟩
      simp only [Resolver.resolveBase, henum, hrecord, Graph.node_eq_ok.mpr hnode, bind, Except.bind]
      exact hstand

/-- The base of an access that was a reference is an enumeration or a field. -/
theorem findsBase_spec {o : Observation} {base : NodeId} (h : r.Sound) (sound' : r'.Sound)
    (hfinds : r.FindsBase o name base r') :
    r'.graph.tag? base = some .enum ∨ r'.graph.tag? base = some .field := by
  cases hfinds with
  | enum henum => exact Or.inl (h.enums _ _ henum)
  | self _ hrecord hself =>
    right
    obtain ⟨self, hself', hmem, -⟩ := h.wellFormed.typed.exists_selfOf (h.records _ _ hrecord)
    obtain rfl := Option.some.inj (hself.symm.trans hself')
    exact h.wellFormed.typed.all_fieldsOf.tag_eq hmem
  | standIn _ _ _ hown => exact Or.inr (sound'.ownField_spec hown).1

/-- Whether a node is a reference can be read. -/
theorem isReference_eq {id : NodeId} {tag : Tag} (htag : r.graph.tag? id = some tag) :
    r.isReference id = .ok (tag == .reference) := by
  obtain ⟨node, hnode, rfl⟩ := Graph.exists_node_of_tag? htag
  rw [isReference, Graph.node_eq_ok.mpr hnode]
  rfl

end Sound

/-- How the base of an access is settled: a reference is resolved, and everything else stays. -/
inductive SettlesBase (r : Resolver) (old : NodeId) : NodeId → Resolver → Prop where
  /-- Everything else stays. -/
  | stays (htag : r.graph.tag? old ≠ some .reference) : SettlesBase r old old r
  /-- A reference is resolved. -/
  | found {name : String} {base : NodeId} {r' : Resolver}
    (htag : r.graph.tag? old = some .reference) (hname : r.graph.name? old = some name)
    (hfinds : r.FindsBase (r.graph.typeOf old) name base r') : SettlesBase r old base r'

/-- How the member of an access is settled: a reference is resolved to a constant or a field, and
everything else stays. -/
inductive SettlesMember (r : Resolver) (access base : NodeId) :
    Option NodeId → Option NodeId → Resolver → Prop where
  /-- There is no member. -/
  | none : SettlesMember r access base none none r
  /-- Everything but a reference stays. -/
  | stays {stub : NodeId} (htag : r.graph.tag? stub ≠ some .reference) :
    SettlesMember r access base (some stub) (some stub) r
  /-- A reference means a constant of an enumeration, if there is one. -/
  | constant {stub : NodeId} {name : String} (htag : r.graph.tag? stub = some .reference)
    (hname : r.graph.name? stub = some name) (hbase : r.graph.tag? base = some .enum)
    (f : Counters → Counters) :
    SettlesMember r access base (some stub) ((r.graph.entriesOf base).find? (r.graph.isNamed name))
      (r.count f)
  /-- A reference means a field, on which the types of the access are observed. -/
  | field {stub field : NodeId} {name : String} {r' : Resolver}
    (htag : r.graph.tag? stub = some .reference) (hname : r.graph.name? stub = some name)
    (hbase : r.graph.tag? base ≠ some .enum)
    (hfinds : r.FindsMember (r.graph.typeOf base).type name field r') (hsound : r'.Sound) {g : Graph}
    (hobserve : r'.graph.observe field (r'.graph.typeOf access) = g) (f : Counters → Counters) :
    SettlesMember r access base (some stub) (some field)
      (Resolver.count { r' with
        graph := g.widen field
          ((g.observedAt field).observations ++ (g.observedAt access).observations) } f)

namespace Sound

/-- **The base of an access** is settled without fail. -/
theorem settleBase (h : r.Sound) (hn : n ≤ r.graph.size) (done : List NodeId) {old : NodeId}
    (hold : old < r.graph.size) :
    ∃ base r', r.settleBase old = .ok (base, r') ∧ Reaches n done 4 r r' ∧
      r.SettlesBase old base r' := by
  obtain ⟨node, hnode⟩ := Graph.exists_node hold
  have htag := Graph.tag?_eq hnode
  have hread := isReference_eq htag
  by_cases hreference : node.tag = .reference
  · rw [hreference] at htag hread
    obtain ⟨base, r', hresolve, hreaches, hfinds⟩ :=
      h.resolveBase hn done (Graph.name?_eq hnode)
    refine ⟨base, r', ?_, hreaches, .found htag (Graph.name?_eq hnode) hfinds⟩
    simp only [Resolver.settleBase, hread, bind, Except.bind, beq_self_eq_true, if_true, hresolve]
  · refine ⟨old, r, ?_, (Reaches.refl h n done).mono (by omega), .stays ?_⟩
    · have hne : (node.tag == Tag.reference) = false := by simpa using hreference
      simp only [Resolver.settleBase, hread, bind, Except.bind, hne]
      rfl
    · rw [htag]
      simpa using hreference

/-- What settles a base is no reference. -/
theorem settlesBase_spec {old base : NodeId} (h : r.Sound) (sound' : r'.Sound)
    (hsettles : r.SettlesBase old base r') :
    base = old ∧ r' = r ∧ r.graph.tag? old ≠ some .reference ∨
      r.graph.tag? old = some .reference ∧
        (r'.graph.tag? base = some .enum ∨ r'.graph.tag? base = some .field) := by
  cases hsettles with
  | stays htag => exact Or.inl ⟨rfl, rfl, htag⟩
  | found htag _ hfinds => exact Or.inr ⟨htag, h.findsBase_spec sound' hfinds⟩

/-- **The constant** that a member means. -/
theorem resolveConstant (h : r.Sound) (name : String) {enum : NodeId} (htag : r.graph.tag? enum = some .enum) :
    ∃ f, r.resolveConstant enum name =
      .ok ((r.graph.entriesOf enum).find? (r.graph.isNamed name), r.count f) := by
  obtain ⟨node, hnode, -⟩ := Graph.exists_node_of_tag? htag
  have hread : r.graph.firstNamed name (r.graph.entriesOf enum) = _ :=
    Graph.firstNamed_eq fun id hid => h.wellFormed.typed.all_entriesOf.lt_size hid
  unfold Resolver.resolveConstant
  simp only [Graph.entries_eq hnode, bind, Except.bind, hread]
  cases (r.graph.entriesOf enum).find? (r.graph.isNamed name) with
  | none => exact ⟨_, rfl⟩
  | some constant => exact ⟨_, rfl⟩

/-- **Informing** a field of the types of an access. -/
theorem informed (h : r.Sound) (hfield : r.graph.tag? field = some .field) {access : NodeId}
    (haccess : r.graph.tag? access = some .memberAccess) (n : Nat) (done : List NodeId) :
    Reaches n done 0 r { r with graph := r.graph.informed field access } := by
  refine .of_sameTree h (r.graph.sameTree_informed field access) n done (fun D hD => ?_)
    (.single (.inform hfield haccess))
  have hmem : D field := hD.others field (by rw [hfield]; simp)
  have hrefines := Graph.refines_observe hD.confined hmem (r.graph.typeOf access)
  exact hrefines.trans (Graph.refines_widen hrefines.confined hmem _)

/-- **The member of an access** is settled without fail.

**Proof sketch.** By cases on what is there: no member, a member that is no reference and stays, or a
reference. The last one is replaced by a constant if the base is an enumeration, and otherwise by the field
that is found or made up, which is then told of the access. -/
theorem settleMember (h : r.Sound) (hn : n ≤ r.graph.size) (done : List NodeId)
    {access : NodeId} (haccess : r.graph.tag? access = some .memberAccess) {base : NodeId}
    {old : Option NodeId} (hbase : base < r.graph.size)
    (hold : ∀ stub, old = some stub → stub < r.graph.size) :
    ∃ member r', r.settleMember access base old = .ok (member, r') ∧ Reaches n done 4 r r' ∧
      r.SettlesMember access base old member r' := by
  cases old with
  | none => exact ⟨none, r, rfl, (Reaches.refl h n done).mono (by omega), .none⟩
  | some stub =>
    obtain ⟨node, hnode⟩ := Graph.exists_node (hold stub rfl)
    obtain ⟨baseNode, hbaseNode⟩ := Graph.exists_node hbase
    have htag := Graph.tag?_eq hnode
    have hname := Graph.name?_eq hnode
    have hread := isReference_eq htag
    by_cases hreference : node.tag = .reference
    · rw [hreference] at htag hread
      simp only [Resolver.settleMember, hread, bind, Except.bind, beq_self_eq_true, if_true,
        Resolver.resolveMemberOf, Graph.node_eq_ok.mpr hnode, Graph.node_eq_ok.mpr hbaseNode]
      by_cases henum : baseNode.tag = .enum
      · have hbaseTag := Graph.tag?_eq hbaseNode
        rw [henum] at hbaseTag
        obtain ⟨f, hconstant⟩ := h.resolveConstant node.name hbaseTag
        rw [if_pos henum]
        exact ⟨_, _, hconstant, ((Reaches.refl h n done).mono (by omega)).count f,
          .constant htag hname hbaseTag f⟩
      · rw [if_neg henum]
        obtain ⟨field, r', hresolve, hreaches, hfinds⟩ := h.resolveMember hn done
          (r.graph.typeOf base).type node.name (r.graph.typeOf stub)
        simp only [Resolver.resolveField, hresolve, bind, Except.bind, pure, Except.pure]
        refine ⟨_, _, rfl, ?_, .field htag hname ?_ hfinds hreaches.sound rfl _⟩
        · have hfield := (h.findsMember_spec hreaches.sound hfinds).1
          exact (hreaches.trans h (hreaches.sound.informed hfield (hreaches.step.graph.tag? haccess) n done)).count _
        · rw [Graph.tag?_eq hbaseNode]
          simpa using henum
    · refine ⟨some stub, r, ?_, (Reaches.refl h n done).mono (by omega), .stays ?_⟩
      · have hne : (node.tag == Tag.reference) = false := by simpa using hreference
        simp only [Resolver.settleMember, hread, bind, Except.bind, hne]
        rfl
      · rw [htag]
        simpa using hreference

/-- What settles a member fits: it has the name, and it can be meant.

**Proof sketch.** By cases on what settles the member. A member that stays could be meant before. A constant
is found among those of the enumeration, and a field under its name among those of a record; to inform it
changes neither its kind nor its name. -/
theorem settlesMember_spec {access base : NodeId} {old member : Option NodeId} (h : r.Sound)
    (sound' : r'.Sound) {k : Nat} (hr : Reaches n done k r r') {tag : Tag}
    (hbase : r.graph.tag? base = some tag) (hreference : tag ≠ .reference)
    (hold : ∀ stub, old = some stub → r.graph.name? stub = some name ∧
      (r.graph.tag? stub = some .reference ∨ r.graph.MemberOf base stub))
    (hsettles : r.SettlesMember access base old member r') :
    ∀ m, member = some m → r'.graph.name? m = some name ∧ r'.graph.MemberOf base m := by
  have hbase' := hr.step.graph.tag? hbase
  intro m hm
  cases hsettles with
  | none => exact absurd hm (by simp)
  | @stays stub htag =>
    obtain rfl := Option.some.inj hm
    exact ⟨(hold _ rfl).1, (hold _ rfl).2.resolve_left htag⟩
  | @constant stub name' htag hname henum f =>
    obtain rfl := Option.some.inj (hname.symm.trans (hold stub rfl).1)
    refine ⟨Graph.isNamed_iff.mp (List.find?_some hm), ?_⟩
    exact (Graph.memberOf_iff_of_enum (g := r.graph) henum).mpr (List.mem_of_find?_eq_some hm)
  | @field stub field name' r₁ htag hname henum hfinds hsound g hobserve f =>
    obtain rfl := Option.some.inj (hname.symm.trans (hold stub rfl).1)
    obtain rfl := Option.some.inj hm
    have hne : tag ≠ .enum := fun heq => henum (heq ▸ hbase)
    obtain ⟨htagField, hnameField⟩ := h.findsMember_spec hsound hfinds
    have hobserved := fun os => (hobserve ▸ r₁.graph.sameTree_observe field (r₁.graph.typeOf access)
      : r₁.graph.SameTree g).trans (Graph.sameTree_widen g field os)
    rw [Graph.memberOf_iff_of_ne hbase' hreference hne]
    exact ⟨((hobserved _).name? _).trans hnameField, ((hobserved _).tag? _).trans htagField⟩

/-- What a member can mean is no expression. -/
theorem memberOf_not_isExpression {g : Graph} {base m : NodeId} (typed : g.WellTyped)
    (h : g.MemberOf base m) : ∃ tag, g.tag? m = some tag ∧ tag.isExpression = false := by
  have hkind := h.2
  split at hkind
  · exact ⟨_, typed.all_entriesOf.tag_eq hkind, rfl⟩
  · exact ⟨_, hkind, rfl⟩

/-- A member stays, or it was a reference. -/
theorem settlesMember_eq {access base : NodeId} {old member : Option NodeId}
    (hsettles : r.SettlesMember access base old member r') :
    member = old ∨ ∃ stub, old = some stub ∧ r.graph.tag? stub = some .reference := by
  cases hsettles with
  | none => exact Or.inl rfl
  | stays _ => exact Or.inl rfl
  | constant htag _ _ _ => exact Or.inr ⟨_, rfl, htag⟩
  | field htag _ _ _ _ _ _ => exact Or.inr ⟨_, rfl, htag⟩

/-- A base that is settled can be the base of an access, and it is no reference. It takes the place of
a reference if it is not the old base. -/
theorem exists_settledBase {old base : NodeId} (h : r.Sound) (sound' : r'.Sound)
    (hold : r.graph.All (fun k => k.isExpression || k == .enum || k == .field) [old])
    (hsettles : r.SettlesBase old base r') : ∃ tag, r'.graph.tag? base = some tag ∧
      (tag.isExpression || tag == .enum || tag == .field) = true ∧ tag ≠ .reference ∧
        (base = old ∨ r.graph.tag? old = some .reference ∧ tag.isExpression = false) := by
  obtain ⟨tag, htag, hkind⟩ := hold old (List.mem_singleton.mpr rfl)
  rcases h.settlesBase_spec sound' hsettles with ⟨rfl, rfl, hnot⟩ | ⟨hreference, henum | hfield⟩
  · exact ⟨tag, htag, hkind, fun heq => hnot (heq ▸ htag), Or.inl rfl⟩
  · exact ⟨.enum, henum, rfl, by decide, Or.inr ⟨hreference, rfl⟩⟩
  · exact ⟨.field, hfield, rfl, by decide, Or.inr ⟨hreference, rfl⟩⟩

/-- Once the base of an access is settled, its member still has the name, and it is a reference or a
member of the settled base. -/
theorem member_of_settledBase {base base' : NodeId} {member : Option NodeId} {tag : Tag}
    (hfits : r.graph.Fits name (.memberAccess base member)) (hgrows : r.graph.Grows n r'.graph)
    (hbase : base' = base ∨ r.graph.tag? base = some .reference ∧ tag.isExpression = false) :
    ∀ stub, member = some stub → r'.graph.name? stub = some name ∧
      (r'.graph.tag? stub = some .reference ∨ r'.graph.MemberOf base' stub) := by
  intro stub hstub
  obtain ⟨hstubName, hstubKind⟩ := hfits.2 stub hstub
  refine ⟨hgrows.name? hstubName, ?_⟩
  rcases hstubKind with hreference | hmemberOf
  · exact Or.inl (hgrows.tag? hreference)
  · right
    rcases hbase with rfl | ⟨hreference, -⟩
    · exact hmemberOf.keep hgrows.keeps hfits.1
    · exact absurd hreference hmemberOf.1

/-- The base that is written down is the old one, or it takes the place of a reference. -/
theorem replaced_base {g : Graph} {base base' : NodeId} {tag : Tag} (hgrows : r.graph.Grows n g)
    (hbase : base' = base ∨ r.graph.tag? base = some .reference ∧ tag.isExpression = false)
    (htag : g.tag? base' = some tag) : g.Replaced g (some base) (some base') := by
  rcases hbase with rfl | ⟨hreference, hnot⟩
  · exact Or.inl rfl
  · refine Or.inr ⟨⟨base, rfl, hgrows.tag? hreference⟩, fun part hpart => ?_⟩
    obtain rfl := Option.some.inj hpart
    exact ⟨tag, htag, hnot⟩

/-- The member that is written down is the old one, or it takes the place of a reference. -/
theorem replaced_member {access base : NodeId} {member member' : Option NodeId} (sound' : r'.Sound)
    (hgrows : r.graph.Grows n r'.graph) (hsettles : r.SettlesMember access base member member' r')
    (hmember : ∀ m, member' = some m → r'.graph.MemberOf base m) :
    r'.graph.Replaced r'.graph member member' := by
  rcases settlesMember_eq hsettles with rfl | ⟨stub, rfl, hreference⟩
  · exact Or.inl rfl
  · refine Or.inr ⟨⟨stub, rfl, hgrows.tag? hreference⟩, fun m hm => ?_⟩
    exact memberOf_not_isExpression sound'.wellFormed.typed (hmember m hm)

/-- Neither part of an access that is settled is a reference. -/
theorem settled_ne_reference {base : NodeId} {member : Option NodeId} {tag : Tag} (h : r.Sound)
    (htag : r.graph.tag? base = some tag) (hne : tag ≠ .reference)
    (hmember : ∀ m, member = some m → r.graph.MemberOf base m) :
    ∀ part ∈ base :: member.toList, r.graph.tag? part ≠ some .reference := by
  intro part hpart
  rcases List.mem_cons.mp hpart with rfl | hpart
  · rw [htag]
    simpa using hne
  · obtain ⟨memberTag, hmemberTag, hnot⟩ :=
      memberOf_not_isExpression h.wellFormed.typed (hmember part (by simpa using hpart))
    rw [hmemberTag]
    rintro ⟨⟩
    exact absurd hnot (by decide)

/-- **Writing what a usage means** is a step of a resolution: the payloads of the other nodes stay, and
there is no new node. -/
theorem writeUsage (h : r.Sound) (n : Nat) {id : NodeId} {g : Graph} {payload : Payload}
    (hpayload : r.graph.payload? id = some payload) (hkind : payload.tag ≠ .record)
    (hwf : g.WellFormed []) (hgrows : r.graph.Grows n g) (hsize : g.size = r.graph.size)
    (hkept : ∀ other, other ≠ id → g.payload? other = r.graph.payload? other)
    (hrefines : ∀ D, r.graph.Stirred D [id] → Graph.Refines D r.graph g)
    (hchange : Graph.Change [id] r.graph g) : Reaches n [id] 0 r { r with graph := g } := by
  refine ⟨h.of_grows hwf hgrows, ?_, Nat.le_of_eq hsize⟩
  refine ⟨hgrows, fun other payload hother hpayload _ => ?_, fun _ _ hrecord => hrecord,
    fun _ _ hrecord => Or.inl hrecord, rfl, rfl, fun _ _ hfield => hfield,
    fun type record hrecord field hfield => Or.inl ?_, hrefines,
    fun hselves => hselves.of_size (hrefines _ (.all _ _)) hgrows hsize, .single hchange, .of_size hsize⟩
  · exact (hkept other fun heq => hother (List.mem_singleton.mpr heq)).trans hpayload
  · -- a record is no usage, so it lists what it listed
    have hne : record ≠ id := by
      rintro rfl
      have htag := (Graph.tag?_of_payload? hpayload).symm.trans (h.records _ _ hrecord)
      exact hkind (Option.some.inj htag)
    unfold Graph.fieldsOf at hfield ⊢
    rwa [hkept record hne] at hfield

/-- **Writing what an access means.** -/
theorem writeAccess (h : r.Sound) (n : Nat) {id base base' : NodeId} {member member' : Option NodeId}
    (hpayload : r.graph.payload? id = some (.memberAccess base member))
    (hname : r.graph.name? id = some name) (hbase : r.graph.Replaced r.graph (some base) (some base'))
    (hmember : r.graph.Replaced r.graph member member')
    (hfits : r.graph.Fits name (.memberAccess base' member')) :
    Reaches n [id] 0 r { r with graph := r.graph.setAccess id base' member' } := by
  obtain ⟨hwf, hgrows⟩ := h.wellFormed.setAccess (n := n) hpayload hname hbase hmember hfits
  exact h.writeUsage n hpayload (by simp [Payload.tag]) hwf hgrows (Graph.size_modify ..)
    (fun _ hother => Graph.payload?_setAccess_of_ne hother)
    (fun D hD => Graph.refines_modify hD.confined id fun _ => rfl)
    (.quiet (Graph.quiet_setAccess _ id base' member'))

/-- **A member access** is resolved without fail: its base is settled, and then its member.

**Proof sketch.** The base is settled first, then the member in the graph that this leaves, and at last both
are written. Until then the access itself is as it was, since neither of the two steps writes to usages; so
what is written takes the place of what was there. -/
theorem resolveAccess (h : r.Sound) (hn : n ≤ r.graph.size) {id base : NodeId}
    {member : Option NodeId} (hname : r.graph.name? id = some name)
    (hpayload : r.graph.payload? id = some (.memberAccess base member)) :
    ∃ base' member' r₁ r₂, r.resolveAccess id base member =
        .ok { r₂ with graph := r₂.graph.setAccess id base' member' } ∧
      Reaches n [] 4 r r₁ ∧ r.SettlesBase base base' r₁ ∧
      Reaches n [] 4 r₁ r₂ ∧ r₁.SettlesMember id base' member member' r₂ ∧
      Reaches n [id] 0 r₂ { r₂ with graph := r₂.graph.setAccess id base' member' } ∧
      Reaches n [id] 8 r { r₂ with graph := r₂.graph.setAccess id base' member' } ∧
      (r₂.graph.setAccess id base' member').payload? id = some (.memberAccess base' member') ∧
      ∀ part ∈ base' :: member'.toList, r₂.graph.tag? part ≠ some .reference := by
  obtain ⟨node, hnode, hnodePayload⟩ := Graph.exists_node_of_payload? hpayload
  obtain rfl := Option.some.inj ((Graph.name?_eq hnode).symm.trans hname)
  have hfits := h.wellFormed.typed.nodes id node hnode
  rw [hnodePayload] at hfits
  have hlt := hfits.access_lt_size
  obtain ⟨base', r₁, hsettleBase, hreaches₁, hbase⟩ :=
    h.settleBase hn [] (hlt base (List.mem_cons_self ..))
  obtain ⟨tag, htag, hkind, hne, hreplaced⟩ := h.exists_settledBase hreaches₁.sound hfits.1 hbase
  have hstub := member_of_settledBase hfits hreaches₁.step.graph hreplaced
  have hn₁ := Nat.le_trans hn hreaches₁.step.graph.size
  have haccess : r₁.graph.tag? id = some .memberAccess :=
    hreaches₁.step.graph.tag? (Graph.tag?_of_payload? hpayload)
  obtain ⟨member', r₂, hsettleMember, hreaches₂, hmember⟩ :=
    hreaches₁.sound.settleMember hn₁ [] haccess (Graph.lt_size_of_tag? htag)
      fun stub hmem => by
        obtain ⟨stubNode, hstubNode, -⟩ := Graph.exists_node_of_name? (hstub stub hmem).1
        exact Graph.lt_size hstubNode
  have hmemberSpec := hreaches₁.sound.settlesMember_spec hreaches₂.sound hreaches₂ htag hne hstub hmember
  have hpayload₂ : r₂.graph.payload? id = some (.memberAccess base member) :=
    hreaches₂.step.usages _ _ (by simp) (hreaches₁.step.usages _ _ (by simp) hpayload (Or.inr rfl))
      (Or.inr rfl)
  have hname₂ : r₂.graph.name? id = some node.name :=
    hreaches₂.step.graph.name? (hreaches₁.step.graph.name? hname)
  have htag₂ := hreaches₂.step.graph.tag? htag
  have hgrows := hreaches₁.step.graph.trans hreaches₂.step.graph
  have hwrite := hreaches₂.sound.writeAccess n hpayload₂ hname₂ (replaced_base hgrows hreplaced htag₂)
    (replaced_member hreaches₂.sound hreaches₂.step.graph hmember fun m hm => (hmemberSpec m hm).2)
    ⟨.single htag₂ hkind, fun m hm => ⟨(hmemberSpec m hm).1, Or.inr (hmemberSpec m hm).2⟩⟩
  refine ⟨base', member', r₁, r₂, ?_, hreaches₁, hbase, hreaches₂, hmember, hwrite, ?_,
    Graph.payload?_setAccess_self hpayload₂,
    hreaches₂.sound.settled_ne_reference htag₂ hne fun m hm => (hmemberSpec m hm).2⟩
  · simp only [Resolver.resolveAccess, hsettleBase, hsettleMember, bind, Except.bind]
    rfl
  · exact ((hreaches₁.weaken (List.nil_subset _)).trans h (hreaches₂.weaken (List.nil_subset _))).trans h hwrite

end Sound

end Resolver

end ProgramGraph
