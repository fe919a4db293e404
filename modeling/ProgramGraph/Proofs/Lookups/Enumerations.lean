import ProgramGraph.Proofs.Lookups.Meeting
import ProgramGraph.Proofs.Resolution.Asking

set_option autoImplicit false

/-!
# Members of enumerations

A member access on a reference of a type that an enumeration declares means a constant of this
enumeration, or nothing, and no declaration is made up for it. Only references are looked up this way.
Any other expression stays the base of its access, whatever its type is, and the member is a field,
which may be made up. So whatever is made up for the type of an enumeration is linked by an access on
something else, or by a reference in a record of the same name.

## Main definitions

* `ProgramGraph.Graph.AskedFor` — a field is linked by a usage that is no access on an enumeration.
* `ProgramGraph.Graph.ServesEnums` — accesses and enumerations after a resolution.

## Main results

* `ProgramGraph.Resolver.Run.Access.eq_of_stays` — accesses on other expressions.
* `ProgramGraph.Resolver.Run.askedFor` — what is made up for the type of an enumeration.
* `ProgramGraph.Graph.resolveUsages_enums` — members of enumerations.
* `ProgramGraph.resolveUsages_enums_call` — a field that is made up for the type of an enumeration.
-/

namespace ProgramGraph

/-- A field is linked by a usage that is no access on an enumeration: it is the member of something
else, or what a reference in a record of the type means. -/
inductive Graph.AskedFor (g : Graph) (type : Descriptor) (field : NodeId) : Prop where
  /-- It is the member of an access. -/
  | member {usage base : NodeId} {tag : Tag}
    (hpayload : g.payload? usage = some (.memberAccess base (some field)))
    (htag : g.tag? base = some tag) (hnot : tag ≠ .enum)
  /-- It is what a reference in a record means. -/
  | reference {usage : NodeId} {p : Place}
    (hpayload : g.payload? usage = some (.reference (some field) false))
    (hstands : g.Stands p usage) (haround : p.types.head? = some type)

namespace Resolver.Run

variable {g : Graph} {t₀ : ScopeTable} {index : Index} {V₀ V : List NodeId}
  {r r₁ r₂ r₃ : Resolver} {type : Descriptor} {id base base' enum field record : NodeId}
  {member member' : Option NodeId}

/-- **An access on an expression** that is no reference keeps its base, and its member is a field.

**Proof sketch.** Only references are replaced as bases, so this base stays. What it is then is no
enumeration, so that no constant can be found for the member, and what is found is a field. -/
theorem Access.eq_of_stays (moment : Access g t₀ index r id base base' member member' r₁ r₂ r₃)
    (raw : g.Raw) (hpayload : g.payload? id = some (.memberAccess base member)) {tag : Tag}
    (htag : g.tag? base = some tag) (hexpression : tag.isExpression = true)
    (hnot : tag ≠ .reference) :
    base' = base ∧ ∃ field, member' = some field ∧ r.graph.tag? field = some .field := by
  obtain ⟨before, -, -, hstep⟩ := moment.runs
  obtain ⟨done, hafter⟩ := moment.after
  have hkept := hstep.graph.tag? htag
  obtain ⟨node, hnode, heq⟩ := Graph.exists_node_of_payload? hpayload
  have hraw := raw.payload id node hnode
  rw [heq] at hraw
  obtain ⟨stub, rfl, hstub⟩ := hraw
  have hstub₂ := (hstep.graph.trans moment.during.graph).tag? hstub
  cases moment.base with
  | found hreference => exact absurd (Option.some.inj (hkept.symm.trans hreference)) hnot
  | stays _ =>
    refine ⟨rfl, ?_⟩
    cases moment.member with
    | stays hother => exact absurd hstub₂ hother
    | constant _ _ henum _ =>
      obtain rfl := Option.some.inj (hkept.symm.trans henum)
      exact absurd hexpression (by decide)
    | @field _ field _ q _ _ _ hfinds hsound _ hobserve _ =>
      refine ⟨field, rfl, ?_⟩
      have hfield := (moment.sound.findsMember_spec hsound hfinds).1
      subst hobserve
      exact hafter.graph.tag? (((q.graph.sameTree_informed field id).tag? field).trans hfield)

variable (run : Run g t₀ index V₀ V r) (raw : g.Raw)

include run

/-- What answers a usage of a type that an enumeration declares is linked in the end. -/
theorem askedFor (h : Answers g index V r type field) (henum : index.enum? type = some enum) :
    r.graph.AskedFor type field := by
  cases h with
  | member _ hpayload htag hnot => exact .member hpayload htag hnot
  | base _ _ hnone => exact absurd (henum.symm.trans hnone) (by simp)
  | @reference usage p hvisited hpayload hstands haround =>
    obtain ⟨q, hq⟩ := run.placed usage hvisited
    have hgrows := (run.runs.reaches run.start).2.graph
    have hback := hgrows.stands_back (Nat.le_refl _) hq (hstands.lt_size run.start.wellFormed.tree)
    obtain rfl := hstands.unique run.start.wellFormed.tree hback
    exact .reference hpayload hq haround

include raw

/-- **What is made up for the type of an enumeration** is linked by usages that are no accesses on an
enumeration. -/
theorem madeUp_askedFor (henum : index.enum? type = some enum)
    (hrecord : r.index.record? type = some record) :
    (∀ field ∈ r.graph.fieldsOf record, r.graph.IsMadeUp field →
      r.graph.selfOf record = some field ∨ r.graph.AskedFor type field) ∧
    (r.graph.IsMadeUp record → ∃ field ∈ r.graph.fieldsOf record, r.graph.AskedFor type field) := by
  have hgrows := (run.runs.reaches run.start).2.graph
  have hadds := run.runs.adds run.start
  have hreal : ∀ {id}, id < g.size → ¬ r.graph.IsMadeUp id :=
    fun hlt => (hgrows.isWritten raw hlt).not_isMadeUp
  refine ⟨fun field hfield hmade => ?_, fun hmade => ?_⟩
  · rcases hadds.fields type record hrecord field hfield with ⟨-, hold⟩ | hself | hanswers
    · exact absurd hmade (hreal (run.start.wellFormed.typed.all_fieldsOf.lt_size hold))
    · exact Or.inl hself
    · exact Or.inr (run.askedFor hanswers henum)
  · rcases hadds.records type record hrecord with hold | ⟨field, hfield, hanswers⟩
    · exact absurd hmade (hreal (Graph.lt_size_of_tag? (run.start.records _ _ hold)))
    · exact ⟨field, hfield, run.askedFor hanswers henum⟩

end Resolver.Run

/-- How member accesses and enumerations get on in a resolution, from one graph to another, where the nodes
are visited in some order. -/
structure Graph.ServesEnums (start g : Graph) (index : Index) (walk : List NodeId) : Prop where
  /-- An access on a reference of a type that enumerations declare is one on the first of these: its member
  is the constant of its name, if there is one. -/
  constants : ∀ usage type name declared, start.Accesses usage type name →
    start.spells .enum type declared = true → ∃ enum, walk.find? (start.spells .enum type) = some enum ∧
      g.payload? usage = some (.memberAccess enum ((g.entriesOf enum).find? (g.isNamed name)))
  /-- An access on another expression keeps its base, and its member is a field. -/
  others : ∀ usage base member tag, start.payload? usage = some (.memberAccess base member) →
    start.tag? base = some tag → tag.isExpression = true → tag ≠ .reference →
      ∃ field, g.payload? usage = some (.memberAccess base (some field)) ∧ g.tag? field = some .field
  /-- A field that is made up for the type of an enumeration stands for the record, or is linked by a usage
  that is no access on an enumeration. -/
  fields : ∀ type enum record field, walk.find? (start.spells .enum type) = some enum →
    index.record? type = some record → field ∈ g.fieldsOf record → g.IsMadeUp field →
      g.selfOf record = some field ∨ g.AskedFor type field
  /-- If the record is made up itself, it has a field that is linked so. -/
  records : ∀ type enum record, walk.find? (start.spells .enum type) = some enum →
    index.record? type = some record → g.IsMadeUp record →
      ∃ field ∈ g.fieldsOf record, g.AskedFor type field

/-- **Members of enumerations.** Whatever documents a graph was built from, after one resolution a member
access on a reference of a type that enumerations declare has the first of these, in the order of the
walk, as its base and the first constant of its name as its member, or none. A member access on any
other expression keeps its base, and its member is a field. And whatever was made up for the type of an
enumeration is linked by usages that are no accesses on an enumeration.

**Proof sketch.** The index of enumerations does not change in a run, so an access on a reference of such a
type finds the enumeration, and its constants are those it was built with. Any other expression is left in
place, and the member is looked up or made up in a record. What is made up answers to a usage that asked for
it, and an access on an enumeration never asks. -/
theorem Graph.resolveUsages_enums (documents : List (String × Document)) :
    ∃ g index walk, (ofDocuments documents).resolveUsages = .ok (g, index) ∧
      Preorder (ofDocuments documents).parts (ofDocuments documents).units walk ∧
      (ofDocuments documents).ServesEnums g index walk := by
  have hg := sprouting_ofDocuments documents
  obtain ⟨r, t₀, index, V₀, V, hresolve, run⟩ := resolveUsages_ok hg.wellFormed
  refine ⟨r.graph, r.index, V₀, hresolve, run.indexed.preorder,
    fun usage type name declared haccess hspells => ?_,
    fun usage base member tag hold htag hexpression hnot => ?_,
    fun type enum record field henum hrecord => ?_, fun type enum record henum hrecord => ?_⟩
  · obtain ⟨node, hnode, -⟩ := spells_iff.mp hspells
    obtain ⟨p, hp⟩ := hg.stands (lt_size hnode)
    obtain ⟨enum, henum⟩ := Option.isSome_iff_exists.mp (List.find?_isSome.mpr
      ⟨declared, run.indexed.complete p declared hp, hspells⟩)
    obtain ⟨base, member, r₁, r₂, r₃, hpayload, moment⟩ := run.usage hg haccess
    obtain ⟨rfl, rfl⟩ := moment.eq_of_enum ((run.indexed.lists.enums type).trans henum)
    exact ⟨base, henum, hpayload⟩
  · have hgrows := (run.runs.reaches run.start).2.graph
    obtain ⟨base', member', hpayload⟩ := hgrows.exists_access hold
    have hid := run.mem_of_linked hg hpayload (Or.inl rfl)
    obtain ⟨-, base₀, member₀, r₁, r₂, r₃, hold', moment⟩ := run.access hid hpayload
    obtain ⟨rfl, rfl⟩ := Payload.memberAccess.inj (Option.some.inj (hold'.symm.trans hold))
    obtain ⟨rfl, field, rfl, hfield⟩ := moment.eq_of_stays hg.raw hold htag hexpression hnot
    exact ⟨field, hpayload, hfield⟩
  · exact (run.madeUp_askedFor hg.raw ((run.indexed.lists.enums type).trans henum) hrecord).1 field
  · exact (run.madeUp_askedFor hg.raw ((run.indexed.lists.enums type).trans henum) hrecord).2

open Document in
/-- An access on a call whose type is declared by an enumeration. -/
def calledEnum : List (String × Document) :=
  [("a.json", { declarations :=
    [.enum "Color" [] ["RED"],
     .function "main" none none false [] (some
        [.expression (.member (.call "pick" none [] (some "Color") none) "RED" none none none)])] })]

/-- **A field is made up for the type of an enumeration.** The base of the access is no reference, so the
member is not the constant of its name, and a record and a field are made up for the type. -/
theorem resolveUsages_enums_call : ∃ g index,
    (Graph.ofDocuments calledEnum).resolveUsages = .ok (g, index) ∧
      (Graph.ofDocuments calledEnum).payload? 7 = some (.memberAccess 5 (some 6)) ∧
      ((Graph.ofDocuments calledEnum).typeOf 5).type = .parse "Color" ∧
      (Graph.ofDocuments calledEnum).spells .enum (.parse "Color") 1 = true ∧
      (g.entriesOf 1).find? (g.isNamed "RED") = some 2 ∧
      g.payload? 7 = some (.memberAccess 5 (some 11)) ∧
      index.record? (.parse "Color") = some 10 ∧ 11 ∈ g.fieldsOf 10 ∧ g.IsMadeUp 10 ∧ g.IsMadeUp 11 := by
  obtain ⟨r, _, _, _, _, hresolve, -⟩ :=
    Graph.resolveUsages_ok (Graph.sprouting_ofDocuments calledEnum).wellFormed
  have hbuilt : (Graph.ofDocuments calledEnum).payload? 7 = some (.memberAccess 5 (some 6)) ∧
      ((Graph.ofDocuments calledEnum).typeOf 5).type = .parse "Color" ∧
        (Graph.ofDocuments calledEnum).spells .enum (.parse "Color") 1 = true := by
    decide +kernel
  have hresolved : ((Graph.ofDocuments calledEnum).resolveUsages.map fun s => decide (
      (s.1.entriesOf 1).find? (s.1.isNamed "RED") = some 2 ∧
        s.1.payload? 7 = some (.memberAccess 5 (some 11)) ∧
          s.2.record? (.parse "Color") = some 10 ∧ 11 ∈ s.1.fieldsOf 10 ∧
            (s.1.node? 10).map Node.dummy = some true ∧
              (s.1.node? 11).map Node.dummy = some true)) = .ok true := by
    decide +kernel
  rw [hresolve] at hresolved
  simp only [Except.map, Except.ok.injEq, decide_eq_true_eq] at hresolved
  obtain ⟨hconstant, haccess, hrecord, hfield, hdummy, hdummy'⟩ := hresolved
  have hmade : ∀ {id}, (r.graph.node? id).map Node.dummy = some true → r.graph.IsMadeUp id :=
    fun h => Option.map_eq_some_iff.mp h
  exact ⟨r.graph, r.index, hresolve, hbuilt.1, hbuilt.2.1, hbuilt.2.2, hconstant, haccess, hrecord,
    hfield, hmade hdummy, hmade hdummy'⟩

end ProgramGraph
