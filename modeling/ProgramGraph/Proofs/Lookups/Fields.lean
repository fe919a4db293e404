import ProgramGraph.Proofs.Lookups.Accesses

set_option autoImplicit false

/-!
# Field lookups

A member access on a reference of a declared type means the first real field of its name in the
record of the type, or else the first one in the records of its declared supertypes, in their order.
But a field that was made up for an access on such a supertype is found like a real one, so it gets
before the real fields of the supertypes listed later, and it is found where there is no real field.

All this is about the type of the declaration of the base by then, so it holds as long as nothing was
observed on this declaration but forms of the type that its record declares.

## Main definitions

* `ProgramGraph.Graph.realOf` — the first real field of a name for a type.
* `ProgramGraph.Graph.MadeUpFor` — a made-up field of a name for a type.
* `ProgramGraph.Graph.MeansField` — which field is found for a member of a type.

## Main results

* `ProgramGraph.Resolver.Run.realOf_eq` — the real fields for a type are those at the start.
* `ProgramGraph.Resolver.Run.meansField` — which field a member access means.
* `ProgramGraph.Graph.resolveUsages_fields` — which fields member accesses mean.
* `ProgramGraph.resolveUsages_fields_overtaken` — accesses that mean made-up fields.
-/

namespace ProgramGraph

namespace Graph

/-- The first real field of a name in the record that an index has for a type. -/
def realOf (g : Graph) (index : Index) (name : String) (type : Descriptor) : Option NodeId :=
  (index.record? type).bind (g.realField name)

/-- A made-up field of a name in the record that an index has for a type. -/
def MadeUpFor (g : Graph) (index : Index) (name : String) (type : Descriptor) (field : NodeId) :
    Prop :=
  ∃ record, index.record? type = some record ∧ field ∈ g.fieldsOf record ∧
    g.name? field = some name ∧ g.IsMadeUp field

/-- Which field is found for a member of a type that has some supertypes. -/
inductive MeansField (g : Graph) (index : Index) (name : String) (type : Descriptor)
    (supers : List Descriptor) (field : NodeId) : Prop where
  /-- The first real field of the type. -/
  | own (hown : g.realOf index name type = some field)
  /-- The first real field of the first supertype that has one. -/
  | inherited {inner outer : List Descriptor} {super : Descriptor}
    (hown : g.realOf index name type = none) (hsupers : supers = inner ++ super :: outer)
    (hinner : ∀ nearer ∈ inner, g.realOf index name nearer = none)
    (hsuper : g.realOf index name super = some field)
  /-- A made-up field of a supertype that is listed before. -/
  | overtaken {inner outer : List Descriptor} {super nearer : Descriptor} {other : NodeId}
    (hown : g.realOf index name type = none) (hsupers : supers = inner ++ super :: outer)
    (hinner : ∀ nearer ∈ inner, g.realOf index name nearer = none)
    (hsuper : g.realOf index name super = some other) (hnearer : nearer ∈ inner)
    (hmade : g.MadeUpFor index name nearer field)
  /-- Where nothing is real, a made-up field. -/
  | standIn {owner : Descriptor} (hnone : ∀ t ∈ type :: supers, g.realOf index name t = none)
    (howner : owner ∈ type :: supers) (hmade : g.MadeUpFor index name owner field)

variable {g g' : Graph} {n : Nat} {id record : NodeId} {tag : Tag} {type : Descriptor}

/-- Records keep the fields that stand for them. -/
theorem Grows.selfOf (h : g.Grows n g') (hrecord : g.tag? record = some .record) :
    g'.selfOf record = g.selfOf record := by
  obtain ⟨body, hbody⟩ := exists_record_of_tag? hrecord
  obtain ⟨new, hnew, -⟩ := h.record hbody
  simp only [Graph.selfOf, hbody, hnew]

/-- Names go on spelling types. -/
theorem Grows.spells (h : g.Grows n g') (hspells : g.spells tag type id = true) :
    g'.spells tag type id = true := by
  obtain ⟨node, hnode, htag, hparse⟩ := spells_iff.mp hspells
  obtain ⟨node', hnode', hname, -, hevolves⟩ := h.nodes id node hnode
  refine spells_iff.mpr ⟨node', hnode', hevolves.tag.trans htag, ?_⟩
  rw [hname, hparse]

end Graph

namespace Resolver.Run

variable {g : Graph} {t₀ : ScopeTable} {index : Index} {V₀ V : List NodeId} {r q : Resolver}
  {type : Descriptor} {name : String} {field record : NodeId}

section

variable (run : Run g t₀ index V₀ V r) (raw : g.Raw)

include run raw

/-- **The first real field for a type** is the one that was found at the start. -/
theorem realOf_eq (name : String) (type : Descriptor) :
    r.graph.realOf r.index name type = (⟨g, index⟩ : Resolver).ownField name type := by
  have hstep := (run.runs.reaches run.start).2
  unfold Graph.realOf ownField
  cases hrecord : index.record? type with
  | some record =>
    rw [hstep.records _ _ hrecord]
    exact hstep.graph.realField_eq raw run.start.wellFormed (run.start.records _ _ hrecord)
  | none =>
    cases hmade : r.index.record? type with
    | none => rfl
    | some record =>
      have hle : g.size ≤ record := (hstep.made _ _ hmade).resolve_left (by simp [hrecord])
      refine List.find?_eq_none.mpr fun field hfield => ?_
      have hge := hstep.graph.le_of_mem_parts hle (Graph.mem_parts_of_mem_fieldsOf hfield)
      simp [hstep.graph.isReal_of_le hge]

omit run raw in
/-- A field that is found where nothing is real was made up. -/
theorem madeUpFor (hfield : r.ownField name type = some field)
    (hreal : r.graph.realOf r.index name type = none) : r.graph.MadeUpFor r.index name type field := by
  obtain ⟨record, hrecord, hfound⟩ := Sound.exists_record hfield
  obtain ⟨hmem, hname⟩ := Graph.mem_of_fieldOf hfound
  obtain ⟨node, hnode, heq⟩ := Graph.exists_node_of_name? hname
  rw [Graph.realOf, hrecord, Option.bind_some, Graph.realField, List.find?_eq_none] at hreal
  have hnot := hreal field hmem
  simp only [Graph.isReal, hnode, Option.any_some, heq, beq_self_eq_true, Bool.true_and,
    Bool.not_eq_true', Bool.not_eq_false] at hnot
  exact ⟨record, hrecord, hmem, hname, node, hnode, hnot⟩

/-! ### Searching -/

variable {done : List NodeId} (hbefore : Step g.size done ⟨g, index⟩ q)

include hbefore

/-- Real fields are found all the time. -/
theorem ownField_of_realOf (hreal : r.graph.realOf r.index name type = some field) :
    q.ownField name type = some field :=
  hbefore.ownField run.start (run.realOf_eq raw name type ▸ hreal)

omit run raw in
/-- The types that are searched. -/
theorem lineage_eq (hknown : type.isUnknown = false) :
    q.lineage type = type :: index.superTypesOf type := by
  rw [hbefore.lineage, lineage, if_neg (by simp [hknown])]

/-- Where no field is found, nothing is real. -/
theorem realOf_eq_none (hknown : type.isUnknown = false) (hmissing : q.memberOf type name = none) :
    ∀ t ∈ type :: index.superTypesOf type, r.graph.realOf r.index name t = none := by
  intro t ht
  by_contra hsome
  obtain ⟨x, hx⟩ := Option.ne_none_iff_exists'.mp hsome
  rw [memberOf, lineage_eq hbefore hknown, List.findSome?_eq_none_iff] at hmissing
  exact absurd ((run.ownField_of_realOf raw hbefore hx).symm.trans (hmissing t ht)) (by simp)

variable {done' : List NodeId} (sound : q.Sound) (hafter : Step g.size done' q r)

include sound hafter

omit run raw hbefore in
/-- What is found where nothing is real was made up. -/
theorem madeUpFor_of_ownField (hfield : q.ownField name type = some field)
    (hreal : r.graph.realOf r.index name type = none) : r.graph.MadeUpFor r.index name type field :=
  madeUpFor (hafter.ownField sound hfield) hreal

/-- **Which field is found** for a member of a declared type.

**Proof sketch.** By cases on whether the type or one of its supertypes has a real field of the name. The
search meets real fields in the order in which they are written, and among the types before the hit only a
made-up field could have been found; such a field was overtaking, unless there is no real one at all. -/
theorem meansField_of_memberOf (hknown : type.isUnknown = false)
    (hrecord : index.record? type = some record) (hmember : q.memberOf type name = some field) :
    r.graph.MeansField r.index name type (index.superTypesOf type) field := by
  rw [memberOf, lineage_eq hbefore hknown, List.findSome?_cons] at hmember
  cases hown : r.graph.realOf r.index name type with
  | some x =>
    rw [run.ownField_of_realOf raw hbefore hown, Option.some.injEq] at hmember
    exact .own (hmember ▸ hown)
  | none =>
    cases hsuper : (index.superTypesOf type).findSome? (r.graph.realOf r.index name) with
    | none =>
      have hnone : ∀ t ∈ type :: index.superTypesOf type, r.graph.realOf r.index name t = none :=
        List.forall_mem_cons.mpr ⟨hown, List.findSome?_eq_none_iff.mp hsuper⟩
      rw [← List.findSome?_cons] at hmember
      obtain ⟨owner, howner, hfound⟩ := List.exists_of_findSome?_eq_some hmember
      exact .standIn hnone howner
        (madeUpFor_of_ownField sound hafter hfound (hnone owner howner))
    | some x =>
      obtain ⟨inner, super, outer, hsupers, hx, hinner⟩ := List.findSome?_eq_some_iff.mp hsuper
      -- the type got no field of this name, since one was found among the supertypes
      have hmissing : q.ownField name type = none := by
        refine hbefore.ownField_eq_none run.start hrecord (run.realOf_eq raw name type ▸ hown) ?_
        intro hnone
        have hall := run.realOf_eq_none raw (.refl g.size [] _) hknown hnone super
          (by rw [hsupers]; simp)
        exact absurd (hx.symm.trans hall) (by simp)
      rw [hmissing, hsupers, List.findSome?_append, List.findSome?_cons,
        run.ownField_of_realOf raw hbefore hx] at hmember
      cases hfound : inner.findSome? (q.ownField name) with
      | none =>
        rw [hfound, Option.none_or, Option.some.injEq] at hmember
        exact .inherited hown hsupers hinner (hmember ▸ hx)
      | some y =>
        rw [hfound, Option.some_or, Option.some.injEq] at hmember
        obtain ⟨nearer, hnearer, hy⟩ := List.exists_of_findSome?_eq_some hfound
        exact .overtaken hown hsupers hinner hx hnearer
          (madeUpFor_of_ownField sound hafter (hmember ▸ hy) (hinner nearer hnearer))

end

/-! ### Accesses -/

section

variable {base : NodeId} {member : Option NodeId} {r₁ r₂ r₃ : Resolver}
  (usage : Usage g index r type name base member r₁ r₂ r₃)

include usage

/-- **What the base of an access means** if its type is declared by a record. -/
theorem Usage.selfOf (start : Sound ⟨g, index⟩) (henum : index.enum? type = none)
    (hrecord : index.record? type = some record) : g.selfOf record = some base ∧ r₂ = r₁ := by
  obtain ⟨done, hbefore⟩ := usage.before
  obtain ⟨o, baseName, rfl, hfinds⟩ := usage.finds
  have hkept := hbefore.records _ _ hrecord
  cases hfinds with
  | enum hfound => rw [hbefore.enum?, henum] at hfound; cases hfound
  | self _ hown hself =>
    obtain rfl := Option.some.inj (hown.symm.trans hkept)
    have hlt := Graph.lt_size_of_tag? (start.records _ _ hrecord)
    exact ⟨hbefore.graph.selfOf_back hlt hself, rfl⟩
  | standIn _ hnone => exact absurd (hnone.symm.trans hkept) (by simp)

/-- **Which field a member access means** if its base has a known type that a record declares, and
only forms of this type are observed on the declaration of the base. -/
theorem meansField (run : Run g t₀ index V₀ V r) (raw : g.Raw) (hknown : type.isUnknown = false)
    (henum : index.enum? type = none) (hrecord : index.record? type = some record)
    (hspells : r.graph.spells .record type record = true) (hforms : r.graph.OnlyForms type base)
    (hmember : member = some field) :
    r.graph.MeansField r.index name type (index.superTypesOf type) field := by
  have hstep := (run.runs.reaches run.start).2
  obtain ⟨done, hbefore⟩ := usage.before
  obtain ⟨done', hafter⟩ := usage.after
  have htype := usage.typeOf raw.selvesBegan henum (hstep.records _ _ hrecord) hspells hforms
  rw [Descriptor.heard, if_neg (by simp [hknown])] at htype
  have hafter' := (usage.during'.weaken (List.nil_subset _)).trans usage.sound' usage.sound'' hafter
  obtain ⟨field', hfield', hfound⟩ := usage.exists_field henum
  obtain rfl := Option.some.inj (hmember.symm.trans hfield')
  obtain ⟨-, rfl⟩ := usage.selfOf run.start henum hrecord
  rw [htype] at hfound
  rcases hfound with hfound | ⟨hmissing, hown, -⟩
  · exact run.meansField_of_memberOf raw hbefore usage.sound' hafter' hknown hrecord hfound
  · have hnone := run.realOf_eq_none raw hbefore hknown hmissing
    exact .standIn hnone List.mem_cons_self
      (madeUpFor_of_ownField usage.sound'' hafter hown (hnone _ List.mem_cons_self))

end

end Resolver.Run

/-- **Field lookups.** Whatever documents a graph was built from, the base of a member access on a
reference of a known type that is declared by a record and by no enumeration becomes the field that
stands for the first such record in the order of the walk. As long as only forms of the type are
observed on this field, the member becomes the first real field of the record, or else that of the
first of its supertypes that has one, or a made-up field of a supertype listed before. Where no field
is real, a made-up one is meant.

**Proof sketch.** The index is that of a walk through the documents, so the record that is found for the type
is the first one in this order. The visit of the access takes its `self` field as base. If only forms of the
type were observed there, the member is searched under this very type, in the record and then in its
supertypes. Whatever a run adds later stands behind and is made up, so the field that was found is still the
one that is meant at the end. -/
theorem Graph.resolveUsages_fields (documents : List (String × Document)) :
    ∃ g index walk, (ofDocuments documents).resolveUsages = .ok (g, index) ∧
      Preorder (ofDocuments documents).parts (ofDocuments documents).units walk ∧
      ∀ usage type name record, (ofDocuments documents).Accesses usage type name →
        type.isUnknown = false →
        walk.find? ((ofDocuments documents).spells .enum type) = none →
        walk.find? ((ofDocuments documents).spells .record type) = some record →
          ∃ self field, g.selfOf record = some self ∧
            g.payload? usage = some (.memberAccess self (some field)) ∧
              (g.OnlyForms type self →
                g.MeansField index name type (g.superTypesOf record) field) := by
  have hg := sprouting_ofDocuments documents
  obtain ⟨r, t₀, index, V₀, V, hresolve, run⟩ := resolveUsages_ok hg.wellFormed
  refine ⟨r.graph, r.index, V₀, hresolve, run.indexed.preorder,
    fun usage type name record haccess hknown henum hrecord => ?_⟩
  have hgrows := (run.runs.reaches run.start).2.graph
  obtain ⟨base, member, r₁, r₂, r₃, hpayload, moment⟩ := run.usage hg haccess
  have hspells := hgrows.spells (List.find?_some hrecord)
  rw [← run.indexed.lists.enums] at henum
  rw [← run.indexed.lists.records] at hrecord
  have htag := run.start.records _ _ hrecord
  obtain ⟨field, rfl, -⟩ := moment.exists_field henum
  refine ⟨base, field, ?_, hpayload, fun hforms => ?_⟩
  · rw [hgrows.selfOf htag, (moment.selfOf run.start henum hrecord).1]
  · have hmeans := Resolver.Run.meansField moment run hg.raw hknown henum hrecord hspells hforms rfl
    rwa [run.indexed.superTypes, hrecord, Option.map_some, Option.getD_some,
      ← hgrows.superTypesOf htag] at hmeans

open Document in
/-- Accesses on a record with two supertypes, of which only the second one has the member `x`. There are
accesses on the first one, and one that takes the field for the record itself for something else. -/
def overtakenFields : List (String × Document) :=
  [("a.json", { declarations :=
    [.record "A" "class" [] [],
     .record "B" "class" [] [.field "x" (some "int") [] none],
     .record "R" "class" ["A", "B"] [.field "y" (some "int") [] none],
     .function "main" none none false [] (some
        [.expression (.member (.ref "a" (some "A") false none) "x" none none none),
         .expression (.member (.ref "r" (some "R") false none) "x" none none none),
         .expression (.member (.ref "a" (some "A") false none) "z" none none none),
         .expression (.member (.ref "r" (some "R") false none) "z" none none none),
         .expression (.member (.ref "r" (some "R") false none) "this" (some "Foo") none none),
         .expression (.member (.ref "r" (some "R") false none) "y" none none none)])] })]

/-- **Where a lookup meets made-up fields.** The first of these accesses means a made-up field of the
first supertype, though the second supertype has a real one. The second access means a made-up field of
a supertype, and none of the record. The third one means a field made up elsewhere, though the record
has a real one, because another type was observed on the field that stands for the record. -/
theorem resolveUsages_fields_overtaken : ∃ g index,
    (Graph.ofDocuments overtakenFields).resolveUsages = .ok (g, index) ∧
      (Graph.ofDocuments overtakenFields).Accesses 19 (.parse "R") "x" ∧
      (Graph.ofDocuments overtakenFields).Accesses 25 (.parse "R") "z" ∧
      (Graph.ofDocuments overtakenFields).Accesses 31 (.parse "R") "y" ∧
      (index.enum? (.parse "R") = none ∧ index.record? (.parse "R") = some 9 ∧
        g.superTypesOf 9 = [.parse "A", .parse "B"] ∧ g.fieldsOf 9 = [8, 10]) ∧
      (g.realOf index "x" (.parse "R") = none ∧ g.realOf index "x" (.parse "A") = none ∧
        g.realOf index "x" (.parse "B") = some 6 ∧
          g.payload? 19 = some (.memberAccess 8 (some 32))) ∧
      g.payload? 25 = some (.memberAccess 8 (some 33)) ∧
      g.realOf index "y" (.parse "R") = some 10 ∧
        g.payload? 31 = some (.memberAccess 8 (some 37)) := by
  obtain ⟨r, _, _, _, _, hresolve, -⟩ :=
    Graph.resolveUsages_ok (Graph.sprouting_ofDocuments overtakenFields).wellFormed
  have hdeclared : ((Graph.ofDocuments overtakenFields).resolveUsages.map fun s => decide (
      s.2.enum? (.parse "R") = none ∧ s.2.record? (.parse "R") = some 9 ∧
        s.1.superTypesOf 9 = [.parse "A", .parse "B"] ∧ s.1.fieldsOf 9 = [8, 10])) = .ok true := by
    decide +kernel
  have hfields : ((Graph.ofDocuments overtakenFields).resolveUsages.map fun s => decide (
      (s.1.realOf s.2 "x" (.parse "R") = none ∧ s.1.realOf s.2 "x" (.parse "A") = none ∧
        s.1.realOf s.2 "x" (.parse "B") = some 6 ∧
          s.1.payload? 19 = some (.memberAccess 8 (some 32))) ∧
      s.1.payload? 25 = some (.memberAccess 8 (some 33)) ∧
      s.1.realOf s.2 "y" (.parse "R") = some 10 ∧
        s.1.payload? 31 = some (.memberAccess 8 (some 37)))) = .ok true := by
    decide +kernel
  rw [hresolve] at hdeclared hfields
  simp only [Except.map, Except.ok.injEq, decide_eq_true_eq] at hdeclared hfields
  exact ⟨r.graph, r.index, hresolve,
    .of_nodes 17 (some 18) (by decide +kernel), .of_nodes 23 (some 24) (by decide +kernel),
    .of_nodes 29 (some 30) (by decide +kernel), hdeclared, hfields⟩

end ProgramGraph
