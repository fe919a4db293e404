import ProgramGraph.Proofs.Lookups.Fields

set_option autoImplicit false

/-!
# Accesses that meet

Two member accesses by one name on references of one type mean the same member if the type is declared
by an enumeration. They do so too if it is declared by a record, even by one that is made up for the
first of them, as long as three things hold. The name of the record spells the type, which is not so
where a record is made up for a pointer; only forms of the type are observed on the declarations of
both bases; and no field of the name is made up for a supertype.

## Main definitions

* `ProgramGraph.Graph.Meets` — two accesses on one type mean the same member.

## Main results

* `ProgramGraph.Resolver.Run.Usage.eq_of_enum` — accesses on enumerations.
* `ProgramGraph.Resolver.Run.dummies_of_unknown`, `ProgramGraph.Resolver.Run.memberOf_eq` — what other
  accesses mean, in terms of the end of the run.
* `ProgramGraph.Graph.resolveUsages_meet` — accesses that mean the same member.
* `ProgramGraph.resolveUsages_meet_pointer` — accesses that do not.
-/

namespace ProgramGraph

/-- Enumerations keep their constants. -/
theorem Graph.Grows.entriesOf {g g' : Graph} {n : Nat} {enum : NodeId} (h : g.Grows n g')
    (henum : g.tag? enum = some .enum) : g'.entriesOf enum = g.entriesOf enum := by
  obtain ⟨node, hnode, htag⟩ := exists_node_of_tag? henum
  obtain ⟨payload', hpayload', hevolves⟩ := h.exists_payload (payload?_eq hnode)
  unfold Graph.entriesOf
  rw [payload?_eq hnode, hpayload']
  unfold Node.tag at htag
  generalize node.payload = payload at hevolves htag
  cases hevolves with
  | same => rfl
  | _ => simp [Payload.tag] at htag

namespace Resolver.Run

variable {g : Graph} {t₀ : ScopeTable} {index : Index} {V₀ V : List NodeId}
  {r r₁ r₂ r₃ : Resolver} {type : Descriptor} {name : String} {base field record : NodeId}
  {member : Option NodeId}

section

variable (usage : Usage g index r type name base member r₁ r₂ r₃)

include usage

/-- **An access on an enumeration** means a constant of it. -/
theorem Usage.eq_of_enum {enum : NodeId} (henum : index.enum? type = some enum) :
    base = enum ∧ member = (r.graph.entriesOf enum).find? (r.graph.isNamed name) := by
  obtain ⟨done, hbefore⟩ := usage.before
  obtain ⟨done', hafter⟩ := usage.after
  obtain ⟨o, baseName, rfl, hfinds⟩ := usage.finds
  rw [← hbefore.enum?] at henum
  cases hfinds with
  | self hnone => rw [henum] at hnone; cases hnone
  | standIn hnone => rw [henum] at hnone; cases hnone
  | enum hfound =>
    obtain rfl := Option.some.inj (hfound.symm.trans henum)
    have htag := usage.sound.enums _ _ henum
    have hlater := usage.during'.graph.trans hafter.graph
    refine ⟨rfl, ?_⟩
    cases usage.means with
    | constant =>
      have hentries : r₁.graph.All (· == .enumConstant) (r₁.graph.entriesOf base) :=
        usage.sound.wellFormed.typed.all_entriesOf
      rw [hlater.entriesOf htag, hlater.find?_isNamed fun id hid => hentries.lt_size hid]
    | found hnot => exact absurd htag hnot
    | standIn hnot => exact absurd htag hnot

variable (raw : g.Raw) (henum : index.enum? type = none)
  (hrecord : r.index.record? type = some record)
  (hspells : r.graph.spells .record type record = true) (hforms : r.graph.OnlyForms type base)

include raw henum hrecord hspells hforms

/-- **An access on an unknown type** means what stands in for the member of unknown types. -/
theorem dummies_of_unknown (hunknown : type.isUnknown = true) :
    ∃ field, member = some field ∧ r.index.dummies.get? (.unknown, name) = some field := by
  have htype := usage.typeOf raw.selvesBegan henum hrecord hspells hforms
  rw [Descriptor.heard, if_pos hunknown] at htype
  obtain ⟨field, hmember, hfound⟩ := usage.exists_field henum
  obtain ⟨done, hafter⟩ := usage.after
  rw [htype] at hfound
  rcases hfound with hfound | ⟨-, -, hdummy⟩
  · exact absurd ((memberOf_of_isUnknown _ name rfl).symm.trans hfound) (by simp)
  · exact ⟨field, hmember, hafter.dummies _ _ hdummy⟩

/-- **An access on a known type** means the member that is found in the end, if no field of its name
is made up for a supertype.

**Proof sketch.** The field was found for the type at the moment of the access, under some type of its line.
The types before this one had no such field then. The type itself gets none later, as a member was found, and
the supertypes get none by hypothesis, so the search ends with the same field. -/
theorem memberOf_eq (run : Run g t₀ index V₀ V r) (hknown : type.isUnknown = false)
    (hclear : ∀ super ∈ index.superTypesOf type, ∀ field,
      ¬ r.graph.MadeUpFor r.index name super field) :
    ∃ field, member = some field ∧ r.memberOf type name = some field := by
  have hstep := (run.runs.reaches run.start).2
  have htype := usage.typeOf raw.selvesBegan henum hrecord hspells hforms
  rw [Descriptor.heard, if_neg (by simp [hknown])] at htype
  obtain ⟨done, hbefore⟩ := usage.before
  obtain ⟨done', hafter⟩ := usage.after
  obtain ⟨field, hmember, hfound⟩ := usage.exists_field henum
  refine ⟨field, hmember, ?_⟩
  rw [htype] at hfound
  rw [memberOf, lineage_eq hstep hknown]
  rcases hfound with hfound | ⟨-, hown, -⟩
  · -- what comes before the field is not found later on either
    have hmoment := (hbefore.trans run.start usage.sound
      (usage.during.weaken (List.nil_subset _)))
    have hlater := (usage.during'.weaken (List.nil_subset _)).trans usage.sound' usage.sound''
      hafter
    obtain ⟨own, hown⟩ := usage.exists_record henum
    have hmissing : r₂.memberOf type name ≠ none := by rw [hfound]; simp
    rw [memberOf, lineage_eq hmoment hknown] at hfound
    obtain ⟨inner, owner, outer, htypes, howner, hinner⟩ := List.findSome?_eq_some_iff.mp hfound
    refine List.findSome?_eq_some_iff.mpr ⟨inner, owner, outer, htypes,
      hlater.ownField usage.sound' howner, fun nearer hnearer => ?_⟩
    have hmem : nearer ∈ type :: index.superTypesOf type :=
      htypes ▸ List.mem_append_left _ hnearer
    rcases List.mem_cons.mp hmem with rfl | hsuper
    · exact hlater.ownField_eq_none usage.sound' hown (hinner _ hnearer) hmissing
    · by_contra hsome
      obtain ⟨x, hx⟩ := Option.ne_none_iff_exists'.mp hsome
      refine hclear nearer hsuper x (madeUpFor hx ?_)
      by_contra hreal
      obtain ⟨y, hy⟩ := Option.ne_none_iff_exists'.mp hreal
      have hy' := run.ownField_of_realOf raw hmoment hy
      exact absurd (hy'.symm.trans (hinner _ hnearer)) (by simp)
  · rw [List.findSome?_cons, hafter.ownField usage.sound'' hown]

end

end Resolver.Run

/-- Two accesses by one name on references of one type, with their bases and members, mean the same member
after a resolution, where they should. -/
structure Graph.Meets (g : Graph) (index : Index) (type : Descriptor) (name : String)
    (base base' : NodeId) (member member' : Option NodeId) : Prop where
  /-- If an enumeration declares the type, base and member are the same. -/
  enum : index.enum? type ≠ none → base = base' ∧ member = member'
  /-- Otherwise there is a record for the type, and if its name spells the type, only forms of the type are
  observed on both bases and no field of the name is made up for a supertype, the member is the same field. -/
  record : index.enum? type = none → ∃ record, index.record? type = some record ∧
    (g.spells .record type record = true → g.OnlyForms type base → g.OnlyForms type base' →
      (∀ super ∈ index.superTypesOf type, ∀ field, ¬ g.MadeUpFor index name super field) →
        ∃ field, member = some field ∧ member' = some field)

/-- **Accesses that meet.** Whatever documents a graph was built from, two member accesses by one name on
references of one type mean the same member after one resolution if an enumeration declares the type.
Otherwise a record is there for the type, and they mean the same field if the name of the record spells
the type, only forms of the type are observed on the declarations of both bases, and no field of the
name is made up for a supertype.

**Proof sketch.** Each of the two members is the field that is found for the type at the moment of its access,
or a new one if there is none. Fields found or made up for a type are found again for the rest of the run, as
long as nothing nearer appears, so what either access means can be said in terms of the end of the run, where
it is one field. -/
theorem Graph.resolveUsages_meet (documents : List (String × Document)) :
    ∃ g index, (ofDocuments documents).resolveUsages = .ok (g, index) ∧
      ∀ usage usage' type name, (ofDocuments documents).Accesses usage type name →
        (ofDocuments documents).Accesses usage' type name →
          ∃ base base' member member', g.payload? usage = some (.memberAccess base member) ∧
            g.payload? usage' = some (.memberAccess base' member') ∧
              g.Meets index type name base base' member member' := by
  have hg := sprouting_ofDocuments documents
  obtain ⟨r, t₀, index, V₀, V, hresolve, run⟩ := resolveUsages_ok hg.wellFormed
  refine ⟨r.graph, r.index, hresolve, fun usage usage' type name haccess haccess' => ?_⟩
  have hstep := (run.runs.reaches run.start).2
  obtain ⟨base, member, r₁, r₂, r₃, hpayload, moment⟩ := run.usage hg haccess
  obtain ⟨base', member', q₁, q₂, q₃, hpayload', moment'⟩ := run.usage hg haccess'
  refine ⟨base, base', member, member', hpayload, hpayload', fun hsome => ?_, fun henum => ?_⟩
  · obtain ⟨enum, henum⟩ := Option.ne_none_iff_exists'.mp hsome
    rw [hstep.enum?] at henum
    obtain ⟨rfl, rfl⟩ := moment.eq_of_enum henum
    obtain ⟨rfl, rfl⟩ := moment'.eq_of_enum henum
    exact ⟨rfl, rfl⟩
  · rw [hstep.enum?] at henum
    obtain ⟨record, hrecord⟩ := moment.exists_record henum
    obtain ⟨done, hafter⟩ := moment.after
    have hfinal := hafter.records _ _ (moment.during'.records _ _ hrecord)
    refine ⟨record, hfinal, fun hspells hforms hforms' hclear => ?_⟩
    have hsupers : ∀ super ∈ index.superTypesOf type, ∀ field,
        ¬ r.graph.MadeUpFor r.index name super field := by
      rwa [hstep.superTypesOf] at hclear
    cases hknown : type.isUnknown with
    | true =>
      obtain ⟨field, hmember, hfield⟩ := Resolver.Run.dummies_of_unknown moment hg.raw henum hfinal
        hspells hforms hknown
      obtain ⟨field', hmember', hfield'⟩ := Resolver.Run.dummies_of_unknown moment' hg.raw henum
        hfinal hspells hforms' hknown
      obtain rfl := Option.some.inj (hfield.symm.trans hfield')
      exact ⟨field, hmember, hmember'⟩
    | false =>
      obtain ⟨field, hmember, hfield⟩ := Resolver.Run.memberOf_eq moment hg.raw henum hfinal hspells
        hforms run hknown hsupers
      obtain ⟨field', hmember', hfield'⟩ := Resolver.Run.memberOf_eq moment' hg.raw henum hfinal
        hspells hforms' run hknown hsupers
      obtain rfl := Option.some.inj (hfield.symm.trans hfield')
      exact ⟨field, hmember, hmember'⟩

open Document in
/-- Two accesses by one name on references of one pointer type that nothing declares. -/
def pointerAccesses : List (String × Document) :=
  [("a.json", { declarations := [.function "main" none none false [] (some
      [.expression (.member (.ref "u" (some "Foo*") false none) "y" none none none),
       .expression (.member (.ref "v" (some "Foo*") false none) "y" none none none)])] })]

/-- **Accesses that do not meet.** The record that is made up for the pointer type has the name of the
type without the pointer. So the field that stands for the record, which is the base of the second
access, has another type than the base of the first one, and another record is made up for it. -/
theorem resolveUsages_meet_pointer : ∃ g index,
    (Graph.ofDocuments pointerAccesses).resolveUsages = .ok (g, index) ∧
      (Graph.ofDocuments pointerAccesses).Accesses 5 (.parse "Foo*") "y" ∧
      (Graph.ofDocuments pointerAccesses).Accesses 8 (.parse "Foo*") "y" ∧
      g.payload? 5 = some (.memberAccess 12 (some 13)) ∧
      g.payload? 8 = some (.memberAccess 10 (some 16)) ∧
      (g.typeOf 12).type = .parse "Foo*" ∧ (g.typeOf 10).type = .parse "Foo" := by
  obtain ⟨r, _, _, _, _, hresolve, -⟩ :=
    Graph.resolveUsages_ok (Graph.sprouting_ofDocuments pointerAccesses).wellFormed
  have heval : ((Graph.ofDocuments pointerAccesses).resolveUsages.map fun s => decide (
      s.1.payload? 5 = some (.memberAccess 12 (some 13)) ∧
        s.1.payload? 8 = some (.memberAccess 10 (some 16)) ∧
          (s.1.typeOf 12).type = .parse "Foo*" ∧ (s.1.typeOf 10).type = .parse "Foo")) =
        .ok true := by
    decide +kernel
  rw [hresolve] at heval
  simp only [Except.map, Except.ok.injEq, decide_eq_true_eq] at heval
  exact ⟨r.graph, r.index, hresolve, .of_nodes 3 (some 4) (by decide +kernel),
    .of_nodes 6 (some 7) (by decide +kernel), heval⟩

end ProgramGraph
