import ProgramGraph.Proofs.Lookups.Meeting

set_option autoImplicit false

/-!
# Bases of member accesses

The base of a member access that is a reference means the enumeration or the record that declares its
type, the latter by the field that stands for the record. If no document declares the type, a record
is made up for it, and from then on the type is declared like any other. So the accesses on references
of one type have one base, all but one: the access for which the record is made up gets a field of the
record that is named after the reference, and no other access has this field as its base.

## Main definitions

* `ProgramGraph.Graph.BasedOn` — a member access on a reference of a name and a type.
* `ProgramGraph.Graph.StrayBase` — a made-up field that is the base of an access, but does not stand for
  its record.
* `ProgramGraph.Graph.HasBase` — what the base of an access is, and `ProgramGraph.Graph.GotStray`, the one
  exception.

## Main results

* `ProgramGraph.Resolver.Runs.exists_record` — a type has a record once an access on it was resolved.
* `ProgramGraph.Resolver.Runs.base_cases` — what the base of an access is.
* `ProgramGraph.Graph.resolveUsages_bases` — the bases of accesses on one type.
* `ProgramGraph.resolveUsages_bases_apart` — two accesses with different bases.
-/

namespace ProgramGraph

namespace Graph

/-- A member access on a reference of a name and a type. -/
def BasedOn (g : Graph) (usage : NodeId) (type : Descriptor) (name : String) : Prop :=
  ∃ base member belief, g.payload? usage = some (.memberAccess base member) ∧
    g.tag? base = some .reference ∧ g.name? base = some name ∧ g.belief? base = some belief ∧
      belief.type.type = type

/-- A member access on a reference in terms of its nodes. -/
theorem BasedOn.of_nodes {g : Graph} {usage : NodeId} {type : Descriptor} {name : String}
    (base : NodeId) (member : Option NodeId)
    (h : g.payload? usage = some (.memberAccess base member) ∧ g.tag? base = some .reference ∧
      g.name? base = some name ∧ (g.belief? base).any (fun b => b.type.type == type) = true) :
    g.BasedOn usage type name := by
  obtain ⟨hpayload, htag, hname, hbelief⟩ := h
  obtain ⟨b, hb, htype⟩ := (Option.any_eq_true _ _).mp hbelief
  exact ⟨base, member, b, hpayload, htag, hname, hb, beq_iff_eq.mp htype⟩

/-- A made-up field of a name, in a made-up record, that does not stand for the record. -/
structure StrayBase (g : Graph) (record base : NodeId) (name : String) : Prop where
  /-- The record is made up. -/
  madeRecord : g.IsMadeUp record
  /-- It has the field. -/
  mem : base ∈ g.fieldsOf record
  /-- The field is made up. -/
  madeField : g.IsMadeUp base
  /-- It has the name. -/
  named : g.name? base = some name
  /-- It does not stand for the record. -/
  other : g.selfOf record ≠ some base

section

variable (start g : Graph) (declared index : Index) (visited : List NodeId) (usage base : NodeId)
  (type : Descriptor) (name : String)

/-- An access whose base is a made-up field that does not stand for its record, and how it came to it. -/
structure GotStray (record : NodeId) : Prop where
  /-- No document declares a record for the type. -/
  undeclared : declared.record? type = none
  /-- The base is a made-up field of the record, named after the reference. -/
  stray : g.StrayBase record base name
  /-- Of the accesses on the type it is the first one that is visited. -/
  first : ∃ before after, visited = before ++ usage :: after ∧
    ∀ other name', start.BasedOn other type name' → other ≠ usage → other ∈ after
  /-- The bases of all others stand for the record. -/
  others : ∀ other name', start.BasedOn other type name' → other ≠ usage → ∃ base' member',
    g.payload? other = some (.memberAccess base' member') ∧ g.selfOf record = some base'

/-- What the base of an access on a reference of a name and a type is. -/
structure HasBase : Prop where
  /-- If an enumeration declares the type, the base is the enumeration. -/
  enum : ∀ enum, index.enum? type = some enum → base = enum
  /-- Otherwise there is a record for the type, and the base is the field that stands for it, with one
  exception. -/
  record : index.enum? type = none → ∃ record, index.record? type = some record ∧
    (g.selfOf record = some base ∨ GotStray start g declared visited usage base type name record)

end

end Graph

namespace Resolver

variable {g : Graph} {t₀ : ScopeTable} {index : Index} {V₀ V before after : List NodeId}
  {r r₁ r₂ : Resolver} {id base : NodeId} {member : Option NodeId} {type : Descriptor} {name : String}

/-! ## The moment of an access -/

/-- The base of an access whose type no enumeration declares has a record afterwards. -/
theorem FindsBase.exists_record {o : Observation} (h : r₁.FindsBase o name base r₂)
    (henum : r₁.index.enum? o.type = none) : ∃ record, r₂.index.record? o.type = some record := by
  cases h with
  | enum hfound => rw [henum] at hfound; cases hfound
  | self _ hrecord _ => exact ⟨_, hrecord⟩
  | standIn _ _ _ hown =>
    obtain ⟨record, hrecord, -⟩ := Sound.exists_record hown
    exact ⟨record, hrecord⟩

/-- The base of an access whose type an enumeration declares is the enumeration. -/
theorem FindsBase.eq_of_enum {o : Observation} {enum : NodeId} (h : r₁.FindsBase o name base r₂)
    (henum : r₁.index.enum? o.type = some enum) : base = enum := by
  cases h with
  | enum hfound => exact Option.some.inj (hfound.symm.trans henum)
  | self hnone => rw [henum] at hnone; cases hnone
  | standIn hnone => rw [henum] at hnone; cases hnone

/-- **How a base was found,** at a point of a run. -/
theorem Runs.findsBase (runs : Runs g.size t₀ ⟨g, index⟩ (before ++ id :: after) r)
    (start : Sound ⟨g, index⟩) (raw : g.Raw) (hbased : g.BasedOn id type name)
    (hpayload : r.graph.payload? id = some (.memberAccess base member)) :
    ∃ r₁ r₂ o, Runs g.size t₀ ⟨g, index⟩ before r₁ ∧ r₁.Sound ∧ r₂.Sound ∧ o.type = type ∧
      r₁.FindsBase o name base r₂ ∧ ∃ done, Step g.size done r₂ r := by
  obtain ⟨old, oldMember, b, hold, htag, hname, hb, htype⟩ := hbased
  obtain ⟨-, old', oldMember', r₁, r₂, r₃, hold', hruns, moment⟩ := runs.access start hpayload
  obtain ⟨rfl, rfl⟩ := Payload.memberAccess.inj (Option.some.inj (hold'.symm.trans hold))
  have hbefore := (hruns.reaches start).2
  have hkept := moment.typeOf_base start raw hold htag hb
  obtain ⟨done, hafter⟩ := moment.after
  refine ⟨r₁, r₂, r₁.graph.typeOf old', hruns, moment.sound, moment.sound', ?_, ?_, done, ?_⟩
  · rw [hkept, Graph.typeOf, hb]
    exact htype
  · cases moment.base with
    | stays hnot => exact absurd (hbefore.graph.tag? htag) hnot
    | found _ hname' hfinds =>
      obtain rfl := Option.some.inj (hname'.symm.trans (hbefore.graph.name? hname))
      exact hfinds
  · exact (moment.during'.weaken (List.nil_subset _)).trans moment.sound' moment.sound'' hafter

/-- **A type has a record** once an access on a reference of the type was resolved. -/
theorem Runs.exists_record (runs : Runs g.size t₀ ⟨g, index⟩ V r) (start : Sound ⟨g, index⟩) (raw : g.Raw)
    (hid : id ∈ V) (hbased : g.BasedOn id type name) (henum : index.enum? type = none) :
    ∃ record, r.index.record? type = some record := by
  obtain ⟨before, after, rfl⟩ := List.append_of_mem hid
  have haccess := hbased
  obtain ⟨old, oldMember, -, hold, -⟩ := haccess
  obtain ⟨base, member, hpayload⟩ := (runs.reaches start).2.graph.exists_access hold
  obtain ⟨r₁, r₂, o, hruns, -, -, rfl, hfinds, done, hafter⟩ :=
    runs.findsBase start raw hbased hpayload
  obtain ⟨record, hrecord⟩ := hfinds.exists_record ((hruns.reaches start).2.enum? o.type ▸ henum)
  exact ⟨record, hafter.records _ _ hrecord⟩

/-! ## What the base is -/

/-- **What the base of an access is** if no enumeration declares its type: the field that stands for the
record of the type, or else a made-up field of it. In the latter case the type had no record up to the
access.

**Proof sketch.** By the way in which the base was found. If it stands in, the type had no record before, so
the record and all its parts are new and made up. -/
theorem Runs.base_cases (runs : Runs g.size t₀ ⟨g, index⟩ (before ++ id :: after) r)
    (start : Sound ⟨g, index⟩) (raw : g.Raw) (hbased : g.BasedOn id type name)
    (hpayload : r.graph.payload? id = some (.memberAccess base member)) (henum : index.enum? type = none) :
    ∃ record, r.index.record? type = some record ∧
      (r.graph.selfOf record = some base ∨ r.graph.StrayBase record base name ∧
        ∃ r₁, Runs g.size t₀ ⟨g, index⟩ before r₁ ∧ r₁.index.record? type = none) := by
  obtain ⟨r₁, r₂, o, hruns, hsound, hsound', rfl, hfinds, done, hafter⟩ :=
    runs.findsBase start raw hbased hpayload
  have hbefore := (hruns.reaches start).2
  have hgrows := (runs.reaches start).2.graph
  cases hfinds with
  | enum hfound => rw [hbefore.enum?, henum] at hfound; cases hfound
  | @self record _ hrecord hself =>
    refine ⟨record, hafter.records _ _ hrecord, Or.inl ?_⟩
    rw [hafter.graph.selfOf (hsound.records _ _ hrecord), hself]
  | standIn _ hnone _ hown =>
    obtain ⟨record, hrecord, hfield⟩ := Sound.exists_record (hafter.ownField hsound' hown)
    refine ⟨record, hrecord, ?_⟩
    by_cases hself : r.graph.selfOf record = some base
    · exact Or.inl hself
    obtain ⟨hmem, hname⟩ := Graph.mem_of_fieldOf hfield
    -- the record is new, and so are its parts
    have hrecord₀ : g.size ≤ record := by
      refine ((runs.reaches start).2.made _ _ hrecord).resolve_left fun hold => ?_
      exact absurd (hnone.symm.trans (hbefore.records _ _ hold)) (by simp)
    have hpart := Graph.mem_parts_of_mem_fieldsOf hmem
    have hbase₀ : g.size ≤ base := by
      refine (hgrows.mem_parts_back hpart).resolve_left fun hold => ?_
      obtain ⟨node, hnode, -⟩ := Graph.exists_node_of_mem_parts hold
      exact absurd (Graph.lt_size hnode) (Nat.not_lt.mpr hrecord₀)
    obtain ⟨node, hnode, -⟩ := Graph.exists_node_of_mem_parts hpart
    obtain ⟨node', hnode', -⟩ := Graph.exists_node_of_name? hname
    exact Or.inr ⟨⟨hgrows.isMadeUp hrecord₀ (Graph.lt_size hnode), hmem,
      hgrows.isMadeUp hbase₀ (Graph.lt_size hnode'), hname, hself⟩, r₁, hruns, hnone⟩

/-- **An access is not the first one on its type** if another was resolved before it. Then its base is the
field that stands for the record of the type. -/
theorem Runs.selfOf_of_mem (runs : Runs g.size t₀ ⟨g, index⟩ (before ++ id :: after) r)
    (start : Sound ⟨g, index⟩) (raw : g.Raw) (hbased : g.BasedOn id type name)
    (hpayload : r.graph.payload? id = some (.memberAccess base member)) (henum : index.enum? type = none)
    {other : NodeId} {name' : String} (hother : other ∈ before) (hbased' : g.BasedOn other type name') :
    ∃ record, r.index.record? type = some record ∧ r.graph.selfOf record = some base := by
  obtain ⟨record, hrecord, hself | ⟨-, r₁, hruns, hnone⟩⟩ :=
    runs.base_cases start raw hbased hpayload henum
  · exact ⟨record, hrecord, hself⟩
  · obtain ⟨earlier, hearlier⟩ := hruns.exists_record start raw hother hbased' henum
    exact absurd (hnone.symm.trans hearlier) (by simp)

end Resolver

open Resolver in
/-- **Bases.** Whatever documents a graph was built from, and whatever the type of the references is, the
bases of member accesses on them are the enumeration that declares the type, if there is one. Otherwise
a record is there for the type, and the base of an access is the field that stands for the record. There is
one exception at most, and only where no document declares a record for the type: then the base of the
first of these accesses that is visited may be another made-up field of the record, named after its
reference.

**Proof sketch.** Once an access on a reference of a type was resolved, the type has an enumeration or a
record, and keeps it. So only the first of the accesses can find none, and then a record is made up with a
field for the reference. All others find the record, and with it the field that stands for it. -/
theorem Graph.resolveUsages_bases (documents : List (String × Document)) :
    ∃ t₀ index₀ t g index visited, Index.build (ofDocuments documents) = .ok (t₀, index₀) ∧
      walkAll Resolver.handler.logged t₀ (ofDocuments documents) (index₀, [])
        (ofDocuments documents).units = .ok (t, g, index, visited) ∧
      (ofDocuments documents).resolveUsages = .ok (g, index) ∧
      ∀ usage type name, (ofDocuments documents).BasedOn usage type name →
        ∃ base member, g.payload? usage = some (.memberAccess base member) ∧
          HasBase (ofDocuments documents) g index₀ index visited usage base type name := by
  have hg := sprouting_ofDocuments documents
  obtain ⟨r, t₀, t, index, V₀, V, hresolve, hwalk, run⟩ := resolveUsages_logged hg.wellFormed
  have hstep := (run.runs.reaches run.start).2
  refine ⟨t₀, index, t, r.graph, r.index, V, run.built, hwalk, hresolve, ?_⟩
  generalize ofDocuments documents = g at *
  -- every access on a reference is visited
  have hvisited : ∀ {usage type name}, g.BasedOn usage type name →
      usage ∈ V ∧ ∃ base member, r.graph.payload? usage = some (.memberAccess base member) := by
    rintro usage type name ⟨old, oldMember, -, hold, -⟩
    obtain ⟨base, member, hpayload⟩ := hstep.graph.exists_access hold
    exact ⟨run.mem_of_linked hg hpayload (Or.inl rfl), base, member, hpayload⟩
  intro usage type name hbased
  obtain ⟨hmem, base, member, hpayload⟩ := hvisited hbased
  obtain ⟨before, after, rfl⟩ := List.append_of_mem hmem
  refine ⟨base, member, hpayload, fun enum henum => ?_, fun henum => ?_⟩ <;> rw [hstep.enum?] at henum
  · obtain ⟨r₁, r₂, o, hruns, -, -, rfl, hfinds, -⟩ :=
      run.runs.findsBase run.start hg.raw hbased hpayload
    exact hfinds.eq_of_enum (((hruns.reaches run.start).2.enum? o.type).trans henum)
  · obtain ⟨record, hrecord, hself | ⟨hstray, r₁, hruns, hnone⟩⟩ :=
      run.runs.base_cases run.start hg.raw hbased hpayload henum
    · exact ⟨record, hrecord, Or.inl hself⟩
    have hlater : ∀ other name', g.BasedOn other type name' → other ≠ usage → other ∈ after := by
      intro other name' hbased' hne
      rcases List.mem_append.mp (hvisited hbased').1 with hearlier | hlater
      · obtain ⟨earlier, hearlier⟩ := hruns.exists_record run.start hg.raw hearlier hbased' henum
        exact absurd (hnone.symm.trans hearlier) (by simp)
      · exact (List.mem_cons.mp hlater).resolve_left hne
    refine ⟨record, hrecord, Or.inr ⟨?_, hstray, ⟨before, after, rfl, hlater⟩,
      fun other name' hbased' hne => ?_⟩⟩
    · by_contra hsome
      obtain ⟨declared, hdeclared⟩ := Option.ne_none_iff_exists'.mp hsome
      exact absurd (hnone.symm.trans ((hruns.reaches run.start).2.records _ _ hdeclared)) (by simp)
    · obtain ⟨-, base', member', hpayload'⟩ := hvisited hbased'
      have hlater := hlater other name' hbased' hne
      obtain ⟨between, rest, rfl⟩ := List.append_of_mem hlater
      have runs := run.runs
      rw [← List.cons_append, ← List.append_assoc] at runs
      obtain ⟨record', hrecord', hself⟩ := runs.selfOf_of_mem run.start hg.raw hbased' hpayload' henum
        (List.mem_append_right _ List.mem_cons_self) hbased
      obtain rfl := Option.some.inj (hrecord'.symm.trans hrecord)
      exact ⟨base', member', hpayload', hself⟩

open Document in
/-- Two accesses on references of one name and one type that nothing declares. -/
def undeclaredAccesses : List (String × Document) :=
  [("a.json", { declarations := [.function "main" none none false [] (some
      [.expression (.member (.ref "u" (some "Foo") false none) "y" none none none),
       .expression (.member (.ref "u" (some "Foo") false none) "y" none none none)])] })]

/-- **Bases that differ.** The base of the first access is the field that is made up for the reference, and
that of the second one is the field that stands for the record that was made up with it. -/
theorem resolveUsages_bases_apart : ∃ g index,
    (Graph.ofDocuments undeclaredAccesses).resolveUsages = .ok (g, index) ∧
      index.enum? (.parse "Foo") = none ∧
      (Graph.ofDocuments undeclaredAccesses).BasedOn 5 (.parse "Foo") "u" ∧
      (Graph.ofDocuments undeclaredAccesses).BasedOn 8 (.parse "Foo") "u" ∧
      g.payload? 5 = some (.memberAccess 12 (some 13)) ∧
      g.payload? 8 = some (.memberAccess 10 (some 13)) := by
  obtain ⟨r, _, _, _, _, hresolve, -⟩ :=
    Graph.resolveUsages_ok (Graph.sprouting_ofDocuments undeclaredAccesses).wellFormed
  have heval : ((Graph.ofDocuments undeclaredAccesses).resolveUsages.map fun s => decide (
      s.2.enum? (.parse "Foo") = none ∧ s.1.payload? 5 = some (.memberAccess 12 (some 13)) ∧
        s.1.payload? 8 = some (.memberAccess 10 (some 13)))) = .ok true := by
    decide +kernel
  rw [hresolve] at heval
  simp only [Except.map, Except.ok.injEq, decide_eq_true_eq] at heval
  exact ⟨r.graph, r.index, hresolve, heval.1, .of_nodes 3 (some 4) (by decide +kernel),
    .of_nodes 6 (some 7) (by decide +kernel), heval.2⟩

end ProgramGraph
