import ProgramGraph.Proofs.Resolution.State

set_option autoImplicit false

/-!
# Resolving members

What is made up, and what a member of a type is resolved to. None of it fails, and each step leaves
the index right about the graph.

## Main definitions

* `ProgramGraph.Resolver.Reaches` — a step that leaves the index right and makes few nodes.
* `ProgramGraph.Resolver.FindsMember` — how the field for a member of a type is found.

## Main results

* `ProgramGraph.Resolver.Sound.makeRecord`, `ProgramGraph.Resolver.Sound.makeField` — what is made
  up.
* `ProgramGraph.Resolver.Sound.standIn` — the field that stands in for a member.
* `ProgramGraph.Resolver.Sound.resolveMember` — the field for a member of a type.
-/

namespace ProgramGraph.Resolver

variable {r r' r'' : Resolver} {owner type : Descriptor} {name : String} {field record : NodeId}
  {n k l : Nat} {done : List NodeId}

/-! ## Steps -/

/-- A step that leaves the index right about the graph and makes at most so many nodes. -/
structure Reaches (n : Nat) (done : List NodeId) (k : Nat) (r r' : Resolver) : Prop where
  /-- The index stays right. -/
  sound : r'.Sound
  /-- The step is one of a resolution. -/
  step : Step n done r r'
  /-- Few nodes are made. -/
  size : r'.graph.size ≤ r.graph.size + k

namespace Reaches

/-- A resolver that does nothing makes no nodes. -/
theorem refl (h : r.Sound) (n : Nat) (done : List NodeId) : Reaches n done 0 r r :=
  ⟨h, .refl n done r, Nat.le_refl _⟩

/-- Steps, one after the other. The nodes that they make are counted together. -/
theorem trans (h : r.Sound) (hr : Reaches n done k r r') (hr' : Reaches n done l r' r'') :
    Reaches n done (k + l) r r'' := by
  refine ⟨hr'.sound, hr.step.trans h hr.sound hr'.step, ?_⟩
  have := hr.size
  have := hr'.size
  omega

/-- A step that makes few nodes makes no more than many. -/
theorem mono (hr : Reaches n done k r r') (hkl : k ≤ l) : Reaches n done l r r' :=
  ⟨hr.sound, hr.step, Nat.le_trans hr.size (Nat.add_le_add_left hkl _)⟩

/-- More usages may be resolved. -/
theorem weaken {more : List NodeId} (hr : Reaches n done k r r') (hsubset : done ⊆ more) :
    Reaches n more k r r' :=
  ⟨hr.sound, hr.step.weaken hsubset, hr.size⟩

/-- A step stays one when the counters change. -/
theorem count (hr : Reaches n done k r r') (f : Counters → Counters) :
    Reaches n done k r (r'.count f) where
  sound := ⟨hr.sound.wellFormed, hr.sound.records, hr.sound.enums, hr.sound.injective,
    hr.sound.superTypes, hr.sound.dummies, hr.sound.placeholderUnit⟩
  step := ⟨hr.step.graph, hr.step.usages, hr.step.records, hr.step.made, hr.step.enums,
    hr.step.superTypes, hr.step.dummies, hr.step.missing, hr.step.refines, hr.step.selves,
    hr.step.changes, hr.step.hung⟩
  size := hr.size

/-- A step in which only notes and beliefs change. -/
theorem of_sameTree (h : r.Sound) {g : Graph} (hsame : r.graph.SameTree g) (n : Nat)
    (done : List NodeId) (hrefines : ∀ D, r.graph.Stirred D done → Graph.Refines D r.graph g)
    (hchanges : Graph.Changes done r.graph g) : Reaches n done 0 r { r with graph := g } where
  sound := h.of_grows (hsame.wellFormed h.wellFormed) (.of_sameTree n hsame)
  step := by
    refine ⟨.of_sameTree n hsame, fun id payload _ hpayload _ => ?_, fun _ _ hrecord => hrecord,
      fun _ _ hrecord => Or.inl hrecord, rfl, rfl, fun _ _ hfield => hfield,
      fun type record _ field hfield => Or.inl ?_, hrefines, fun hselves => ?_, hchanges,
      .of_size hsame.size⟩
    · rw [hsame.payload?, hpayload]
    · unfold Graph.fieldsOf at hfield ⊢
      rwa [hsame.payload?] at hfield
    · exact hselves.of_size (hrefines _ (.all done _)) (.of_sameTree n hsame) hsame.size
  size := Nat.le_of_eq hsame.size

end Reaches

/-- How the field for a member of a type is found: it is there, or it stands in and is remembered. -/
inductive FindsMember (r : Resolver) (owner : Descriptor) (name : String) (field : NodeId) :
    Resolver → Prop where
  /-- The field is there. -/
  | found (hmember : r.memberOf owner name = some field) : FindsMember r owner name field r
  /-- The field stands in. -/
  | standIn {r' : Resolver} {o : Observation} (hmissing : r.memberOf owner name = none)
    (hstand : r.standIn owner name o = .ok (field, r')) (hown : r'.ownField name owner = some field)
    (hdummy : r'.index.dummies.get? (owner, name) = some field) : FindsMember r owner name field r'

/-! ## Made-up records -/

namespace Sound

/-- Where a made-up record is put: the unit for made-up declarations, which is made if need be. -/
theorem exists_unit (h : r.Sound) (hn : n ≤ r.graph.size) : ∃ unit g,
    (r.index.placeholderUnit = some unit ∧ r.graph = g ∨
      r.index.placeholderUnit = none ∧ r.graph.placeholderUnit = (unit, g)) ∧
        r.graph.Enlarges n g ∧ g.size ≤ r.graph.size + 1 ∧ g.IsMadeUpUnit unit ∧
          ∀ id payload, r.graph.payload? id = some payload → g.payload? id = some payload := by
  cases hunit : r.index.placeholderUnit with
  | some unit =>
    exact ⟨unit, r.graph, Or.inl ⟨rfl, rfl⟩, .refl h.wellFormed n, Nat.le_succ _,
      h.placeholderUnit _ hunit, fun _ _ hpayload => hpayload⟩
  | none =>
    obtain ⟨-, -, hsize, hmade⟩ := h.wellFormed.placeholderUnit hn
    exact ⟨_, _, Or.inr ⟨rfl, rfl⟩, .placeholderUnit h.wellFormed hn, hsize, hmade,
      fun _ _ hpayload => Graph.payload?_placeholderUnit hpayload⟩

section PutRecord

variable {unit : NodeId} {g : Graph} (henlarges : r.graph.Enlarges n g)
  (hnone : r.index.record? type = none) (hnew : r.graph.size ≤ record)

include henlarges hnone hnew

/-- **The index stays right** when a new record is indexed for a type that has none.

**Proof sketch.** The index differs at the type only, under which nothing was to be found. So each condition
is the old one, or one about the new record, which is no node of the old graph and hence different from all
others. -/
theorem putRecord (h : r.Sound) (hrecord : g.tag? record = some .record)
    (hunit : g.IsMadeUpUnit unit) :
    Sound { graph := g
            index := { r.index with
              placeholderUnit := some unit, records := r.index.records.put type record } } := by
  obtain ⟨hwf, hgrows, -⟩ := henlarges
  have hget : ∀ other, (r.index.records.put type record).get? other =
      if other = type then some record else r.index.record? other := fun other => Assoc.get?_put ..
  have hne : ∀ {other found}, r.index.record? other = some found → found ≠ record := by
    rintro other found hother rfl
    exact absurd (Graph.lt_size_of_tag? (h.records _ _ hother)) (Nat.not_lt.mpr hnew)
  refine ⟨hwf, fun other found hother => ?_, fun _ _ henum => hgrows.tag? (h.enums _ _ henum),
    fun other another found hother hanother => ?_, fun other hother => ?_,
    fun other name field hfield => ?_, fun other hother => Option.some.inj hother ▸ hunit⟩
  · rw [Index.record?, hget] at hother
    split at hother
    · rw [← Option.some.inj hother, hrecord]
    · exact hgrows.tag? (h.records _ _ hother)
  · rw [Index.record?, hget] at hother hanother
    split at hother <;> split at hanother
    · next heq heq' => rw [heq, heq']
    · exact absurd (Option.some.inj hother).symm (hne hanother)
    · exact absurd (Option.some.inj hanother).symm (hne hother)
    · exact h.injective _ _ _ hother hanother
  · refine h.superTypes other ?_
    rw [Index.record?, hget] at hother
    split at hother
    · exact absurd hother (by simp)
    · exact hother
  · obtain ⟨found, hother, hfieldOf⟩ := exists_record (h.dummies _ _ _ hfield)
    have hold : other ≠ type := by
      rintro rfl
      exact absurd (hnone.symm.trans hother) (by simp)
    refine Option.bind_eq_some_iff.mpr ⟨found, ?_, ?_⟩
    · rw [Index.record?, hget, if_neg hold, hother]
    · exact hgrows.fieldOf h.wellFormed.typed (h.records _ _ hother) hfieldOf

/-- **Indexing a new record** is a step of a resolution.

**Proof sketch.** Payloads other than those of units are kept, so that usages and fields stay as they are. In
the index there is one record more, under a type that had none. -/
theorem step_putRecord (h : r.Sound) (done : List NodeId)
    (hkept : ∀ id payload, r.graph.payload? id = some payload → payload.tag ≠ .unit →
      g.payload? id = some payload) :
    Step n done r
      { graph := g
        index := { r.index with
          placeholderUnit := some unit, records := r.index.records.put type record } } := by
  have hget : ∀ other, (r.index.records.put type record).get? other =
      if other = type then some record else r.index.record? other := fun other => Assoc.get?_put ..
  refine ⟨henlarges.grows, fun id payload _ hpayload htag => hkept id payload hpayload ?_,
    fun other found hother => ?_, fun other found hother => ?_, rfl, rfl, fun _ _ hfield => hfield,
    fun other found hother field hfield => Or.inl ?_, fun D hD => henlarges.refines D hD.confined,
    henlarges.selves, .single (.quiet henlarges.quiet), henlarges.hung⟩
  · rcases htag with htag | htag <;> rw [htag] <;> decide
  · have hold : other ≠ type := by
      rintro rfl
      exact absurd (hnone.symm.trans hother) (by simp)
    rw [Index.record?, hget, if_neg hold, hother]
  · rw [Index.record?, hget] at hother
    split at hother
    · exact Or.inr (Option.some.inj hother ▸ hnew)
    · exact Or.inl hother
  · obtain ⟨body, hbody⟩ := Graph.exists_record_of_tag? (h.records _ _ hother)
    unfold Graph.fieldsOf at hfield ⊢
    rw [hkept found _ hbody (by simp [Payload.tag])] at hfield
    rwa [hbody]

end PutRecord

/-- **Making up a record** for a type that has none. It has one field, which stands for it.

**Proof sketch.** First the unit is found or made, which keeps the state sound. Adding the record and its
field and hanging the record up in the unit enlarges this graph by two nodes; entering the record in the index
then keeps the index right, as the type had none. -/
theorem makeRecord (h : r.Sound) (hn : n ≤ r.graph.size) (done : List NodeId)
    (hnone : r.index.record? type = none) :
    Reaches n done 3 r (r.makeRecord type).2 ∧
      (r.makeRecord type).2.index.record? type = some (r.makeRecord type).1 ∧
        ∃ self, (r.makeRecord type).2.graph.payload? (r.makeRecord type).1 =
            some (.record (Graph.newRecord "unknown" [] self)) ∧
          (r.makeRecord type).2.graph.name? self = some "this" := by
  obtain ⟨unit, g, heq, hunited, hsize, hunit, hpayloads⟩ := h.exists_unit hn
  have hfst := Graph.fst_addRecord type.name "unknown" [] true g
  generalize hg' : (g.addRecord type.name "unknown" [] true).2.appendDeclaration unit (g.size + 1) = g'
  let made : Resolver := { r with
    graph := g'
    index := { r.index with
      placeholderUnit := some unit
      records := r.index.records.put type (g.size + 1) } }
  have hmake : r.makeRecord type =
      (g.size + 1, made.count fun c => { c with dummyRecords := c.dummyRecords + 1 }) := by
    unfold Resolver.makeRecord
    rcases heq with ⟨heq, hgraph⟩ | ⟨heq, hgraph⟩ <;> simp only [heq, hgraph, hfst, hg', made]
  have hadded := Graph.Enlarges.makeRecord hunited.wellFormed (Nat.le_trans hn hunited.grows.size)
    hunit type.name
  have hrecord : g'.payload? (g.size + 1) = some (.record (Graph.newRecord "unknown" [] g.size)) :=
    hg' ▸ Graph.payload?_makeRecord_self g unit type.name
  have hkept : ∀ id payload, r.graph.payload? id = some payload → payload.tag ≠ .unit →
      g'.payload? id = some payload := fun id payload hpayload htag =>
    hg' ▸ Graph.payload?_makeRecord unit type.name (hpayloads id payload hpayload) htag
  have hsize' : g'.size = g.size + 2 := hg' ▸ Graph.size_makeRecord g unit type.name
  have hself : g'.name? g.size = some "this" := hg' ▸ Graph.name?_makeRecord_self type.name hunit
  rw [hg'] at hadded
  have henlarges := hunited.trans hadded
  have hnew : r.graph.size ≤ g.size + 1 := Nat.le_succ_of_le hunited.grows.size
  have hreaches : Reaches n done 3 r made := by
    refine ⟨?_, h.step_putRecord henlarges hnone hnew done hkept, ?_⟩
    · exact h.putRecord henlarges hnone hnew (Graph.tag?_of_payload? hrecord)
        (hadded.grows.isMadeUpUnit hunit)
    · exact Nat.le_trans (Nat.le_of_eq hsize') (Nat.add_le_add_right hsize 2)
  rw [hmake]
  refine ⟨hreaches.count fun c => { c with dummyRecords := c.dummyRecords + 1 }, ?_, g.size, hrecord,
    hself⟩
  change (r.index.records.put type (g.size + 1)).get? type = _
  rw [Assoc.get?_put, if_pos rfl]

/-! ## Made-up fields -/

/-- A record gets a made-up field for a member that is not found.

**Proof sketch.** A field is added and appended to a record. So the graph grows by an unresolved node, usages
stay as they are, as the record is none, and the fields of the other records stay, as a record is indexed
under one type. -/
theorem step_makeField (h : r.Sound) (hn : n ≤ r.graph.size) (done : List NodeId) {body : RecordBody}
    (hbody : r.graph.payload? record = some (.record body))
    (hrecord : r.index.record? owner = some record) (hmissing : r.memberOf owner name = none)
    (o : Observation) :
    Step n done r { r with
      graph := (r.graph.addTyped (Graph.madeUpField name) o).2.appendField record r.graph.size } := by
  have henlarges := Graph.Enlarges.makeField h.wellFormed hn hbody name o
  refine ⟨henlarges.grows, fun id payload _ hid htag => ?_, fun _ _ hother => hother,
    fun _ _ hother => Or.inl hother, rfl, rfl, fun _ _ hfield => hfield,
    fun type other hother field hfield => ?_, fun D hD => henlarges.refines D hD.confined,
    henlarges.selves, .single (.quiet henlarges.quiet), henlarges.hung⟩
  · refine Graph.payload?_makeField_of_ne hid ?_ name o
    rintro rfl
    obtain rfl := Option.some.inj (hbody.symm.trans hid)
    rcases htag with htag | htag <;> exact absurd htag (by simp [Payload.tag])
  · by_cases heq : other = record
    · subst heq
      obtain rfl := h.injective _ _ _ hother hrecord
      simp only [Graph.fieldsOf, hbody, Graph.payload?_makeField_self hbody name o] at hfield ⊢
      refine (List.mem_append.mp hfield).imp_right fun hnew other hnamed => ?_
      rw [List.mem_singleton.mp hnew] at hnamed
      obtain rfl := Option.some.inj ((Graph.made_makeField hbody name o).1.symm.trans hnamed)
      exact hmissing
    · left
      obtain ⟨body', hbody'⟩ := Graph.exists_record_of_tag? (h.records _ _ hother)
      unfold Graph.fieldsOf at hfield ⊢
      rw [Graph.payload?_makeField_of_ne hbody' heq] at hfield
      rwa [hbody']

/-- **Making up a field** for a member that is not found.

**Proof sketch.** The field is added and hung up at the end of the fields of the record. As no other has its
name, it is the one that is found from now on. -/
theorem makeField (h : r.Sound) (hn : n ≤ r.graph.size) (done : List NodeId)
    (hrecord : r.index.record? owner = some record) (hmissing : r.memberOf owner name = none)
    (hown : r.ownField name owner = none) (o : Observation) :
    Reaches n done 1 r (r.makeField record name o).2 ∧
      (r.makeField record name o).2.ownField name owner = some (r.makeField record name o).1 := by
  obtain ⟨body, hbody⟩ := Graph.exists_record_of_tag? (h.records _ _ hrecord)
  let made : Resolver := { r with
    graph := (r.graph.addTyped (Graph.madeUpField name) o).2.appendField record r.graph.size }
  have hmake : r.makeField record name o =
      (r.graph.size, made.count fun c => { c with dummyFields := c.dummyFields + 1 }) := rfl
  have henlarges := Graph.Enlarges.makeField h.wellFormed hn hbody name o
  have hname := (Graph.made_makeField hbody name o).1
  have hfields : made.graph.fieldsOf record = r.graph.fieldsOf record ++ [r.graph.size] := by
    simp only [Graph.fieldsOf, hbody, made, Graph.payload?_makeField_self hbody name o]
  have hsize : made.graph.size = r.graph.size + 1 :=
    (Graph.size_modify ..).trans (Graph.size_addTyped ..)
  have hreaches : Reaches n done 1 r made :=
    ⟨h.of_grows henlarges.wellFormed henlarges.grows,
      h.step_makeField hn done hbody hrecord hmissing o, Nat.le_of_eq hsize⟩
  have hnone : (r.graph.fieldsOf record).find? (made.graph.isNamed name) = none := by
    rw [ownField, hrecord, Option.bind_some, Graph.fieldOf, List.find?_eq_none] at hown
    rw [List.find?_eq_none]
    intro field hfield hnamed
    obtain ⟨node, hnode⟩ := Graph.exists_node (h.wellFormed.typed.all_fieldsOf.lt_size hfield)
    have hkept := henlarges.grows.name? (Graph.name?_eq hnode)
    rw [Graph.isNamed_iff.mp hnamed, ← Graph.name?_eq hnode] at hkept
    exact hown field hfield (Graph.isNamed_iff.mpr hkept.symm)
  rw [hmake]
  refine ⟨hreaches.count fun c => { c with dummyFields := c.dummyFields + 1 }, ?_⟩
  change (r.index.record? owner).bind (made.graph.fieldOf name) = some r.graph.size
  rw [hrecord, Option.bind_some, Graph.fieldOf, hfields, List.find?_append, hnone, Option.none_or,
    List.find?_singleton, if_pos (Graph.isNamed_iff.mpr hname)]

/-! ## Stand-ins -/

/-- **Remembering** the field of a member.

**Proof sketch.** The table of stand-ins changes at one key, where the same field or nothing was remembered,
and nothing else changes. -/
theorem remember (h : r.Sound) (done : List NodeId) (hfield : r.ownField name owner = some field)
    (hfresh : ∀ other, r.index.dummies.get? (owner, name) = some other → other = field) :
    Reaches n done 0 r (r.remember owner name field) ∧
      (r.remember owner name field).index.dummies.get? (owner, name) = some field := by
  have hget : ∀ key, (r.index.dummies.put (owner, name) field).get? key =
      if key = (owner, name) then some field else r.index.dummies.get? key :=
    fun key => Assoc.get?_put ..
  refine ⟨⟨?_, ?_, Nat.le_refl _⟩, ?_⟩
  · refine ⟨h.wellFormed, h.records, h.enums, h.injective, h.superTypes,
      fun type other found hfound => ?_, h.placeholderUnit⟩
    change (r.index.dummies.put (owner, name) field).get? _ = _ at hfound
    rw [hget] at hfound
    split at hfound
    · next heq =>
      obtain ⟨rfl, rfl⟩ := Prod.mk.inj heq
      rw [← Option.some.inj hfound]
      exact hfield
    · exact h.dummies _ _ _ hfound
  · refine ⟨.refl n _, fun _ _ _ hpayload _ => hpayload, fun _ _ hrecord => hrecord,
      fun _ _ hrecord => Or.inl hrecord, rfl, rfl, fun key other hother => ?_,
      fun _ _ _ _ hfield => Or.inl hfield, fun _ hD => .refl hD.confined, fun hr => hr, .refl done _,
      .of_size rfl⟩
    change (r.index.dummies.put (owner, name) field).get? _ = _
    rw [hget]
    split
    · next heq => rw [hfresh other (heq ▸ hother)]
    · exact hother
  · change (r.index.dummies.put (owner, name) field).get? _ = _
    rw [hget, if_pos rfl]

/-- The record of a type, found or made up. If a member was not found before and no field of that
name is found in the record, then the member is not found now. -/
theorem recordFor (h : r.Sound) (hn : n ≤ r.graph.size) (done : List NodeId) (type : Descriptor) :
    Reaches n done 3 r (r.recordFor type).2 ∧
      (r.recordFor type).2.index.record? type = some (r.recordFor type).1 ∧
        ∀ name, r.memberOf type name = none → (r.recordFor type).2.ownField name type = none →
          (r.recordFor type).2.memberOf type name = none := by
  unfold Resolver.recordFor
  cases hrecord : r.index.record? type with
  | some record =>
    exact ⟨(Reaches.refl h n done).mono (by omega), hrecord, fun _ hmissing _ => hmissing⟩
  | none =>
    obtain ⟨hreaches, hmade, -⟩ := h.makeRecord hn done hrecord
    refine ⟨hreaches, hmade, fun name _ hown => ?_⟩
    have hsuper : (r.makeRecord type).2.index.superTypesOf type = [] := by
      rw [hreaches.step.superTypesOf, h.superTypes _ hrecord]
    exact memberOf_of_superTypesOf_eq_nil hsuper hown

/-- **Standing in** for a member that is not found: the field that is there in the record, or the
one made up in it, is remembered.

**Proof sketch.** If the stand-in is remembered, it is answered. Otherwise the record for the type is found or
made up; and so is the field, unless the record happens to have one of the name, and then the pair is
remembered. -/
theorem standIn (h : r.Sound) (hn : n ≤ r.graph.size) (done : List NodeId)
    (hmissing : r.memberOf owner name = none) (o : Observation) :
    ∃ field r', r.standIn owner name o = .ok (field, r') ∧ Reaches n done 4 r r' ∧
      r'.ownField name owner = some field ∧
        r'.index.dummies.get? (owner, name) = some field := by
  cases hdummy : r.index.dummies.get? (owner, name) with
  | some field =>
    refine ⟨field, r, ?_, (Reaches.refl h n done).mono (by omega), h.dummies _ _ _ hdummy, hdummy⟩
    simp only [Resolver.standIn, hdummy]
    rfl
  | none =>
    obtain ⟨hreaches, hrecord, hmember⟩ := h.recordFor hn done owner
    have hlt := Graph.lt_size_of_tag? (hreaches.sound.records _ _ hrecord)
    have hread := hreaches.sound.wellFormed.typed.fieldNamed_eq hlt name
    have hown : (r.recordFor owner).2.ownField name owner =
        (r.recordFor owner).2.graph.fieldOf name (r.recordFor owner).1 := by
      rw [ownField, hrecord, Option.bind_some]
    simp only [Resolver.standIn, hdummy, bind, Except.bind]
    rw [hread]
    cases hfield : (r.recordFor owner).2.graph.fieldOf name (r.recordFor owner).1 with
    | some field =>
      rw [hfield] at hown
      obtain ⟨hremember, hget⟩ := hreaches.sound.remember (n := n) done hown fun other hother =>
        Option.some.inj ((hreaches.sound.dummies _ _ _ hother).symm.trans hown)
      refine ⟨field, _, rfl, (hreaches.trans h hremember).mono (by omega), ?_, hget⟩
      exact hremember.step.ownField hreaches.sound hown
    | none =>
      rw [hfield] at hown
      obtain ⟨hmake, hown'⟩ := hreaches.sound.makeField (Nat.le_trans hn hreaches.step.graph.size)
        done hrecord (hmember name hmissing hown) hown o
      obtain ⟨hremember, hget⟩ := hmake.sound.remember (n := n) done hown' fun other hother =>
        Option.some.inj ((hmake.sound.dummies _ _ _ hother).symm.trans hown')
      refine ⟨_, _, rfl, (hreaches.trans h hmake).trans h hremember, ?_, hget⟩
      exact hremember.step.ownField hmake.sound hown'

/-- **Resolving a member** does not fail. -/
theorem resolveMember (h : r.Sound) (hn : n ≤ r.graph.size) (done : List NodeId)
    (owner : Descriptor) (name : String) (o : Observation) :
    ∃ field r', r.resolveMember owner name o = .ok (field, r') ∧ Reaches n done 4 r r' ∧
      r.FindsMember owner name field r' := by
  unfold Resolver.resolveMember
  rw [h.findMember_eq]
  cases hmember : r.memberOf owner name with
  | some field => exact ⟨field, r, rfl, (Reaches.refl h n done).mono (by omega), .found hmember⟩
  | none =>
    obtain ⟨field, r', hstand, hreaches, hown, hget⟩ := h.standIn hn done hmember o
    exact ⟨field, r', hstand, hreaches, .standIn hmember hstand hown hget⟩

/-- A member that is found is a field of the name. -/
theorem memberOf_spec (h : r.Sound) (hmember : r.memberOf owner name = some field) :
    r.graph.tag? field = some .field ∧ r.graph.name? field = some name := by
  obtain ⟨type, -, hown⟩ := List.exists_of_findSome?_eq_some hmember
  exact h.ownField_spec hown

/-- What a member is resolved to is a field of the name. -/
theorem findsMember_spec (h : r.Sound) (sound' : r'.Sound)
    (hfinds : r.FindsMember owner name field r') :
    r'.graph.tag? field = some .field ∧ r'.graph.name? field = some name := by
  cases hfinds with
  | found hmember => exact h.memberOf_spec hmember
  | standIn _ _ hown _ => exact sound'.ownField_spec hown

end Sound

end ProgramGraph.Resolver
