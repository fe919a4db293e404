import ProgramGraph.Proofs.Resolution.Run

set_option autoImplicit false

/-!
# What a resolution writes

Whatever a resolution does to the graph and to its index is done in writes of a few kinds, and every
usage it settles is counted once. What holds of all these writes holds of whole runs.

## Main definitions

* `ProgramGraph.Verdict` — what a usage is counted as, and `ProgramGraph.Graph.verdict?`.
* `ProgramGraph.Resolver.Writes` — one write.
* `ProgramGraph.Resolver.Does` — several writes, and what is counted among them.
* `ProgramGraph.Graph.IsOpen` — a usage that is counted when it is visited.

## Main results

* `ProgramGraph.Resolver.does_of_resolveUsage` — a visit writes, and counts what it leaves.
* `ProgramGraph.Resolver.Runs.does` — a run writes.

## Design

The relation between the states before and after does not say which usages are resolved to what; it
says what the writes can be. So it needs no invariant: it is read off the functions that write, for
every answer they give.
-/

namespace ProgramGraph

/-- What a usage is counted as. -/
inductive Verdict where
  /-- A reference, and whether it means something. -/
  | reference (resolved : Bool)
  /-- The member of an access, and whether it means something. -/
  | member (resolved : Bool)
deriving DecidableEq

namespace Counters

/-- How many usages were counted as something. -/
def tally (c : Counters) : Verdict → Nat
  | .reference true => c.referencesResolved
  | .reference false => c.referencesUnresolved
  | .member true => c.membersResolved
  | .member false => c.membersUnresolved

/-- Counts a usage. -/
def judge (v : Verdict) (c : Counters) : Counters :=
  match v with
  | .reference true => { c with referencesResolved := c.referencesResolved + 1 }
  | .reference false => { c with referencesUnresolved := c.referencesUnresolved + 1 }
  | .member true => { c with membersResolved := c.membersResolved + 1 }
  | .member false => { c with membersUnresolved := c.membersUnresolved + 1 }

/-- A usage is counted as one thing. -/
theorem tally_judge (v w : Verdict) (c : Counters) :
    (c.judge v).tally w = c.tally w + if v = w then 1 else 0 := by
  rcases v with ⟨_ | _⟩ | ⟨_ | _⟩ <;> rcases w with ⟨_ | _⟩ | ⟨_ | _⟩ <;> simp [judge, tally]

end Counters

/-- What a usage is counted as once it was visited: a reference by its target, an access by its
member. -/
def Payload.verdict? : Payload → Option Verdict
  | .reference target _ => some (.reference target.isSome)
  | .memberAccess _ member => some (.member member.isSome)
  | _ => none

namespace Graph

/-- What the usage with a number is counted as. -/
def verdict? (g : Graph) (id : NodeId) : Option Verdict := (g.payload? id).bind Payload.verdict?

/-- A usage that is counted when it is visited: a reference, or an access whose member is one. -/
def IsOpen (g : Graph) (id : NodeId) : Prop :=
  g.tag? id = some .reference ∨ ∃ base stub,
    g.payload? id = some (.memberAccess base (some stub)) ∧ g.tag? stub = some .reference

end Graph

namespace Resolver

variable {r r' r'' : Resolver} {vs ws : List Verdict} {id : NodeId} {type owner : Descriptor}
  {name : String} {field base : NodeId} {member : Option NodeId} {t : ScopeTable} {visit : Visit}

/-! ## Writes -/

/-- One write of a resolution. -/
inductive Writes (r : Resolver) : Resolver → Prop where
  /-- What is believed about nodes changes. -/
  | beliefs {g : Graph} (h : r.graph.SameSource g) : Writes r { r with graph := g }
  /-- The field for a member of a type is remembered. -/
  | remember (owner : Descriptor) (name : String) (field : NodeId) :
    Writes r (r.remember owner name field)
  /-- The unit for made-up declarations is looked for, and made if there is none. -/
  | unit (h : r.index.placeholderUnit = none) :
    Writes r { graph := r.graph.placeholderUnit.2
               index := { r.index with placeholderUnit := some r.graph.placeholderUnit.1 } }
  /-- A record is made up in this unit, for a type that has none. -/
  | record {unit : NodeId} {type : Descriptor} (hunit : r.index.placeholderUnit = some unit)
    (h : r.index.record? type = none) : Writes r (r.makeRecord type).2
  /-- A field is made up in the record of a type, where none has its name. -/
  | field {type : Descriptor} {record : NodeId} {name : String}
    (hrecord : r.index.record? type = some record) (h : r.graph.fieldNamed record name = .ok none)
    (o : Observation) : Writes r (r.makeField record name o).2
  /-- A reference is pointed somewhere. -/
  | target (reference : NodeId) (target : Option NodeId) :
    Writes r { r with graph := r.graph.setTarget reference target }
  /-- A member access gets its base and its member. -/
  | access (access base : NodeId) (member : Option NodeId) :
    Writes r { r with graph := r.graph.setAccess access base member }

/-- What is done by some writes, with what is counted meanwhile. -/
inductive Does (r : Resolver) : List Verdict → Resolver → Prop where
  /-- Nothing is done. -/
  | refl : Does r [] r
  /-- Something is written. -/
  | write {vs : List Verdict} {r' r'' : Resolver} (before : Does r vs r') (now : Writes r' r'') :
    Does r vs r''
  /-- A usage is counted. -/
  | judge {vs : List Verdict} {r' : Resolver} (before : Does r vs r') (v : Verdict) :
    Does r (vs ++ [v]) (r'.count (Counters.judge v))

namespace Does

/-- A single write, without any observation. -/
theorem single (h : r.Writes r') : r.Does [] r' := .write .refl h

/-- What is done first and what is done then. The observations are listed in this order. -/
theorem trans (h : r.Does vs r') (h' : r'.Does ws r'') : r.Does (vs ++ ws) r'' := by
  induction h' with
  | refl => rwa [List.append_nil]
  | write _ now ih => exact ih.write now
  | judge _ v ih =>
    rw [← List.append_assoc]
    exact ih.judge v

/-- Nothing is counted before. -/
theorem after (h' : r'.Does vs r'') (h : r.Does [] r') : r.Does vs r'' := h.trans h'

/-- Nothing is counted after. -/
theorem next (h : r.Does vs r') (h' : r'.Does [] r'') : r.Does vs r'' := by
  have htotal := h.trans h'
  rwa [List.append_nil] at htotal

end Does

/-! ## Kinds -/

/-- A record that is made up where the unit is known. -/
theorem makeRecord_eq {unit : NodeId} (h : r.index.placeholderUnit = some unit) (type : Descriptor) :
    r.makeRecord type = (r.graph.size + 1, Resolver.count
      { graph := (r.graph.addRecord type.name "unknown" [] true).2.appendDeclaration unit (r.graph.size + 1)
        index := { r.index with
          placeholderUnit := some unit
          records := r.index.records.put type (r.graph.size + 1) } }
      fun c => { c with dummyRecords := c.dummyRecords + 1 }) := by
  unfold Resolver.makeRecord
  rw [h]
  simp only [Graph.fst_addRecord]

/-- **Kinds stay** in every write. -/
theorem Writes.tag? (h : r.Writes r') {tag : Tag} (htag : r.graph.tag? id = some tag) :
    r'.graph.tag? id = some tag := by
  cases h with
  | beliefs h => rwa [h.sameTree.tag?]
  | remember => exact htag
  | unit =>
    obtain ⟨node, hnode, rfl⟩ := Graph.exists_node_of_tag? htag
    exact Graph.tag?_of_payload? (Graph.payload?_placeholderUnit (Graph.payload?_eq hnode))
  | @record unit type hunit =>
    rw [makeRecord_eq hunit]
    refine (Graph.tag?_modify _ unit (fun ⟨_, payload, _, _, _, _⟩ => ?_) id).trans
      ((Graph.keeps_addRecord ..).tag _ _ htag)
    cases payload <;> rfl
  | field =>
    refine (Graph.tag?_modify _ _ (fun ⟨_, payload, _, _, _, _⟩ => ?_) id).trans
      ((Graph.keeps_addTyped ..).tag _ _ htag)
    cases payload <;> rfl
  | target reference target => exact (Graph.tag?_setTarget ..).trans htag
  | access access =>
    refine (Graph.tag?_modify _ access (fun ⟨_, payload, _, _, _, _⟩ => ?_) id).trans htag
    cases payload <;> rfl

/-- **Kinds stay.** -/
theorem Does.tag? (h : r.Does vs r') {tag : Tag} (htag : r.graph.tag? id = some tag) :
    r'.graph.tag? id = some tag := by
  induction h with
  | refl => exact htag
  | write _ now ih => exact now.tag? ih
  | judge _ _ ih => exact ih

/-! ## Stand-ins -/

/-- The answer of a computation in two steps. -/
theorem exists_of_bind_eq_ok {ε α β : Type} {x : Except ε α} {f : α → Except ε β} {b : β}
    (h : (x >>= f) = .ok b) : ∃ a, x = .ok a ∧ f a = .ok b := by
  cases x with
  | error e => cases h
  | ok a => exact ⟨a, rfl, h⟩

/-- **Making up a record** is looking for the unit, if that was not done before, and then making it up
there. -/
theorem does_makeRecord (h : r.index.record? type = none) : r.Does [] (r.makeRecord type).2 := by
  cases hunit : r.index.placeholderUnit with
  | some unit => exact .single (.record hunit h)
  | none =>
    let housed : Resolver :=
      { graph := r.graph.placeholderUnit.2
        index := { r.index with placeholderUnit := some r.graph.placeholderUnit.1 } }
    have hmake : r.makeRecord type = housed.makeRecord type := by
      unfold Resolver.makeRecord
      rw [hunit]
    rw [hmake]
    exact (Does.single (.unit hunit)).write (.record (r := housed) rfl h)

/-- The record of a type, found or made up. -/
theorem does_recordFor (r : Resolver) (type : Descriptor) : r.Does [] (r.recordFor type).2 := by
  unfold recordFor
  split
  · exact .refl
  · next h => exact does_makeRecord h

/-- The record of a type is indexed afterwards. -/
theorem record?_recordFor (r : Resolver) (type : Descriptor) :
    (r.recordFor type).2.index.record? type = some (r.recordFor type).1 := by
  unfold recordFor
  split
  · next record h => exact h
  · exact (Assoc.get?_put ..).trans (if_pos rfl)

/-- **Standing in** for a member. -/
theorem does_of_standIn {o : Observation} (h : r.standIn owner name o = .ok (field, r')) :
    r.Does [] r' := by
  unfold standIn at h
  split at h
  · cases h
    exact .refl
  · have hrecord := r.record?_recordFor owner
    have hdoes := r.does_recordFor owner
    obtain ⟨found, hfound, h⟩ := exists_of_bind_eq_ok h
    cases found with
    | some field =>
      cases h
      exact hdoes.write (.remember ..)
    | none =>
      cases h
      exact (hdoes.write (.field hrecord hfound o)).write (.remember ..)

/-- **The field for a member** of a type. -/
theorem does_of_resolveMember {o : Observation} (h : r.resolveMember owner name o = .ok (field, r')) :
    r.Does [] r' := by
  unfold resolveMember at h
  obtain ⟨found, -, h⟩ := exists_of_bind_eq_ok h
  cases found with
  | some field =>
    cases h
    exact .refl
  | none => exact does_of_standIn h

/-! ## Member accesses -/

/-- The base of an access. -/
theorem does_of_resolveBase {reference : NodeId} (h : r.resolveBase reference = .ok (base, r')) :
    r.Does [] r' := by
  unfold resolveBase at h
  simp only at h
  split at h
  · cases h
    exact .refl
  · split at h
    · obtain ⟨self, -, h⟩ := exists_of_bind_eq_ok h
      cases self with
      | some self =>
        cases h
        exact .refl
      | none =>
        obtain ⟨node, -, h⟩ := exists_of_bind_eq_ok h
        exact does_of_standIn h
    · obtain ⟨node, -, h⟩ := exists_of_bind_eq_ok h
      exact does_of_standIn h

/-- **The base of an access,** which may be no reference. -/
theorem does_of_settleBase {old : NodeId} (h : r.settleBase old = .ok (base, r')) : r.Does [] r' := by
  unfold settleBase at h
  obtain ⟨reference, -, h⟩ := exists_of_bind_eq_ok h
  cases reference with
  | true => exact does_of_resolveBase h
  | false =>
    cases h
    exact .refl

/-- The constant that a member means. -/
theorem does_of_resolveConstant {enum : NodeId} (h : r.resolveConstant enum name = .ok (member, r')) :
    r.Does [.member member.isSome] r' := by
  unfold resolveConstant at h
  obtain ⟨entries, -, h⟩ := exists_of_bind_eq_ok h
  obtain ⟨constant, -, h⟩ := exists_of_bind_eq_ok h
  cases constant <;>
  · cases h
    exact Does.refl.judge _

/-- The field that a member means. -/
theorem does_of_resolveField {access stub : NodeId}
    (h : r.resolveField access base stub name = .ok (field, r')) : r.Does [.member true] r' := by
  unfold resolveField at h
  obtain ⟨⟨found, r₁⟩, hmember, h⟩ := exists_of_bind_eq_ok h
  cases h
  exact ((does_of_resolveMember hmember).write
    (.beliefs (r₁.graph.sameSource_informed field access))).judge (.member true)

/-- **The member of an access** that is a reference is counted. -/
theorem does_of_resolveMemberOf {access stub : NodeId}
    (h : r.resolveMemberOf access base stub = .ok (member, r')) : r.Does [.member member.isSome] r' := by
  unfold resolveMemberOf at h
  obtain ⟨stubNode, -, h⟩ := exists_of_bind_eq_ok h
  obtain ⟨baseNode, -, h⟩ := exists_of_bind_eq_ok h
  split at h
  · exact does_of_resolveConstant h
  · obtain ⟨⟨field, r₁⟩, hfield, h⟩ := exists_of_bind_eq_ok h
    cases h
    exact does_of_resolveField hfield

/-- **The member of an access:** only a reference is counted. -/
theorem does_of_settleMember {access : NodeId} {old : Option NodeId}
    (h : r.settleMember access base old = .ok (member, r')) :
    ∃ vs, r.Does vs r' ∧ ∀ stub, old = some stub → r.graph.tag? stub = some .reference →
      vs = [.member member.isSome] := by
  cases old with
  | none =>
    cases h
    exact ⟨[], .refl, fun _ heq => absurd heq (by simp)⟩
  | some stub =>
    obtain ⟨reference, hread, h⟩ := exists_of_bind_eq_ok h
    cases reference with
    | true => exact ⟨_, does_of_resolveMemberOf h, fun _ _ _ => rfl⟩
    | false =>
      cases h
      refine ⟨[], .refl, fun other heq htag => ?_⟩
      obtain rfl := Option.some.inj heq
      exact absurd ((Sound.isReference_eq htag).symm.trans hread) (by decide)

/-- **A member access** is counted by the member it gets, if its member was a reference.

**Proof sketch.** The base, the member and the writing do their parts one after the other. Only settling a
member that is a reference counts, and it counts what the access shows in the end. -/
theorem does_of_resolveAccess {old : NodeId} {stub? : Option NodeId}
    (hpayload : r.graph.payload? id = some (.memberAccess old stub?))
    (h : r.resolveAccess id old stub? = .ok r') :
    ∃ vs, r.Does vs r' ∧ (r.graph.IsOpen id → vs = (r'.graph.verdict? id).toList) := by
  unfold resolveAccess at h
  obtain ⟨⟨base, r₁⟩, hbase, h⟩ := exists_of_bind_eq_ok h
  obtain ⟨⟨member, r₂⟩, hmember, h⟩ := exists_of_bind_eq_ok h
  cases h
  have hdoes := does_of_settleBase hbase
  obtain ⟨vs, hdoes', hvs⟩ := does_of_settleMember hmember
  have htotal := hdoes'.after hdoes
  refine ⟨vs, htotal.write (.access id base member), fun hopen => ?_⟩
  -- an access stays one until it is written
  have htag := htotal.tag? (Graph.tag?_of_payload? hpayload)
  obtain ⟨node, hnode, hkind⟩ := Graph.exists_node_of_tag? htag
  have hwritten : (r₂.graph.setAccess id base member).payload? id =
      some (.memberAccess base member) := by
    cases hnow : node.payload with
    | memberAccess _ _ =>
      exact Graph.payload?_setAccess_self ((Graph.payload?_eq hnode).trans (congrArg some hnow))
    | _ => simp [Node.tag, hnow, Payload.tag] at hkind
  rcases hopen with hreference | ⟨_, stub, hstub, hreference⟩
  · rw [Graph.tag?_of_payload? hpayload] at hreference
    exact absurd (Option.some.inj hreference) (by simp [Payload.tag])
  · obtain ⟨-, rfl⟩ := Payload.memberAccess.inj (Option.some.inj (hpayload.symm.trans hstub))
    rw [hvs stub rfl (hdoes.tag? hreference), Graph.verdict?, hwritten]
    rfl

/-! ## References -/

/-- **The declaration that a name means.** -/
theorem does_of_findDeclaration {isStatic : Bool} {target : Option NodeId}
    (h : r.findDeclaration t visit name isStatic = .ok (target, r')) : r.Does [] r' := by
  unfold findDeclaration at h
  cases hscope : visit.scope <;> simp only [hscope] at h <;>
  · obtain ⟨lexical, -, h⟩ := exists_of_bind_eq_ok h
    split at h
    · split at h
      · obtain ⟨⟨field, r₁⟩, hmember, h⟩ := exists_of_bind_eq_ok h
        cases h
        exact does_of_resolveMember hmember
      · cases h
        exact .refl
    · cases h
      exact .refl

/-- **Pointing a reference** at a declaration, or at nothing. -/
theorem does_of_link {reference : NodeId} {target : Option NodeId}
    (htag : r.graph.tag? reference = some .reference) (h : r.link reference target = .ok r') :
    r.Does [] r' ∧ r'.graph.verdict? reference = some (.reference target.isSome) := by
  obtain ⟨node, hnode, hkind⟩ := Graph.exists_node_of_tag? htag
  obtain ⟨old, isStatic, hpayload⟩ : ∃ old isStatic, node.payload = .reference old isStatic := by
    cases hnow : node.payload with
    | reference old isStatic => exact ⟨old, isStatic, rfl⟩
    | _ => simp [Node.tag, hnow, Payload.tag] at hkind
  have hread := (Graph.payload?_eq hnode).trans (congrArg some hpayload)
  rw [Sound.link_eq hread] at h
  cases h
  have hfreed := r.graph.sameSource_freed reference old
  have hfollows := ((r.graph.freed reference old).setTarget reference target).sameSource_following
    reference target
  refine ⟨((Does.single (.beliefs hfreed)).write (.target reference target)).write (.beliefs hfollows), ?_⟩
  rw [Graph.verdict?, hfollows.sameTree.payload?,
    Graph.payload?_setTarget_self ((hfreed.sameTree.payload? _).trans hread)]
  rfl

/-- **A reference** is counted by the target it gets. -/
theorem does_of_resolveReference {isStatic : Bool}
    (htag : r.graph.tag? visit.node = some .reference)
    (h : r.resolveReference t visit name isStatic = .ok r') :
    ∃ v, r.Does [v] r' ∧ r'.graph.verdict? visit.node = some v := by
  unfold resolveReference at h
  obtain ⟨⟨target, r₁⟩, hfind, h⟩ := exists_of_bind_eq_ok h
  have hdoes := does_of_findDeclaration hfind
  have hcount : (fun c : Counters =>
      if target.isSome then { c with referencesResolved := c.referencesResolved + 1 }
      else { c with referencesUnresolved := c.referencesUnresolved + 1 }) =
        Counters.judge (.reference target.isSome) := by
    cases target <;> rfl
  simp only [hcount] at h
  have hjudged := hdoes.judge (.reference target.isSome)
  obtain ⟨hlink, hverdict⟩ := does_of_link (hjudged.tag? htag) h
  exact ⟨_, hjudged.next hlink, hverdict⟩

/-! ## Visits and runs -/

/-- **A visit writes,** and counts the usage it comes to as what it leaves.

**Proof sketch.** By cases on the node that is visited. An access and a reference are usages, which are
counted when they are resolved, and nothing is done for any other node. -/
theorem does_of_resolveUsage (h : r.resolveUsage t visit = .ok r') :
    ∃ vs, r.Does vs r' ∧ (r.graph.IsOpen visit.node → vs = (r'.graph.verdict? visit.node).toList) ∧
      (r.graph.verdict? visit.node = none → vs = []) := by
  unfold resolveUsage at h
  obtain ⟨node, hread, h⟩ := exists_of_bind_eq_ok h
  have hnode := Graph.node_eq_ok.mp hread
  have hpayload := Graph.payload?_eq hnode
  cases hkind : node.payload with
  | memberAccess base member =>
    simp only [hkind] at h hpayload
    obtain ⟨vs, hdoes, hvs⟩ := does_of_resolveAccess hpayload h
    refine ⟨vs, hdoes, hvs, fun hnone => ?_⟩
    rw [Graph.verdict?, hpayload] at hnone
    cases hnone
  | reference old isStatic =>
    simp only [hkind] at h hpayload
    obtain ⟨v, hdoes, hv⟩ := does_of_resolveReference (Graph.tag?_of_payload? hpayload) h
    refine ⟨[v], hdoes, fun _ => by rw [hv]; rfl, fun hnone => ?_⟩
    rw [Graph.verdict?, hpayload] at hnone
    cases hnone
  | _ =>
    simp only [hkind] at h hpayload
    cases h
    refine ⟨[], .refl, fun hopen => ?_, fun _ => rfl⟩
    rw [Graph.verdict?, hpayload]
    rfl

/-- **A run writes.** -/
theorem Runs.does {n : Nat} {t₀ : ScopeTable} {r₀ : Resolver} {V : List NodeId}
    (h : Runs n t₀ r₀ V r) : ∃ vs, r₀.Does vs r := by
  induction h with
  | start => exact ⟨[], .refl⟩
  | visit _ now ih =>
    obtain ⟨vs, hdoes⟩ := ih
    obtain ⟨ws, hdoes', -⟩ := does_of_resolveUsage now.resolved
    exact ⟨vs ++ ws, hdoes.trans hdoes'⟩

end Resolver

end ProgramGraph
