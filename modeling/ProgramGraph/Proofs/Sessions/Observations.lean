import ProgramGraph.Proofs.Sessions.Subscriptions

set_option autoImplicit false

/-!
# What becomes of observed types

A declaration has the type that all types observed on it add up to. A field hears of the types of the
accesses that are linked to it, each at the moment when it is linked, and hands them over to the
references to it: at once to those that are linked already, and to those that are linked later at that
moment. So whatever the order in which usages are visited, in the end all of them hold the type of each
access, unless it is unknown or primitive.

## Main definitions

* `ProgramGraph.Belief.IsJoin` — a type is the join of what was observed.
* `ProgramGraph.Graph.Joined` — all typed nodes but references have such types.
* `ProgramGraph.Graph.Conveys` — an access has something to tell the field that it is linked to.
* `ProgramGraph.Graph.Attuned` — fields have heard, and references have caught up.

## Main results

* `ProgramGraph.Graph.after_joined` — after every session declarations carry the join of what was
  observed.
* `ProgramGraph.Graph.CaughtUp.changes` — what a resolution changes keeps references caught up.
* `ProgramGraph.Resolver.Run.told` — a run tells the fields of the accesses that it links.
* `ProgramGraph.Graph.after_flows` — observed types flow from accesses through fields to references.
-/

namespace ProgramGraph

/-! ## Types as joins -/

namespace Belief

variable {b : Belief} {o : Observation}

/-- Nothing was observed and the type is unknown, or known types were observed and the type is their
join. -/
def IsJoin (b : Belief) : Prop :=
  b.type.type = .unknown ∧ b.observed.types = [] ∨
    b.observed.types ≠ [] ∧ (∀ t ∈ b.observed.types, t.isUnknown = false) ∧
      b.observed.join?.map Observation.type = some b.type.type

/-- A type in step with what was observed is the join of it. -/
theorem InStep.isJoin (h : b.InStep) : b.IsJoin := by
  rcases h.join with ⟨hnone, hunknown⟩ | hjoin
  · exact Or.inl ⟨hunknown, hnone⟩
  · right
    refine ⟨?_, h.hears, ?_⟩
    · intro hnone
      rw [hnone] at hjoin
      cases hjoin
    · rw [TypeSet.type_join?, hjoin]

/-- **A known type that is not primitive** is taken up wherever it is observed. -/
theorem mem_types_observe (b : Belief) (hknown : o.type.isUnknown = false)
    (hcompound : o.type.isPrimitive = false) : o.type ∈ (b.observe o).observed.types := by
  have hnot : ¬ b.ignores o = true := not_ignores_iff.mpr ⟨hknown, fun _ _ => hcompound⟩
  rw [observe_of_not_ignores hnot]
  exact TypeSet.mem_types_insert.mpr (Or.inr rfl)

end Belief

namespace Graph

variable {g g' : Graph} {id access field reference r d : NodeId} {t : Descriptor} {done : List NodeId}
  {pending : List Notice} {past : List Graph}

/-- All typed nodes but references have the join of what was observed on them. -/
structure Joined (g : Graph) : Prop where
  /-- Typed nodes have a type and a set of observed types. -/
  typed : ∀ id tag, g.tag? id = some tag → tag.isTyped = true → (g.belief? id).isSome = true
  /-- Unless the node is a reference, the type is the join of the set. -/
  join : ∀ id b, g.belief? id = some b → g.tag? id ≠ some .reference → b.IsJoin

/-- **Declarations carry the join of what was observed.** After every session each typed node that is no
reference has the unknown type and nothing was observed on it, or known types were, and it has their
join.

**Proof sketch.** A session is a history, and all graphs of a history are orderly: the types of all nodes but
references are in step with what was observed (`InStep`). In step means to be the join, or unknown with
nothing observed. The invariant is kept because observing and pinning keep it at the node itself, while all
that is delivered ends at references, which alone listen (`Wired`). -/
theorem after_joined (session : List Operation) : ∃ g, after session = .ok g ∧ g.Joined := by
  obtain ⟨g, past, hafter, hhistory⟩ := exists_history_after session
  obtain ⟨-, wired, inStep⟩ := hhistory.orderly
  exact ⟨g, hafter, wired.typed, fun id b hb htag => (inStep.beliefs id b hb htag).isJoin⟩

/-- **Discordant types.** The field was declared with one type and seen with another, which have no join
but the unknown type. -/
theorem after_joined_inheritedField : ∃ g b, after inheritedField = .ok g ∧ g.belief? 3 = some b ∧
    b.IsJoin ∧ b.observed.types = [{ name := "Number" }, { name := "Integer" }] ∧
      b.type.type = .unknown := by
  obtain ⟨g, hafter, hjoined⟩ := after_joined inheritedField
  obtain ⟨htag, htypes, htype⟩ : g.tag? 3 = some .field ∧
      (g.belief? 3).map (fun b => b.observed.types) = some [{ name := "Number" }, { name := "Integer" }] ∧
        (g.belief? 3).map (fun b => b.type.type) = some .unknown := by
    apply of_after_eq hafter
    decide +kernel
  obtain ⟨b, hb, hobserved⟩ := Option.map_eq_some_iff.mp htypes
  rw [hb, Option.map_some, Option.some.injEq] at htype
  exact ⟨g, b, hafter, hb, hjoined.join 3 b hb (by simp [htag]), hobserved, htype⟩

/-! ## References catch up -/

namespace CaughtUp

/-- Followers stay caught up where beliefs stay. -/
theorem of_belief? (h : CaughtUp (g, pending)) (hsame : ∀ id, g'.belief? id = g.belief? id) :
    CaughtUp (g', pending) := by
  have hbeliefs : g'.belief? = g.belief? := funext hsame
  simpa only [CaughtUp, Feeds, Passes, HoldsMore, listenersAt, observedAt, hbeliefs] using h

/-- **An operation** that pins no type keeps followers caught up. -/
theorem run (h : CaughtUp (g, [])) {c : Call} (hc : c.Refining) : CaughtUp (c.run g, []) :=
  (reaches_run g hc).caughtUp h

/-- **New nodes,** which follow nothing yet. -/
theorem quiet (h : CaughtUp (g, [])) (wired : g.Wired) (hquiet : g.Quiet g') : CaughtUp (g', []) := by
  intro src target hfeeds hne hsome
  left
  obtain ⟨b, hb, l, hl, hreaction⟩ := hfeeds.exists_belief
  have hold : g.belief? src = some b := by
    rcases hquiet.fresh src b hb with hold | ⟨-, hraw⟩
    · exact hold
    · rw [hraw.listeners] at hl
      exact absurd hl List.not_mem_nil
  have hmeans := wired.followers src b hold l hl target hreaction
  have hbelief := wired.typed target _ (tag?_of_targetOf hmeans) rfl
  have hpasses := h.passes ⟨l, by rwa [listenersAt_eq hold], hreaction⟩ hne hbelief
  obtain ⟨c, hc⟩ := Option.isSome_iff_exists.mp hbelief
  rw [Passes, HoldsMore, observedAt_eq hb, observedAt_eq (hquiet.beliefs target c hc)]
  rwa [Passes, HoldsMore, observedAt_eq hold, observedAt_eq hc] at hpasses

/-- **A field that is informed** of the types of an access. -/
theorem informed (h : CaughtUp (g, [])) (field access : NodeId) :
    CaughtUp (g.informed field access, []) := by
  have hobserved : CaughtUp (g.observe field (g.typeOf access), []) :=
    h.run (c := .observe field (g.typeOf access)) trivial
  rw [Graph.informed]
  exact hobserved.run (c := .widen field _) trivial

/-- **A reference that is pointed at a declaration** is told what was observed there. -/
theorem pointed (h : CaughtUp (g, [])) (reference : NodeId) (old target : Option NodeId) :
    CaughtUp (g.pointed reference old target, []) := by
  have hfreed : CaughtUp (g.freed reference old, []) := by
    cases old with
    | none => exact h
    | some previous => exact h.keepListeners previous _
  have hwritten : CaughtUp ((g.freed reference old).setTarget reference target, []) :=
    hfreed.of_belief? fun id => belief?_modify _ _ id fun _ => rfl
  rw [Graph.pointed]
  generalize (g.freed reference old).setTarget reference target = written at hwritten ⊢
  cases target with
  | none => exact hwritten
  | some d =>
    rw [Graph.following]
    have hminted : CaughtUp ((written.mintListener (.follow reference)).2, []) :=
      hwritten.of_belief? fun _ => rfl
    exact hminted.run (c := .subscribe d _) trivial

/-- **One change** keeps references caught up. -/
theorem change (h : CaughtUp (g, [])) (wired : g.Wired) (hchange : Change done g g') :
    CaughtUp (g', []) := by
  cases hchange with
  | quiet hquiet => exact h.quiet wired hquiet
  | inform _ _ => exact h.informed _ _
  | point _ _ _ => exact h.pointed _ _ _

/-- **What a resolution changes** keeps references caught up. -/
theorem changes (h : CaughtUp (g, [])) (wired : g.Wired) (hchanges : Changes done g g') :
    CaughtUp (g', []) := by
  induction hchanges with
  | refl => exact h
  | tail hbefore hchange ih => exact ih.change (wired.changes hbefore) hchange

/-- **What a field holds** is held by the references to it, unless it is primitive. -/
theorem mem_observedAt (h : CaughtUp (g, [])) (wired : g.Wired) (hr : g.targetOf r = some d)
    (hmem : t ∈ (g.observedAt d).types) (hcompound : t.isPrimitive = false) :
    t ∈ (g.observedAt r).types := by
  obtain ⟨b, -, hb, -⟩ := wired.follows r d hr
  obtain ⟨l, hl, hreaction⟩ := wired.exists_listener hr hb
  have hne : r ≠ d := by
    rintro rfl
    exact wired.tag?_target hr (tag?_of_targetOf hr)
  have hpasses := h.passes ⟨l, by rwa [listenersAt_eq hb], hreaction⟩ hne
    (wired.typed r _ (tag?_of_targetOf hr) rfl)
  exact hpasses ⟨t, hmem, hcompound⟩ hmem

end CaughtUp

/-! ## Fields are told -/

/-- An access has something to tell the field that it is linked to: it has a known type that is not
primitive. -/
structure Conveys (g : Graph) (access field : NodeId) : Prop where
  /-- The access is linked to the field. -/
  link : ∃ base, g.payload? access = some (.memberAccess base (some field))
  /-- The field is one. -/
  kind : g.tag? field = some .field
  /-- The type of the access is known. -/
  known : (g.typeOf access).type.isUnknown = false
  /-- The type of the access is not primitive. -/
  compound : (g.typeOf access).type.isPrimitive = false

/-- The fields have been told. -/
def Told (g : Graph) : Prop :=
  ∀ access field, g.Conveys access field → (g.typeOf access).type ∈ (g.observedAt field).types

/-- The member of an access is there. -/
theorem WellTyped.exists_tag_member (typed : g.WellTyped) {base : NodeId}
    (h : g.payload? access = some (.memberAccess base (some field))) : ∃ tag, g.tag? field = some tag := by
  obtain ⟨node, hnode, hshape⟩ := exists_node_of_payload? h
  have hfits := typed.nodes access node hnode
  rw [hshape] at hfits
  obtain ⟨member, hmember, -⟩ := exists_node_of_name? (hfits.2 field rfl).1
  exact ⟨member.tag, tag?_eq hmember⟩

/-- A field that was told of an access still holds its type where the access keeps it and nothing
observed is forgotten. -/
theorem Told.keep (h : g.Told) (typed : g.WellTyped) (hconveys : g'.Conveys access field)
    (hlinked : ∃ base, g.payload? access = some (.memberAccess base (some field)))
    (htags : ∀ id tag, g.tag? id = some tag → g'.tag? id = some tag)
    (htype : g'.typeOf access = g.typeOf access)
    (hgrows : (g.observedAt field).types ⊆ (g'.observedAt field).types) :
    (g'.typeOf access).type ∈ (g'.observedAt field).types := by
  obtain ⟨base, hpayload⟩ := hlinked
  obtain ⟨tag, htag⟩ := typed.exists_tag_member hpayload
  obtain rfl := Option.some.inj ((htags field tag htag).symm.trans hconveys.kind)
  have hbefore : g.Conveys access field :=
    ⟨⟨base, hpayload⟩, htag, htype ▸ hconveys.known, htype ▸ hconveys.compound⟩
  rw [htype]
  exact hgrows (h access field hbefore)

/-- **A field that is informed** holds the type of the access, if that is known and not primitive. -/
theorem Wired.mem_observedAt_informed (wired : g.Wired) (hfield : g.tag? field = some .field)
    (hknown : (g.typeOf access).type.isUnknown = false)
    (hcompound : (g.typeOf access).type.isPrimitive = false) :
    (g.typeOf access).type ∈ ((g.informed field access).observedAt field).types := by
  obtain ⟨b, hb⟩ := Option.isSome_iff_exists.mp (wired.typed field _ hfield rfl)
  have hobserved : (g.typeOf access).type ∈
      ((g.observe field (g.typeOf access)).observedAt field).types := by
    have hbelief := wired.belief?_observe (x := field) (by simp [hfield]) (g.typeOf access)
    rw [hb, Option.map_some] at hbelief
    rw [observedAt_eq hbelief]
    exact b.mem_types_observe hknown hcompound
  have hwidened := (wired.still (wired.still_observe field (g.typeOf access))).still_widen field
  exact (hwidened _).rises.observedAt field hobserved

/-- **New nodes** come with accesses that are not linked yet.

**Proof sketch.** An access that was there before keeps its type, and its field keeps what was observed. The
accesses of the document are linked to references, which convey nothing. -/
theorem Told.builds (h : g.Told) (orderly : g.Orderly) (hbuilds : g.BuildsOn g' []) : g'.Told := by
  have hquiet := hbuilds.quiet
  intro access field hconveys
  obtain ⟨base, hpayload⟩ := hconveys.link
  obtain ⟨node, hnode, hshape⟩ := exists_node_of_payload? hpayload
  rcases Nat.lt_or_ge access g.size with hlt | hge
  · have hbefore : g.payload? access = some (.memberAccess base (some field)) := by
      rw [payload?, ← hbuilds.below access hlt, ← payload?, hpayload]
    obtain ⟨tag, htag⟩ := orderly.wellFormed.typed.exists_tag_member hbefore
    obtain rfl := Option.some.inj ((hquiet.tags field tag htag).symm.trans hconveys.kind)
    obtain ⟨a, ha⟩ := Option.isSome_iff_exists.mp
      (orderly.wired.typed access _ (tag?_of_payload? hbefore) rfl)
    obtain ⟨b, hb⟩ := Option.isSome_iff_exists.mp (orderly.wired.typed field _ htag rfl)
    refine h.keep orderly.wellFormed.typed hconveys ⟨base, hbefore⟩ hquiet.tags ?_ ?_
    · rw [typeOf_eq ha, typeOf_eq (hquiet.beliefs access a ha)]
    · rw [observedAt_eq hb, observedAt_eq (hquiet.beliefs field b hb)]
      exact List.Subset.refl _
  · -- what was built is linked to references
    have hraw := hbuilds.raw.payload access node hge hnode
    rw [hshape] at hraw
    obtain ⟨stub, hstub, htag⟩ := hraw
    obtain rfl := Option.some.inj hstub
    exact absurd (htag.symm.trans hconveys.kind) (by decide)

end Graph

/-! ## Runs -/

namespace Resolver

variable {g : Graph} {t₀ : ScopeTable} {index : Index} {V₀ V done : List NodeId} {r r' : Resolver}
  {owner : Descriptor} {name : String} {access base field : NodeId} {member member' : Option NodeId} {n : Nat}

/-- Nothing observed is forgotten in a step of a resolution. -/
theorem Step.observedAt (h : Step n done r r') (id : NodeId) :
    (r.graph.observedAt id).types ⊆ (r'.graph.observedAt id).types := by
  cases hb : r.graph.belief? id with
  | none =>
    rw [Graph.observedAt, hb]
    exact List.nil_subset _
  | some b =>
    obtain ⟨b', hb', hevolves, -⟩ := (h.refines _ (.all done r.graph)).evolves id b hb
    rw [Graph.observedAt_eq hb, Graph.observedAt_eq hb']
    exact hevolves.observed

/-- Finding the field for a member is a step of a resolution. -/
theorem Sound.reaches_of_findsMember (h : r.Sound) (hn : n ≤ r.graph.size) (done : List NodeId)
    (hfinds : r.FindsMember owner name field r') : Reaches n done 4 r r' := by
  cases hfinds with
  | found _ => exact (Reaches.refl h n done).mono (Nat.zero_le 4)
  | standIn hmissing hstand _ _ =>
    obtain ⟨field', r'', hstand', hreaches, -, -⟩ := h.standIn hn done hmissing _
    rw [hstand] at hstand'
    cases hstand'
    exact hreaches

/-- **A field that an access is linked to** for the first time is informed. -/
theorem SettlesMember.informs (h : r.SettlesMember access base member member' r') (sound : r.Sound)
    (hn : n ≤ r.graph.size) (hlinked : member' = some field) (hnew : member ≠ some field)
    (hfield : r.graph.tag? field ≠ some .enumConstant) : ∃ r₁, Reaches n [] 4 r r₁ ∧
      r₁.graph.tag? field = some .field ∧ r'.graph = r₁.graph.informed field access := by
  cases h with
  | none => exact absurd hlinked (by simp)
  | stays _ => exact absurd hlinked hnew
  | constant _ _ _ _ =>
    have hmem := List.mem_of_find?_eq_some hlinked
    exact absurd (sound.wellFormed.typed.all_entriesOf.tag_eq hmem) hfield
  | field _ _ _ hfinds hsound hobserve f =>
    obtain rfl := Option.some.inj hlinked
    subst hobserve
    exact ⟨_, sound.reaches_of_findsMember hn [] hfinds, (sound.findsMember_spec hsound hfinds).1, rfl⟩

/-- **A run tells the fields** of the accesses that it links to them.

**Proof sketch.** An access that was linked before the run told its field then, and observations stay.
Otherwise it was visited in the run. At the moment of its visit the field was informed of its type, which was
then what it is in the end, as only references change their types by listening. -/
theorem Run.told (run : Run g t₀ index V₀ V r) (orderly : g.Orderly) (h : g.Told) : r.graph.Told := by
  have hstep := (run.runs.reaches run.start).2
  intro access field hconveys
  obtain ⟨base', hpayload⟩ := hconveys.link
  have haccess : g.tag? access = some .memberAccess :=
    hstep.graph.tag?_back (Graph.tag?_of_payload? hpayload) rfl
  obtain ⟨a, ha⟩ := Option.isSome_iff_exists.mp (orderly.wired.typed access _ haccess rfl)
  have htype : ∀ {done g'}, Graph.Changes done g g' → g'.typeOf access = g.typeOf access :=
    fun hchanges => orderly.wired.typeOf_changes hchanges haccess (by decide) ha
  by_cases hlinked : ∃ base, g.payload? access = some (.memberAccess base (some field))
  · exact h.keep orderly.wellFormed.typed hconveys hlinked (fun id tag htag => hstep.graph.tag? htag)
      (htype hstep.changes) (hstep.observedAt field)
  · have hid : access ∈ V := by
      by_contra hid
      exact hlinked ⟨base', run.payload?_of_notMem hpayload (Or.inr rfl) hid⟩
    obtain ⟨-, base, member, r₁, r₂, r₃, hstart, hmoment⟩ := run.access hid hpayload
    obtain ⟨before, -, -, hbefore⟩ := hmoment.runs
    obtain ⟨_, hafter⟩ := hmoment.after
    have hnew : member ≠ some field := by
      rintro rfl
      exact hlinked ⟨base, hstart⟩
    have hconstant : r₂.graph.tag? field ≠ some .enumConstant := by
      intro htag
      have hkept := hafter.graph.tag? (hmoment.during'.graph.tag? htag)
      exact absurd (hkept.symm.trans hconveys.kind) (by decide)
    obtain ⟨r', hfound, hfield, hinformed⟩ := hmoment.member.informs hmoment.sound'
      (Nat.le_trans hbefore.graph.size hmoment.during.graph.size) rfl hnew hconstant
    have hchanges := hbefore.changes.trans
      ((hmoment.during.changes.trans hfound.step.changes).weaken (List.nil_subset before))
    -- the access had the same type when the field was informed
    have hsame : r'.graph.typeOf access = r.graph.typeOf access :=
      (htype hchanges).trans (htype hstep.changes).symm
    have htold := (orderly.wired.changes hchanges).mem_observedAt_informed hfield
      (hsame ▸ hconveys.known) (hsame ▸ hconveys.compound)
    rw [← hinformed, hsame] at htold
    exact hafter.observedAt field htold

end Resolver

/-! ## Sessions -/

namespace Graph

variable {g g' : Graph} {past : List Graph}

/-- Fields have heard of the accesses that are linked to them, and references have caught up with what
they mean. -/
structure Attuned (g : Graph) : Prop where
  /-- References have caught up. -/
  caughtUp : CaughtUp (g, [])
  /-- Fields have been told. -/
  told : g.Told

/-- Nothing is there to be told. -/
theorem Attuned.empty : ({} : Graph).Attuned := by
  refine ⟨?_, ?_⟩
  · rintro src target ⟨l, hl, -⟩
    cases hl
  · intro access field hconveys
    cases hconveys.kind

/-- **One step** of a history. -/
theorem Attuned.advances (h : g.Attuned) (orderly : g.Orderly) (hnext : g.Advances g') : g'.Attuned := by
  cases hnext with
  | parse d path =>
    have hbuilds := d.build_ok path (.refl orderly.wellFormed)
    exact ⟨h.caughtUp.quiet orderly.wired hbuilds.quiet, h.told.builds orderly hbuilds⟩
  | resolve hresolve =>
    obtain ⟨r, t₀, index, V₀, V, rfl, run⟩ := exists_run orderly.wellFormed hresolve
    have hchanges := (run.runs.reaches run.start).2.changes
    exact ⟨h.caughtUp.changes orderly.wired hchanges, run.told orderly h.told⟩

/-- **All graphs of a history** are attuned. -/
theorem History.attuned (h : History (g :: past)) : g.Attuned :=
  h.invariant .empty fun _ _ orderly hg hnext => hg.advances orderly hnext

/-- **Observed types flow** from accesses through fields to references. After every session, where a
member access is linked to a field, its type, if it is known and not primitive, was observed on the field
and on every reference to the field.

**Proof sketch.** All graphs of a history are attuned: the fields were told of the accesses that are linked to
them, and followers have caught up with those they follow (`CaughtUp`). The first gives the type at the field.
As it is not primitive, a reference to the field, which listens to it, has it as well. -/
theorem after_flows (session : List Operation) : ∃ g, after session = .ok g ∧
    ∀ access field, g.Conveys access field → (g.typeOf access).type ∈ (g.observedAt field).types ∧
      ∀ r, g.targetOf r = some field → (g.typeOf access).type ∈ (g.observedAt r).types := by
  obtain ⟨g, past, hafter, hhistory⟩ := exists_history_after session
  obtain ⟨caughtUp, told⟩ := hhistory.attuned
  refine ⟨g, hafter, ?_⟩
  intro access field hconveys
  have hmem := told access field hconveys
  refine ⟨hmem, ?_⟩
  intro r hr
  exact caughtUp.mem_observedAt hhistory.orderly.wired hr hmem hconveys.compound

/-- **Before and after.** Of two references to the field the first was linked before the access was
visited, and the other one in a later run. Both hold the type of the access. -/
theorem after_flows_inheritedField : ∃ g, after inheritedField = .ok g ∧ g.Conveys 16 3 ∧
    (g.typeOf 16).type = { name := "Integer" } ∧
      (g.targetOf 6 = some 3 ∧ { name := "Integer" } ∈ (g.observedAt 6).types) ∧
        g.targetOf 22 = some 3 ∧ { name := "Integer" } ∈ (g.observedAt 22).types := by
  obtain ⟨g, hafter, hflows⟩ := after_flows inheritedField
  obtain ⟨hpayload, hfield, htype, hfirst, hsecond⟩ :
      g.payload? 16 = some (.memberAccess 9 (some 3)) ∧ g.tag? 3 = some .field ∧
        (g.typeOf 16).type = { name := "Integer" } ∧ g.targetOf 6 = some 3 ∧ g.targetOf 22 = some 3 := by
    apply of_after_eq hafter
    decide +kernel
  have hconveys : g.Conveys 16 3 :=
    ⟨⟨9, hpayload⟩, hfield, by rw [htype]; decide, by rw [htype]; decide⟩
  have hreferences := (hflows 16 3 hconveys).2
  rw [htype] at hreferences
  exact ⟨g, hafter, hconveys, htype, ⟨hfirst, hreferences 6 hfirst⟩, hsecond, hreferences 22 hsecond⟩

end Graph

end ProgramGraph
