import ProgramGraph.Proofs.Resolution.InStep

set_option autoImplicit false

/-!
# References that track a declaration

A reference on which nothing was observed at first, and that never meant anything but one declaration,
hears of nothing but the types of that declaration. What was observed on it is an echo of what was
observed on the declaration. So whenever the declaration has a known type, the reference takes it
over, even if it heard of an older one before.

## Main definitions

* `ProgramGraph.TypeSet.Echoes` — all members are joins of members of another set.
* `ProgramGraph.Graph.Awaits` — the reference has the type of the declaration, or it is about to be
  told.
* `ProgramGraph.Graph.Tracks` — the reference has the type of the declaration, if that is known.

## Main results

* `ProgramGraph.Belief.InStep.type_observe` — the reference takes a known type over.
* `ProgramGraph.Graph.Awaits.settle` — in the end it was told.
* `ProgramGraph.Graph.Tracks.changes` — what else changes in a resolution does not matter.
* `ProgramGraph.Graph.Tracks.pointed` — nor does it if the reference is pointed at the declaration
  again, or at nothing.
* `ProgramGraph.Graph.Tracks.typeOf_eq_or` — the types agree, unless the declaration lost its type.
-/

namespace ProgramGraph

/-! ## Echoes -/

/-- All members of a set are joins of some members of another one. -/
def TypeSet.Echoes (s t : TypeSet) : Prop :=
  ∀ u ∈ s.types, ∃ ts ⊆ t.types, Descriptor.common? ts = some u

namespace TypeSet.Echoes

variable {s t t' : TypeSet} {join : Descriptor}

/-- A set echoes itself. -/
theorem refl (s : TypeSet) : s.Echoes s :=
  fun u hu => ⟨[u], fun _ hv => List.mem_singleton.mp hv ▸ hu, rfl⟩

/-- The echo of a set is one of every larger set. -/
theorem mono (h : s.Echoes t) (hsubset : t.types ⊆ t'.types) : s.Echoes t' := by
  intro u hu
  obtain ⟨ts, hts, hjoin⟩ := h u hu
  exact ⟨ts, List.Subset.trans hts hsubset, hjoin⟩

/-- Nothing echoes but nothing. -/
theorem eq_nil (h : s.Echoes t) (ht : t.types = []) : s.types = [] := by
  refine List.eq_nil_iff_forall_not_mem.mpr fun u hu => ?_
  obtain ⟨ts, hts, hjoin⟩ := h u hu
  obtain ⟨v, hv⟩ := Descriptor.exists_mem_of_common? hjoin
  rw [ht] at hts
  exact absurd (hts hv) List.not_mem_nil

/-- The echo of one type is that type. -/
theorem eq_of_forall (h : s.Echoes t) (hall : ∀ v ∈ t.types, v = join) : ∀ u ∈ s.types, u = join := by
  intro u hu
  obtain ⟨ts, hts, hjoin⟩ := h u hu
  obtain ⟨v, hv⟩ := Descriptor.exists_mem_of_common? hjoin
  have hsame := Descriptor.common?_eq_of_forall (hall v (hts hv) ▸ hv) fun w hw =>
    Or.inl (hall w (hts hw))
  exact Option.some.inj (hjoin.symm.trans hsame)

/-- The echoes of types with a known join are forms of the join. -/
theorem isFormOf (h : s.Echoes t) (ht : Descriptor.common? t.types = some join)
    (hknown : join.isUnknown = false) : ∀ u ∈ s.types, u.IsFormOf join := by
  intro u hu
  obtain ⟨ts, hts, hjoin⟩ := h u hu
  rcases Descriptor.common?_mono hts hjoin ht with rfl | rfl | rfl
  · exact Or.inl rfl
  · exact Or.inr rfl
  · exact absurd hknown (by decide)

end TypeSet.Echoes

namespace Belief

variable {b c : Belief} {s : TypeSet}

/-- Observing a type that is in step adds an echo. -/
theorem echoes_observe (hc : c.InStep) (h : b.observed.Echoes c.observed) :
    (b.observe c.type).observed.Echoes c.observed := by
  by_cases hignores : b.ignores c.type = true
  · have hsame : b.observe c.type = b := if_pos hignores
    rwa [hsame]
  · intro u hu
    rw [observe_of_not_ignores hignores] at hu
    rcases TypeSet.mem_types_insert.mp hu with hu | rfl
    · exact h u hu
    · exact ⟨_, List.Subset.refl _, hc.common?_eq (not_ignores_iff.mp hignores).1⟩

/-- Widening by a set adds echoes of it. -/
theorem echoes_widen (h : b.observed.Echoes s) : (b.widen s.observations).observed.Echoes s := by
  unfold widen
  split
  · exact h
  · intro u hu
    rcases TypeSet.mem_types_insertAll.mp hu with hu | ⟨o, ho, rfl⟩
    · exact h u hu
    · exact TypeSet.Echoes.refl s _ (List.mem_map_of_mem ho)

/-- Widening leaves the type alone. -/
@[simp] theorem type_widen (b : Belief) (os : List Observation) : (b.widen os).type = b.type := by
  unfold widen
  split <;> rfl

/-- **A known type is taken over** where only echoes were observed.

**Proof sketch.** If the observation is ignored, a primitive type is known already, and all that was observed
is that type. Otherwise everything that was observed is a form of the new type, so that the type in common is
the new one. -/
theorem InStep.type_observe (hc : c.InStep) (hrises : ({} : Belief).Rises b)
    (hechoes : b.observed.Echoes c.observed) (hknown : c.type.type.isUnknown = false) :
    (b.observe c.type).type.type = c.type.type := by
  by_cases hignores : b.ignores c.type = true
  · -- a primitive type is known already, and nothing else was observed
    have hsame : b.observe c.type = b := if_pos hignores
    simp only [ignores, hknown, Bool.false_or, Bool.and_eq_true, Bool.not_eq_true'] at hignores
    obtain ⟨⟨hb, -⟩, hprimitive⟩ := hignores
    have hall := hechoes.eq_of_forall (hc.primitive hknown hprimitive)
    rw [hsame]
    rcases hrises.exists_join with hunknown | ⟨ts, hts, ⟨u, hu, -⟩, hjoin⟩
    · rw [hunknown] at hb
      exact absurd hb (by decide)
    · have hcommon := Descriptor.common?_eq_of_forall (hall u (hts hu) ▸ hu) fun v hv =>
        Or.inl (hall v (hts hv))
      exact Option.some.inj (hjoin.symm.trans hcommon)
  · have hcases : ∀ u, u ∈ (b.observe c.type).observed.types ↔
        u ∈ b.observed.types ∨ u = c.type.type := by
      intro u
      rw [observe_of_not_ignores hignores]
      exact TypeSet.mem_types_insert
    have hforms : ∀ u ∈ (b.observe c.type).observed.types, u.IsFormOf c.type.type := by
      intro u hu
      rcases (hcases u).mp hu with hu | heq
      · exact hechoes.isFormOf (hc.common?_eq hknown) hknown u hu
      · exact Or.inl heq
    have hcommon := Descriptor.common?_eq_of_forall ((hcases _).mpr (Or.inr rfl)) hforms
    exact Option.some.inj ((common?_observe hignores).symm.trans hcommon)

/-- A refinement announces things about the node. -/
theorem source_of_mem_announceRefined {next : Belief} {id : NodeId} {notice : Notice}
    (h : notice ∈ b.announceRefined next id) : notice.source = id := by
  have hannounce : ∀ former, notice ∈ next.announce id former → notice.source = id := by
    intro former hnotice
    obtain ⟨l, -, rfl⟩ := List.mem_map.mp hnotice
    rfl
  unfold announceRefined at h
  rcases List.mem_append.mp h with h | h <;> split at h
  · exact hannounce _ h
  · exact absurd h List.not_mem_nil
  · exact absurd h List.not_mem_nil
  · exact hannounce _ h

/-- A listener is told when the type changes. -/
theorem mem_announceRefined {next : Belief} {id : NodeId} {l : Listener} (hl : l ∈ next.listeners)
    (howner : l.owner ≠ some id) (htype : b.type.type ≠ next.type.type) :
    ⟨id, l, .type b.type.type⟩ ∈ b.announceRefined next id := by
  unfold announceRefined
  rw [if_neg htype]
  refine List.mem_append_right _ (List.mem_map_of_mem (List.mem_filter.mpr ⟨hl, ?_⟩))
  simpa using howner

end Belief

/-! ## Deliveries -/

/-- A notice that tells a reference of a type. -/
def Notice.TellsType (notice : Notice) (r : NodeId) : Prop :=
  notice.listener.reaction = .follow r ∧ ∃ former, notice.former = .type former

namespace Graph

variable {g g' : Graph} {r d : NodeId} {b c : Belief} {notice : Notice} {pending rest : List Notice}
  {T : NodeId → Prop} {done : List NodeId}

/-- While a declaration is believed to be `c` and notices are pending, a reference to it only heard
echoes. It has the type of the declaration, if that is known, or it is about to be told. -/
structure Awaits (r d : NodeId) (c : Belief) (g : Graph) (pending : List Notice) : Prop where
  /-- What is believed about the declaration. -/
  declared : g.belief? d = some c
  /-- What is believed about the reference. -/
  reference : ∃ b, g.belief? r = some b ∧ ({} : Belief).Rises b ∧ b.observed.Echoes c.observed ∧
    (c.type.type.isUnknown = false →
      b.type.type = c.type.type ∨ ∃ notice ∈ pending, notice.TellsType r)
  /-- The reference is told of nothing but the declaration. -/
  sources : ∀ notice ∈ pending, notice.listener.reaction = .follow r → notice.source = d

namespace Awaits

/-- What a notice about the declaration does to the reference.

**Proof sketch.** A notice of a new type hands over the type of the declaration, which is taken over if it is
known. A notice of what was observed hands over what was observed on the declaration, which adds nothing but
echoes and leaves the type alone. Then a notice that tells the type is still to come, if the type was not
taken over before. -/
theorem exists_effect (h : Awaits r d c g (notice :: rest)) (hc : c.InStep)
    (hr : notice.listener.reaction = .follow r) : ∃ b, g.belief? r = some b ∧
      ({} : Belief).Rises (g.effect notice b) ∧ (g.effect notice b).observed.Echoes c.observed ∧
        (c.type.type.isUnknown = false →
          (g.effect notice b).type.type = c.type.type ∨ ∃ notice ∈ rest, notice.TellsType r) := by
  obtain ⟨b, hb, hrises, hechoes, hfollows⟩ := h.reference
  have hsource := h.sources notice (List.mem_cons_self ..) hr
  refine ⟨b, hb, hrises.trans (g.rises_effect notice b), ?_⟩
  cases hformer : notice.former with
  | type former =>
    have heffect : g.effect notice b = b.observe c.type := by
      rw [effect, hformer, hsource, typeOf_eq h.declared]
    rw [heffect]
    exact ⟨Belief.echoes_observe hc hechoes, fun hknown =>
      Or.inl (hc.type_observe hrises hechoes hknown)⟩
  | observed former =>
    have heffect : g.effect notice b = b.widen c.observed.observations := by
      rw [effect, hformer, hsource, observedAt, h.declared]
    rw [heffect, Belief.type_widen]
    refine ⟨Belief.echoes_widen hechoes, fun hknown => (hfollows hknown).imp_right ?_⟩
    rintro ⟨other, hother, htells⟩
    rcases List.mem_cons.mp hother with rfl | hother
    · obtain ⟨-, former', hformer'⟩ := htells
      rw [hformer] at hformer'
      cases hformer'
    · exact ⟨other, hother, htells⟩

/-- **Telling a listener** that does not act for the declaration.

**Proof sketch.** If the notice goes to the reference, its belief takes over what it is told and goes on to
echo the declaration. Otherwise neither of the two beliefs changes. -/
theorem deliver (h : Awaits r d c g (notice :: rest)) (hc : c.InStep)
    (hd : notice.listener.reaction ≠ .follow d) : Awaits r d c (g.deliver notice).1 rest := by
  have hsources : ∀ other ∈ rest, other.listener.reaction = .follow r → other.source = d :=
    fun other hother => h.sources other (List.mem_cons_of_mem _ hother)
  by_cases hr : notice.listener.reaction = .follow r
  · obtain ⟨b, hb, hafter⟩ := h.exists_effect hc hr
    have hne : r ≠ d := fun heq => hd (heq ▸ hr)
    rw [deliver_eq g hr]
    refine ⟨?_, ⟨g.effect notice b, ?_, hafter⟩, hsources⟩
    · rw [belief?_refine, if_neg hne, h.declared]
    · rw [belief?_refine, if_pos rfl, hb, Option.map_some]
  · have hbeliefs : ∀ id, notice.listener.reaction ≠ .follow id →
        (g.deliver notice).1.belief? id = g.belief? id := by
      intro id hid
      cases hreaction : notice.listener.reaction with
      | follow target =>
        have hne : target ≠ id := fun heq => hid (heq ▸ hreaction)
        rw [deliver_eq g hreaction, belief?_refine, if_neg hne]
      | record owner =>
        obtain ⟨source, ⟨key, reaction⟩, former⟩ := notice
        obtain rfl : reaction = .record owner := hreaction
        rfl
    obtain ⟨b, hb, hrises, hechoes, hfollows⟩ := h.reference
    refine ⟨(hbeliefs d hd).trans h.declared,
      ⟨b, (hbeliefs r hr).trans hb, hrises, hechoes, fun hknown => (hfollows hknown).imp_right ?_⟩,
      hsources⟩
    rintro ⟨other, hother, htells⟩
    rcases List.mem_cons.mp hother with rfl | hother
    · exact absurd htells.1 hr
    · exact ⟨other, hother, htells⟩

/-- **In the end the reference was told.** -/
theorem settle (h : Awaits r d c g pending) (hc : c.InStep) (hsilent : g.Silent T)
    (hpending : Directed T pending) (hd : ¬ T d) : Awaits r d c (g.settle pending) [] := by
  refine settle_induction (P := Awaits r d c) hsilent hpending h ?_
  intro now notice rest _ hdirected hnow
  exact hnow.deliver hc fun heq => hd (hdirected notice (List.mem_cons_self ..) d heq)

end Awaits

/-! ## Changes -/

/-- A reference never heard of anything but one declaration, and has its type if that is known. -/
structure Tracks (g : Graph) (r d : NodeId) : Prop where
  /-- It is a reference. -/
  kind : g.tag? r = some .reference
  /-- It means nothing but the declaration. -/
  means : ∀ x, g.targetOf r = some x → x = d
  /-- It heard echoes of what was observed on the declaration. -/
  echoes : (g.observedAt r).Echoes (g.observedAt d)
  /-- It has the type of the declaration. -/
  follows : g.targetOf r = some d → (g.typeOf d).type.isUnknown = false →
    (g.typeOf r).type = (g.typeOf d).type

/-- Nothing but listeners changes where a reference is rewired. -/
theorem Rewired.same {x : NodeId} {target : Option NodeId} {l : Listener}
    (h : Rewired x target l g g') (id : NodeId) :
    g'.typeOf id = g.typeOf id ∧ g'.observedAt id = g.observedAt id := by
  simp only [typeOf, observedAt, h.beliefs]
  cases g.belief? id <;> exact ⟨rfl, rfl⟩

/-- When everybody was told, a reference tracks the declaration. -/
theorem Awaits.tracks (h : Awaits r d c g []) (hkind : g.tag? r = some .reference)
    (hmeans : ∀ x, g.targetOf r = some x → x = d) : g.Tracks r d := by
  obtain ⟨b, hb, -, hechoes, hfollows⟩ := h.reference
  refine ⟨hkind, hmeans, ?_, fun _ hknown => ?_⟩
  · rwa [observedAt_eq hb, observedAt_eq h.declared]
  · rw [typeOf_eq h.declared] at hknown ⊢
    rw [typeOf_eq hb]
    refine (hfollows hknown).resolve_right ?_
    rintro ⟨_, hnotice, -⟩
    exact absurd hnotice List.not_mem_nil

namespace Tracks

/-- What matters to neither of the two. -/
theorem of_same (h : g.Tracks r d) (hkind : g'.tag? r = some .reference)
    (hmeans : ∀ x, g'.targetOf r = some x → g.targetOf r = some x) (htype : g'.typeOf r = g.typeOf r)
    (hobserved : g'.observedAt r = g.observedAt r)
    (hgrows : (g.observedAt d).types ⊆ (g'.observedAt d).types)
    (hfollows : g'.targetOf r = some d → g'.typeOf d = g.typeOf d) : g'.Tracks r d := by
  refine ⟨hkind, fun x hx => h.means x (hmeans x hx), ?_, fun htarget hknown => ?_⟩
  · rw [hobserved]
    exact h.echoes.mono hgrows
  · rw [hfollows htarget] at hknown ⊢
    rw [htype]
    exact h.follows (hmeans d htarget) hknown

/-- **New nodes.** -/
theorem quiet (h : g.Tracks r d) (wired : g.Wired) (hquiet : g.Quiet g') : g'.Tracks r d := by
  obtain ⟨b, hb⟩ := Option.isSome_iff_exists.mp (wired.typed r _ h.kind rfl)
  have hb' := hquiet.beliefs r b hb
  refine h.of_same (hquiet.tags r _ h.kind) (fun x hx => (hquiet.targets r).symm.trans hx) ?_ ?_ ?_ ?_
  · rw [typeOf_eq hb, typeOf_eq hb']
  · rw [observedAt_eq hb, observedAt_eq hb']
  · cases hc : g.belief? d with
    | none =>
      rw [observedAt, hc]
      exact List.nil_subset _
    | some c =>
      rw [observedAt_eq hc, observedAt_eq (hquiet.beliefs d c hc)]
      exact List.Subset.refl _
  · intro htarget
    rw [hquiet.targets] at htarget
    obtain ⟨c, -, hc, -⟩ := wired.follows r d htarget
    rw [typeOf_eq hc, typeOf_eq (hquiet.beliefs d c hc)]

/-- **The beliefs of others.** -/
theorem still (h : g.Tracks r d) {T : NodeId → Prop} (hstill : Still T g g') (hr : ¬ T r)
    (hd : g.targetOf r = some d → ¬ T d) : g'.Tracks r d := by
  have htarget : g'.targetOf r = g.targetOf r := by
    rw [targetOf, hstill.tree.payload?, targetOf]
  refine h.of_same (hstill.tree.tag? r ▸ h.kind) (fun x hx => htarget ▸ hx) ?_ ?_
    (hstill.rises.observedAt d) fun hlinked => ?_
  · rw [typeOf, hstill.others r hr, typeOf]
  · rw [observedAt, hstill.others r hr, observedAt]
  · rw [typeOf, hstill.others d (hd (htarget ▸ hlinked)), typeOf]

/-- **An observation on the declaration** is about to be told to a reference that means it. -/
theorem awaits_observe (h : g.Tracks r d) (wired : g.Wired) (inStep : g.InStep)
    (hlinked : g.targetOf r = some d) (hc : g.belief? d = some c) (o : Observation) :
    Awaits r d (c.observe o) (g.setBelief d (c.observe o)) (c.announceRefined (c.observe o) d) := by
  obtain ⟨b, hb⟩ := Option.isSome_iff_exists.mp (wired.typed r _ h.kind rfl)
  obtain ⟨l, hl, hreaction⟩ := wired.exists_listener hlinked hc
  have hne : d ≠ r := fun heq => wired.tag?_target hlinked (heq ▸ h.kind)
  refine ⟨?_, ⟨b, ?_, inStep.rises r b hb, ?_, fun hknown => ?_⟩, fun notice hnotice _ =>
    Belief.source_of_mem_announceRefined hnotice⟩
  · rw [belief?_setBelief hc, if_pos rfl]
  · rw [belief?_setBelief hc, if_neg hne, hb]
  · have hechoes := h.echoes
    rw [observedAt_eq hb, observedAt_eq hc] at hechoes
    exact hechoes.mono (c.rises_observe o).observed
  · by_cases htype : c.type.type = (c.observe o).type.type
    · have hfollows := h.follows hlinked
      rw [typeOf_eq hb, typeOf_eq hc, htype] at hfollows
      exact Or.inl (hfollows hknown)
    · refine Or.inr ⟨_, Belief.mem_announceRefined ?_ ?_ htype, hreaction, _, rfl⟩
      · rwa [Belief.listeners_observe]
      · rw [Listener.owner, hreaction]
        exact fun heq => hne (Option.some.inj heq).symm

/-- **An observation** on a node that is no reference.

**Proof sketch.** If the reference means the observed node, then it awaits what is announced, and once all
notices are delivered it has caught up. Otherwise neither of the two changes. -/
theorem observe (h : g.Tracks r d) (wired : g.Wired) (inStep : g.InStep)
    (hd : g.tag? d ≠ some .reference) {x : NodeId} (hx : g.tag? x ≠ some .reference)
    (o : Observation) : (g.observe x o).Tracks r d := by
  have hstill := wired.still_observe x o
  by_cases hlinked : g.targetOf r = some x
  · -- the reference is told
    obtain rfl := h.means x hlinked
    obtain ⟨c, -, hc, -⟩ := wired.follows r x hlinked
    have hrefine := refine_eq hc fun b => b.observe o
    have hsilent := (g.still_refine x (fun b => b.listeners_observe o) fun b =>
      b.rises_observe o).silent (wired.silent_followers x)
    have hdirected := directed_refine (wired.followers x) fun b : Belief => b.listeners_observe o
    rw [hrefine] at hsilent hdirected
    have hsettled := (h.awaits_observe wired inStep hlinked hc o).settle
      ((inStep.beliefs x c hc hx).observe o) hsilent hdirected fun heq => hx (tag?_of_targetOf heq)
    have hobserve : g.observe x o =
        (g.setBelief x (c.observe o)).settle (c.announceRefined (c.observe o) x) := by
      rw [Graph.observe, hrefine]
    rw [← hobserve] at hsettled
    refine hsettled.tracks (hstill.tree.tag? r ▸ h.kind) fun y hy => ?_
    rw [targetOf, hstill.tree.payload?] at hy
    exact h.means y hy
  · refine h.still hstill ?_ fun hmeans => ?_
    · rintro (rfl | hmeans)
      · exact hx h.kind
      · exact hlinked hmeans
    · rintro (rfl | hother)
      · exact hlinked hmeans
      · exact hd (tag?_of_targetOf hother)

/-- **Pointing another reference** at something. -/
theorem pointed_of_ne (h : g.Tracks r d) (wired : g.Wired) (hd : g.tag? d ≠ some .reference)
    {x : NodeId} (hne : x ≠ r) {old target : Option NodeId} {isStatic : Bool}
    (hpayload : g.payload? x = some (.reference old isStatic))
    (htarget : g.All Tag.isValueDeclaration target.toList) : (g.pointed x old target).Tracks r d := by
  obtain ⟨now, l, hrewired, -, hstill⟩ := wired.exists_still hpayload htarget
  have hmeans : now.targetOf r = g.targetOf r := by
    rw [hrewired.targets, if_neg fun heq => hne heq.symm]
  have hnow : now.Tracks r d := by
    refine h.of_same ((hrewired.tags r).trans h.kind) (fun y hy => hmeans ▸ hy) (hrewired.same r).1
      (hrewired.same r).2 ?_ fun _ => (hrewired.same d).1
    rw [(hrewired.same d).2]
    exact List.Subset.refl _
  refine hnow.still hstill (fun heq => hne heq.symm) fun _ heq => hd ?_
  rw [heq, tag?_of_payload? hpayload]
  rfl

/-- **Pointing the reference** at the declaration again, or at nothing.

**Proof sketch.** If the reference is to mean nothing, nobody is told and all beliefs stay. If it is to mean
the declaration, it awaits its type and its set now, and settling the notices makes it track the declaration
(`Awaits.settle`). -/
theorem pointed (h : g.Tracks r d) (wired : g.Wired) (inStep : g.InStep)
    (hd : g.tag? d ≠ some .reference) {old target : Option NodeId} {isStatic : Bool}
    (hpayload : g.payload? r = some (.reference old isStatic))
    (htarget : g.All Tag.isValueDeclaration target.toList) (hmeans : ∀ x, target = some x → x = d) :
    (g.pointed r old target).Tracks r d := by
  obtain ⟨now, l, pending, hpointed, hrewired, hpending, htells⟩ :=
    wired.exists_rewired hpayload htarget
  have hwired := wired.rewired hrewired htarget
  have hkind : now.tag? r = some .reference := (hrewired.tags r).trans h.kind
  have htargetOf : now.targetOf r = target := by rw [hrewired.targets, if_pos rfl]
  rw [hpointed]
  cases target with
  | none =>
    have hnobody : pending = [] := by
      refine List.eq_nil_iff_forall_not_mem.mpr fun notice hnotice => ?_
      exact absurd (hpending notice hnotice).2 (by simp)
    subst hnobody
    refine h.of_same hkind (fun x hx => ?_) (hrewired.same r).1 (hrewired.same r).2 ?_ fun _ =>
      (hrewired.same d).1
    · exact absurd (htargetOf.symm.trans hx) (by simp)
    · change _ ⊆ (now.observedAt d).types
      rw [(hrewired.same d).2]
      exact List.Subset.refl _
  | some x =>
    obtain rfl := hmeans x rfl
    obtain ⟨c, -, hc, -⟩ := hwired.follows r x htargetOf
    obtain ⟨b, hb⟩ := Option.isSome_iff_exists.mp (hwired.typed r _ hkind rfl)
    have hnow := inStep.rewired hrewired htarget
    have hawaits : Awaits r x c now pending := by
      refine ⟨hc, ⟨b, hb, hnow.rises r b hb, ?_, fun _ => ?_⟩, fun notice hnotice _ => ?_⟩
      · rw [← observedAt_eq hb, ← observedAt_eq hc, (hrewired.same r).2, (hrewired.same x).2]
        exact h.echoes
      · obtain ⟨former, hmem⟩ := htells x rfl
        exact Or.inr ⟨_, hmem, hrewired.reaction, former, rfl⟩
      · exact (Option.some.inj (hpending notice hnotice).2).symm
    have hdirected : Directed (fun id => now.tag? id = some .reference) pending := by
      intro notice hnotice y hy
      rw [(hpending notice hnotice).1, hrewired.reaction] at hy
      exact Reaction.follow.inj hy ▸ hkind
    have hd' : now.tag? x ≠ some .reference := fun heq => hd ((hrewired.tags x).symm.trans heq)
    have hstill := still_settle hwired.silent hdirected
    refine (hawaits.settle (hnow.beliefs x c hc hd') hwired.silent hdirected hd').tracks
      (hstill.tree.tag? r ▸ hkind) fun y hy => ?_
    rw [targetOf, hstill.tree.payload?] at hy
    exact Option.some.inj (hy.symm.trans htargetOf)

/-- **One change** that does not concern what the reference means. -/
theorem change (h : g.Tracks r d) (wired : g.Wired) (inStep : g.InStep)
    (hd : g.tag? d ≠ some .reference) (hchange : Change done g g') (hr : r ∉ done) :
    g'.Tracks r d := by
  cases hchange with
  | quiet hquiet => exact h.quiet wired hquiet
  | inform hfield haccess =>
    rw [inStep.informed_eq wired hfield haccess]
    exact h.observe wired inStep hd (by simp [hfield]) _
  | point hdone hpayload htarget =>
    exact h.pointed_of_ne wired hd (fun heq => hr (heq ▸ hdone)) hpayload htarget

/-- **What changes in a resolution** and does not concern what the reference means. -/
theorem changes (h : g.Tracks r d) (wired : g.Wired) (inStep : g.InStep)
    (hchanges : Changes done g g') (hr : r ∉ done) (hd : g'.tag? d ≠ some .reference) :
    g'.Tracks r d := by
  induction hchanges with
  | refl => exact h
  | @tail now _ hbefore hchange ih =>
    have hnow : now.tag? d ≠ some .reference := fun heq => hd (hchange.tag? heq)
    exact (ih hnow).change (wired.changes hbefore) (inStep.changes wired hbefore) hnow hchange hr

/-- **The types** of a reference and of the declaration that it means agree, unless the declaration
lost its type.

**Proof sketch.** Where nothing was observed on the declaration, both types are unknown. Where the type of the
declaration is known, the reference has it. Otherwise the types that were observed have nothing in common, as
each of them was known. -/
theorem typeOf_eq_or (h : g.Tracks r d) (wired : g.Wired) (inStep : g.InStep)
    (hlinked : g.targetOf r = some d) : (g.typeOf r).type = (g.typeOf d).type ∨
      Descriptor.Discordant (g.observedAt d).types ∧ (g.typeOf d).type = .unknown := by
  obtain ⟨b, hb⟩ := Option.isSome_iff_exists.mp (wired.typed r _ h.kind rfl)
  obtain ⟨c, -, hc, -⟩ := wired.follows r d hlinked
  have hstep := inStep.beliefs d c hc (wired.tag?_target hlinked)
  have hechoes := h.echoes
  have hfollows := h.follows hlinked
  rw [observedAt_eq hb, observedAt_eq hc] at hechoes
  rw [typeOf_eq hb, typeOf_eq hc] at hfollows
  rw [observedAt_eq hc, typeOf_eq hb, typeOf_eq hc]
  rcases hstep.join with ⟨hnone, hunknown⟩ | hjoin
  · -- nothing was observed on either
    refine Or.inl ?_
    rw [hunknown]
    refine (inStep.rises r b hb).exists_join.resolve_right ?_
    rintro ⟨ts, hts, ⟨u, hu, -⟩, -⟩
    rw [hechoes.eq_nil hnone] at hts
    exact absurd (hts hu) List.not_mem_nil
  · cases hknown : c.type.type.isUnknown with
    | false => exact Or.inl (hfollows hknown)
    | true =>
      obtain ⟨u, hu⟩ := Descriptor.exists_mem_of_common? hjoin
      have hdiscordant := Descriptor.discordant_of_common? hjoin hu (hstep.hears u hu) hknown
      exact Or.inr ⟨hdiscordant, hdiscordant.eq_unknown hjoin⟩

end Tracks

end Graph

end ProgramGraph
