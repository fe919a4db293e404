import ProgramGraph.Proofs.Beliefs.Followers
import ProgramGraph.Proofs.Resolution.Changes

set_option autoImplicit false

/-!
# Who listens to whom

While documents are built and usages are resolved, every reference listens to the declaration that
it means, by one listener, and nobody else listens to anything. So nobody listens to references,
and what is told to them has no consequences.

## Main definitions

* `ProgramGraph.Graph.Wired` — exactly the references listen to what they mean.
* `ProgramGraph.Graph.Rewired` — a reference listens to something else.

## Main results

* `ProgramGraph.Graph.Wired.silent` — nobody listens to references.
* `ProgramGraph.Graph.Wired.exists_rewired` — pointing a reference at a declaration, up to the
  deliveries.
* `ProgramGraph.Graph.Wired.changes` — what a resolution changes keeps the wiring.
* `ProgramGraph.Graph.Wired.typeOf_changes` — only fields and references change their types.
-/

namespace ProgramGraph.Graph

variable {g g' : Graph} {id reference : NodeId} {old target : Option NodeId} {isStatic : Bool}
  {l : Listener} {done : List NodeId}

/-- Every reference listens to what it means, and nobody else listens to anything. -/
structure Wired (g : Graph) : Prop where
  /-- Whatever carries a value has a belief. -/
  typed : ∀ id tag, g.tag? id = some tag → tag.isTyped = true → (g.belief? id).isSome = true
  /-- References mean value declarations. -/
  targets : ∀ r d, g.targetOf r = some d → ∃ tag, g.tag? d = some tag ∧
    tag.isValueDeclaration = true
  /-- Only references that mean a node listen to it. -/
  followed : ∀ d b, g.belief? d = some b → ∀ l ∈ b.listeners, ∃ r, l.reaction = .follow r ∧
    g.targetOf r = some d
  /-- A reference listens to what it means by one listener. -/
  follows : ∀ r d, g.targetOf r = some d → ∃ b l, g.belief? d = some b ∧
    b.listeners.filter (·.owner == some r) = [l]
  /-- Listeners have keys that were given. -/
  keys : ∀ d b, g.belief? d = some b → ∀ l ∈ b.listeners, l.key < g.nextKey

namespace Wired

/-- What a reference means is no reference. -/
theorem tag?_target (h : g.Wired) {r d : NodeId} (hd : g.targetOf r = some d) :
    g.tag? d ≠ some .reference := by
  obtain ⟨tag, htag, hvalue⟩ := h.targets r d hd
  rw [htag]
  rintro ⟨⟩
  exact absurd hvalue (by decide)

/-- **Nobody listens to references.** -/
theorem silent (h : g.Wired) : g.Silent fun id => g.tag? id = some .reference := by
  intro id b hid hb
  refine List.eq_nil_iff_forall_not_mem.mpr fun l hl => ?_
  obtain ⟨r, -, hr⟩ := h.followed id b hb l hl
  exact h.tag?_target hr hid

/-- Nobody listens to the references that mean a node. -/
theorem silent_followers (h : g.Wired) (d : NodeId) : g.Silent fun r => g.targetOf r = some d :=
  fun id b hid hb => h.silent id b (tag?_of_targetOf hid) hb

/-- The listeners of a node follow it for references that mean it. -/
theorem followers (h : g.Wired) (d : NodeId) : ∀ b, g.belief? d = some b → ∀ l ∈ b.listeners,
    ∀ target, l.reaction = .follow target → g.targetOf target = some d := by
  intro b hb l hl target htarget
  obtain ⟨r, hr, hmeans⟩ := h.followed d b hb l hl
  obtain rfl := Reaction.follow.inj (htarget.symm.trans hr)
  exact hmeans

/-- A reference that means a node is among its listeners. -/
theorem exists_listener (h : g.Wired) {r d : NodeId} (hr : g.targetOf r = some d) {b : Belief}
    (hb : g.belief? d = some b) : ∃ l ∈ b.listeners, l.reaction = .follow r := by
  obtain ⟨b', l, hb', hfilter⟩ := h.follows r d hr
  obtain rfl := Option.some.inj (hb.symm.trans hb')
  have hmem : l ∈ b.listeners.filter (·.owner == some r) := hfilter ▸ List.mem_singleton.mpr rfl
  obtain ⟨hl, howner⟩ := List.mem_filter.mp hmem
  obtain ⟨r', hr', -⟩ := h.followed d b hb l hl
  refine ⟨l, hl, ?_⟩
  rw [Listener.owner, hr'] at howner
  rw [hr', Option.some.inj (beq_iff_eq.mp howner)]

/-! ## Deliveries -/

/-- **Beliefs that rise** leave the wiring alone. -/
theorem still {T : NodeId → Prop} (h : g.Wired) (hstill : Still T g g') : g'.Wired := by
  have htargets : ∀ id, g'.targetOf id = g.targetOf id := fun id => by
    rw [targetOf, hstill.tree.payload?, targetOf]
  refine ⟨fun id tag htag htyped => ?_, fun r d hr => ?_, fun d b hb l hl => ?_, fun r d hr => ?_,
    fun d b hb l hl => ?_⟩
  · rw [hstill.tree.tag?] at htag
    obtain ⟨b, hb⟩ := Option.isSome_iff_exists.mp (h.typed id tag htag htyped)
    obtain ⟨b', hb', -⟩ := hstill.rises.exists_later hb
    rw [hb']
    rfl
  · rw [htargets] at hr
    rw [hstill.tree.tag?]
    exact h.targets r d hr
  · obtain ⟨b₀, hb₀, hlisteners, -⟩ := hstill.exists_belief hb
    obtain ⟨r, hr, hmeans⟩ := h.followed d b₀ hb₀ l (hlisteners ▸ hl)
    exact ⟨r, hr, (htargets r).trans hmeans⟩
  · rw [htargets] at hr
    obtain ⟨b, l, hb, hfilter⟩ := h.follows r d hr
    obtain ⟨b', hb', -⟩ := hstill.rises.exists_later hb
    have hlisteners := hstill.listeners d
    rw [hb, hb', Option.map_some, Option.map_some, Option.some.injEq] at hlisteners
    exact ⟨b', l, hb', hlisteners ▸ hfilter⟩
  · obtain ⟨b₀, hb₀, hlisteners, -⟩ := hstill.exists_belief hb
    rw [hstill.keys]
    exact h.keys d b₀ hb₀ l (hlisteners ▸ hl)

/-- **New nodes** to which nobody listens. -/
theorem quiet (h : g.Wired) (hquiet : g.Quiet g') : g'.Wired := by
  refine ⟨fun id tag htag htyped => ?_, fun r d hr => ?_, fun d b hb l hl => ?_, fun r d hr => ?_,
    fun d b hb l hl => ?_⟩
  · rcases hquiet.typed id tag htag htyped with hold | hnew
    · obtain ⟨b, hb⟩ := Option.isSome_iff_exists.mp (h.typed id tag hold htyped)
      rw [hquiet.beliefs id b hb]
      rfl
    · exact hnew
  · rw [hquiet.targets] at hr
    obtain ⟨tag, htag, hvalue⟩ := h.targets r d hr
    exact ⟨tag, hquiet.tags d tag htag, hvalue⟩
  · rcases hquiet.fresh d b hb with hold | ⟨-, hraw⟩
    · obtain ⟨r, hr, hmeans⟩ := h.followed d b hold l hl
      exact ⟨r, hr, (hquiet.targets r).trans hmeans⟩
    · rw [hraw.listeners] at hl
      exact absurd hl List.not_mem_nil
  · rw [hquiet.targets] at hr
    obtain ⟨b, l, hb, hfilter⟩ := h.follows r d hr
    exact ⟨b, l, hquiet.beliefs d b hb, hfilter⟩
  · rw [hquiet.keys]
    rcases hquiet.fresh d b hb with hold | ⟨-, hraw⟩
    · exact h.keys d b hold l hl
    · rw [hraw.listeners] at hl
      exact absurd hl List.not_mem_nil

/-- **Observing** on a node changes its belief and those of the references that mean it. -/
theorem still_observe (h : g.Wired) (x : NodeId) (o : Observation) :
    Still (fun id => id = x ∨ g.targetOf id = some x) g (g.observe x o) :=
  Graph.still_observe (h.followers x) (h.silent_followers x) o

/-- **Widening** the set of a node changes its belief and those of the references that mean it. -/
theorem still_widen (h : g.Wired) (x : NodeId) (os : List Observation) :
    Still (fun id => id = x ∨ g.targetOf id = some x) g (g.widen x os) :=
  Graph.still_widen (h.followers x) (h.silent_followers x) os

/-- What is believed about a node that is no reference after an observation on it. -/
theorem belief?_observe (h : g.Wired) {x : NodeId} (hx : g.tag? x ≠ some .reference)
    (o : Observation) : (g.observe x o).belief? x = (g.belief? x).map fun b => b.observe o :=
  Graph.belief?_observe (h.followers x) (h.silent_followers x)
    (fun heq => hx (tag?_of_targetOf heq)) o

/-- **Informing** a field of the types of an access. -/
theorem informed (h : g.Wired) (field access : NodeId) : (g.informed field access).Wired :=
  (h.still (h.still_observe field _)).still ((h.still (h.still_observe field _)).still_widen field _)

end Wired

/-! ## Pointing a reference at a declaration -/

/-- A reference stops listening and listens to something else, if to anything, by a new listener. -/
structure Rewired (reference : NodeId) (target : Option NodeId) (l : Listener) (g g' : Graph) :
    Prop where
  /-- Kinds stay. -/
  tags : ∀ id, g'.tag? id = g.tag? id
  /-- Only the reference means something else. -/
  targets : ∀ id, g'.targetOf id = if id = reference then target else g.targetOf id
  /-- Only listeners change. -/
  beliefs : ∀ id, g'.belief? id = (g.belief? id).map fun b => { b with
    listeners := b.listeners.filter (·.owner != some reference) ++
      if target = some id then [l] else [] }
  /-- The listener follows for the reference. -/
  reaction : l.reaction = .follow reference
  /-- It has a new key. -/
  key : l.key = g.nextKey
  /-- Keys are given once. -/
  keys : g.nextKey ≤ g'.nextKey ∧ (target.isSome = true → g.nextKey < g'.nextKey)

namespace Wired

/-- A reference that stops listening.

**Proof sketch.** Nobody else listens for the reference (`Wired.followed`), so removing its listeners from
what it meant removes them everywhere. -/
theorem belief?_freed (h : g.Wired)
    (hpayload : g.payload? reference = some (.reference old isStatic)) (id : NodeId) :
    (g.freed reference old).belief? id = (g.belief? id).map fun b => { b with
      listeners := b.listeners.filter (·.owner != some reference) } := by
  -- elsewhere nobody listens for the reference
  have helsewhere : ∀ {id b}, old ≠ some id → g.belief? id = some b →
      b.listeners.filter (·.owner != some reference) = b.listeners := by
    intro id b hne hb
    refine List.filter_eq_self.mpr fun l hl => ?_
    obtain ⟨r, hr, hmeans⟩ := h.followed id b hb l hl
    have hother : r ≠ reference := by
      rintro rfl
      exact hne ((targetOf_eq hpayload).symm.trans hmeans)
    simpa [Listener.owner, hr] using hother
  have hother : ∀ {id}, old ≠ some id → g.belief? id = (g.belief? id).map fun b => { b with
      listeners := b.listeners.filter (·.owner != some reference) } := by
    intro id hne
    cases hb : g.belief? id with
    | none => rfl
    | some b => rw [Option.map_some, helsewhere hne hb]
  cases old with
  | none => exact hother (by simp)
  | some previous =>
    rw [freed, unsubscribeOwned, keepListeners]
    cases hb : g.belief? previous with
    | none =>
      by_cases heq : previous = id
      · rw [← heq]
        simp [hb]
      · exact hother (by simpa using heq)
    | some b =>
      simp only [belief?_setBelief hb]
      by_cases heq : previous = id
      · rw [if_pos heq, ← heq, hb, Option.map_some]
      · rw [if_neg heq]
        exact hother (by simpa using heq)

/-- A reference that stops listening and means something else. -/
theorem written (h : g.Wired) (hpayload : g.payload? reference = some (.reference old isStatic))
    (target : Option NodeId) {g' : Graph} (hg' : (g.freed reference old).setTarget reference target = g') :
    (∀ id, g'.tag? id = g.tag? id) ∧
      (∀ id, g'.targetOf id = if id = reference then target else g.targetOf id) ∧
      (∀ id, g'.belief? id = (g.belief? id).map fun b => { b with
        listeners := b.listeners.filter (·.owner != some reference) }) ∧ g'.nextKey = g.nextKey := by
  subst hg'
  have hfreed := g.sameTree_freed reference old
  refine ⟨fun id => ?_, fun id => ?_, fun id => ?_, g.nextKey_freed reference old⟩
  · rw [tag?_setTarget, hfreed.tag?]
  · split
    · next heq =>
      rw [heq]
      exact targetOf_eq (payload?_setTarget_self ((hfreed.payload? reference).trans hpayload))
    · next hne => rw [targetOf, payload?_setTarget_of_ne hne, hfreed.payload?, targetOf]
  · rw [← h.belief?_freed hpayload]
    exact belief?_modify _ reference id fun _ => rfl

/-- **Following a node** of which nobody knows the next key: the reference joins its listeners and is
about to be told. -/
theorem following_eq {d : NodeId} {b : Belief} (hb : g.belief? d = some b)
    (hkeys : ∀ l ∈ b.listeners, l.key < g.nextKey) (hne : d ≠ reference) :
    g.following reference (some d) =
      (({ g with nextKey := g.nextKey + 1 } : Graph).setBelief d
        { b with listeners := b.listeners ++ [⟨g.nextKey, .follow reference⟩] }).settle
          [⟨d, ⟨g.nextKey, .follow reference⟩, .type b.type.type⟩,
            ⟨d, ⟨g.nextKey, .follow reference⟩, .observed b.observed⟩] := by
  have hminted : ({ g with nextKey := g.nextKey + 1 } : Graph).belief? d = some b := hb
  have hjoin : b.join ⟨g.nextKey, .follow reference⟩ =
      { b with listeners := b.listeners ++ [⟨g.nextKey, .follow reference⟩] } := by
    refine if_neg fun hany => ?_
    obtain ⟨other, hother, hkey⟩ := List.any_eq_true.mp hany
    have hlt := hkeys other hother
    rw [beq_iff_eq.mp hkey] at hlt
    exact Nat.lt_irrefl _ hlt
  have howner : ¬ Listener.owner ⟨g.nextKey, .follow reference⟩ = some d :=
    fun heq => hne (Option.some.inj heq).symm
  change ({ g with nextKey := g.nextKey + 1 } : Graph).subscribe d ⟨g.nextKey, .follow reference⟩ = _
  simp only [subscribe, hminted, hjoin, if_neg howner]

/-- **Pointing a reference at a declaration,** up to the deliveries: it is told the type and the set of
what it means.

**Proof sketch.** If it is to mean nothing, there is nothing to tell. If it is to mean a declaration, the
belief about this is joined by a new listener with a fresh key, since after the removal nobody there acts for
the reference; so both the type and, if there is one, the set are owed to it, and nothing else. -/
theorem exists_rewired (h : g.Wired)
    (hpayload : g.payload? reference = some (.reference old isStatic))
    (htarget : g.All Tag.isValueDeclaration target.toList) : ∃ g' l pending,
      g.pointed reference old target = g'.settle pending ∧ Rewired reference target l g g' ∧
        (∀ notice ∈ pending, notice.listener = l ∧ target = some notice.source) ∧
          ∀ d, target = some d → ∃ former, ⟨d, l, .type former⟩ ∈ pending := by
  generalize hwritten : (g.freed reference old).setTarget reference target = written
  obtain ⟨htags, htargets, hbeliefs, hkeys⟩ := h.written hpayload target hwritten
  have hpointed : g.pointed reference old target = written.following reference target := by
    rw [pointed, hwritten]
  cases target with
  | none =>
    refine ⟨written, ⟨g.nextKey, .follow reference⟩, [], hpointed,
      ⟨htags, htargets, fun id => ?_, rfl, rfl, ?_⟩, ?_, ?_⟩
    · simp only [hbeliefs, reduceCtorEq, if_false, List.append_nil]
    · exact ⟨Nat.le_of_eq hkeys.symm, fun hsome => absurd hsome (by simp)⟩
    · exact fun _ hnotice => absurd hnotice List.not_mem_nil
    · exact fun d hd => absurd hd (by simp)
  | some d =>
    obtain ⟨tag, htag, hvalue⟩ := htarget d (List.mem_singleton.mpr rfl)
    obtain ⟨b, hb⟩ := Option.isSome_iff_exists.mp
      (h.typed d tag htag (by rw [Tag.isTyped_eq, hvalue, Bool.true_or]))
    have hne : d ≠ reference := by
      rintro rfl
      obtain rfl := Option.some.inj ((tag?_of_payload? hpayload).symm.trans htag)
      exact absurd hvalue (by simp [Payload.tag, Tag.isValueDeclaration])
    let freed : Belief := { b with listeners := b.listeners.filter (·.owner != some reference) }
    let minted : Graph := { written with nextKey := written.nextKey + 1 }
    have hfreed : written.belief? d = some freed := (hbeliefs d).trans (by rw [hb, Option.map_some])
    have hminted : minted.belief? d = some freed := hfreed
    have hfollowing : written.following reference (some d) = _ := following_eq hfreed (fun l hl =>
      hkeys ▸ h.keys d b hb l (List.mem_filter.mp hl).1) hne
    refine ⟨minted.setBelief d _, ⟨written.nextKey, .follow reference⟩, _, hpointed.trans hfollowing,
      ⟨fun id => ?_, fun id => ?_, fun id => ?_, rfl, hkeys, ?_⟩, fun notice hnotice => ?_, ?_⟩
    · exact ((sameTree_setBelief hminted _).tag? id).trans (htags id)
    · rw [targetOf, (sameTree_setBelief hminted _).payload?]
      exact htargets id
    · rw [belief?_setBelief hminted]
      by_cases heq : d = id
      · subst heq
        rw [if_pos rfl, hb, Option.map_some, if_pos rfl]
      · rw [if_neg heq]
        change written.belief? id = _
        rw [hbeliefs]
        simp only [Option.some.injEq, heq, if_false, List.append_nil]
    · have hlt : g.nextKey < minted.nextKey := hkeys ▸ Nat.lt_succ_self written.nextKey
      exact ⟨Nat.le_of_lt hlt, fun _ => hlt⟩
    · simp only [List.mem_cons, List.not_mem_nil, or_false] at hnotice
      rcases hnotice with rfl | rfl <;> exact ⟨rfl, rfl⟩
    · rintro other ⟨⟩
      exact ⟨_, List.mem_cons_self ..⟩

end Wired

namespace Rewired

/-- What is believed about a node that was rewired. -/
theorem exists_belief (h : Rewired reference target l g g') {b : Belief}
    (hb : g'.belief? id = some b) : ∃ b₀, g.belief? id = some b₀ ∧ b = { b₀ with
      listeners := b₀.listeners.filter (·.owner != some reference) ++
        if target = some id then [l] else [] } := by
  rw [h.beliefs] at hb
  obtain ⟨b₀, hb₀, rfl⟩ := Option.map_eq_some_iff.mp hb
  exact ⟨b₀, hb₀, rfl⟩

/-- The new listener acts for the reference. -/
theorem owner (h : Rewired reference target l g g') : l.owner = some reference := by
  rw [Listener.owner, h.reaction]

/-- A listener of a node that was rewired listened before, for someone else, or it is the new one. -/
theorem listener_cases {old : List Listener} {other : Listener}
    (hother : other ∈ old.filter (·.owner != some reference) ++ if target = some id then [l] else []) :
    (other ∈ old ∧ other.owner ≠ some reference) ∨ target = some id ∧ other = l := by
  rcases List.mem_append.mp hother with hold | hnew
  · obtain ⟨hmem, hne⟩ := List.mem_filter.mp hold
    exact Or.inl ⟨hmem, by simpa using hne⟩
  · split at hnew
    · next heq => exact Or.inr ⟨heq, List.mem_singleton.mp hnew⟩
    · exact absurd hnew List.not_mem_nil

/-- The reference listens by the new listener only. -/
theorem filter_self (h : Rewired reference target l g g') (old : List Listener) (id : NodeId) :
    (old.filter (·.owner != some reference) ++ if target = some id then [l] else []).filter
      (·.owner == some reference) = if target = some id then [l] else [] := by
  rw [List.filter_append, List.filter_filter]
  split <;> simp [h.owner]

/-- Everything else listens as before. -/
theorem filter_of_ne (h : Rewired reference target l g g') {r : NodeId} (hne : r ≠ reference)
    (old : List Listener) (id : NodeId) :
    (old.filter (·.owner != some reference) ++ if target = some id then [l] else []).filter
      (·.owner == some r) = old.filter (·.owner == some r) := by
  have hnot : (if target = some id then [l] else []).filter (·.owner == some r) = [] := by
    split
    · simp [h.owner, Ne.symm hne]
    · rfl
  rw [List.filter_append, List.filter_filter, hnot, List.append_nil]
  refine List.filter_congr fun other _ => ?_
  by_cases hr : other.owner = some r
  · simp [hr, hne]
  · simp [hr]

end Rewired

namespace Wired

/-- **A reference that listens to something else** leaves the wiring in order.

**Proof sketch.** A listener in the new graph is an old one that acts for another reference, or the new one at
what the reference means. The conditions hold for the former as they did, and for the latter by what was
written. -/
theorem rewired (h : g.Wired) (hrewired : Rewired reference target l g g')
    (htarget : g.All Tag.isValueDeclaration target.toList) : g'.Wired where
  typed id tag htag htyped := by
    rw [hrewired.tags] at htag
    rw [hrewired.beliefs, Option.isSome_map]
    exact h.typed id tag htag htyped
  targets r d hr := by
    rw [hrewired.targets] at hr
    rw [hrewired.tags]
    split at hr
    · exact htarget d (by simp [hr])
    · exact h.targets r d hr
  followed d b hb other hother := by
    obtain ⟨b₀, hb₀, rfl⟩ := hrewired.exists_belief hb
    rcases Rewired.listener_cases hother with ⟨hmem, hne⟩ | ⟨heq, rfl⟩
    · obtain ⟨r, hr, hmeans⟩ := h.followed d b₀ hb₀ other hmem
      refine ⟨r, hr, ?_⟩
      rw [hrewired.targets, if_neg, hmeans]
      rintro rfl
      simp [Listener.owner, hr] at hne
    · exact ⟨reference, hrewired.reaction, by rw [hrewired.targets, if_pos rfl, heq]⟩
  follows r d hr := by
    rw [hrewired.targets] at hr
    by_cases heq : r = reference
    · subst heq
      rw [if_pos rfl] at hr
      obtain ⟨tag, htag, hvalue⟩ := htarget d (by simp [hr])
      obtain ⟨b, hb⟩ := Option.isSome_iff_exists.mp
        (h.typed d tag htag (by rw [Tag.isTyped_eq, hvalue, Bool.true_or]))
      refine ⟨_, l, by rw [hrewired.beliefs, hb, Option.map_some], ?_⟩
      rw [hrewired.filter_self, if_pos hr]
    · rw [if_neg heq] at hr
      obtain ⟨b, other, hb, hfilter⟩ := h.follows r d hr
      refine ⟨_, other, by rw [hrewired.beliefs, hb, Option.map_some], ?_⟩
      rw [hrewired.filter_of_ne heq, hfilter]
  keys d b hb other hother := by
    obtain ⟨b₀, hb₀, rfl⟩ := hrewired.exists_belief hb
    rcases Rewired.listener_cases hother with ⟨hmem, -⟩ | ⟨heq, rfl⟩
    · exact Nat.lt_of_lt_of_le (h.keys d b₀ hb₀ other hmem) hrewired.keys.1
    · rw [hrewired.key]
      exact hrewired.keys.2 (by rw [heq]; rfl)

/-- Pointing a reference at a declaration, up to the deliveries, and what these leave alone. -/
theorem exists_still (h : g.Wired)
    (hpayload : g.payload? reference = some (.reference old isStatic))
    (htarget : g.All Tag.isValueDeclaration target.toList) : ∃ g' l,
      Rewired reference target l g g' ∧ g'.Wired ∧
        Still (· = reference) g' (g.pointed reference old target) := by
  obtain ⟨g', l, pending, heq, hrewired, hpending, -⟩ := h.exists_rewired hpayload htarget
  have hwired := h.rewired hrewired htarget
  refine ⟨g', l, hrewired, hwired, ?_⟩
  rw [heq]
  have htag : g'.tag? reference = some .reference :=
    (hrewired.tags reference).trans (tag?_of_payload? hpayload)
  refine still_settle (fun id b hid hb => hwired.silent id b (hid ▸ htag) hb)
    fun notice hnotice target htold => ?_
  rw [(hpending notice hnotice).1] at htold
  exact Reaction.follow.inj (htold.symm.trans hrewired.reaction)

/-! ## Changes -/

/-- **One change** keeps the wiring. -/
theorem change (h : g.Wired) (hchange : Change done g g') : g'.Wired := by
  cases hchange with
  | quiet hquiet => exact h.quiet hquiet
  | inform _ _ => exact h.informed _ _
  | point _ hpayload htarget =>
    obtain ⟨now, l, -, hwired, hstill⟩ := h.exists_still hpayload htarget
    exact hwired.still hstill

/-- **What a resolution changes** keeps the wiring. -/
theorem changes (h : g.Wired) (hchanges : Changes done g g') : g'.Wired := by
  induction hchanges with
  | refl => exact h
  | tail _ hchange ih => exact ih.change hchange

/-- Informing a field concerns only fields and references. -/
theorem belief?_informed (h : g.Wired) {field access : NodeId} {tag : Tag} (hfield : g.tag? field = some .field)
    (htag : g.tag? id = some tag) (hkind : tag ≠ .field ∧ tag ≠ .reference) :
    (g.informed field access).belief? id = g.belief? id := by
  have hother : ∀ {g : Graph}, g.tag? field = some .field → g.tag? id = some tag →
      ¬ (id = field ∨ g.targetOf id = some field) := by
    rintro g hfield htag (rfl | hmeans)
    · exact hkind.1 (Option.some.inj (htag.symm.trans hfield))
    · exact hkind.2 (Option.some.inj (htag.symm.trans (tag?_of_targetOf hmeans)))
  have hobserved := h.still_observe field (g.typeOf access)
  have hwidened := (h.still hobserved).still_widen field
  rw [Graph.informed, (hwidened _).others id (hother ?_ ?_), hobserved.others id (hother hfield htag)]
  · exact (hobserved.tree.tag? field).trans hfield
  · exact (hobserved.tree.tag? id).trans htag

/-- **What is no field and no reference** keeps its type.

**Proof sketch.** By induction on the changes. New nodes leave beliefs alone, a field that is informed tells
only its followers, which are references, and a reference that is linked is not the node itself. -/
theorem typeOf_changes (h : g.Wired) (hchanges : Changes done g g') {tag : Tag}
    (htag : g.tag? id = some tag) (hkind : tag ≠ .field ∧ tag ≠ .reference) {b : Belief}
    (hb : g.belief? id = some b) : g'.typeOf id = g.typeOf id := by
  suffices hsame : g'.tag? id = some tag ∧ ∃ b', g'.belief? id = some b' ∧ b'.type = b.type by
    obtain ⟨-, b', hb', htype⟩ := hsame
    rw [Graph.typeOf, Graph.typeOf, hb, hb']
    exact htype
  induction hchanges with
  | refl => exact ⟨htag, b, hb, rfl⟩
  | tail hbefore hchange ih =>
    obtain ⟨htag', b', hb', htype⟩ := ih
    have hwired := h.changes hbefore
    refine ⟨hchange.tag? htag', ?_⟩
    cases hchange with
    | quiet hquiet => exact ⟨b', hquiet.beliefs id b' hb', htype⟩
    | inform hfield _ => exact ⟨b', (hwired.belief?_informed hfield htag' hkind).trans hb', htype⟩
    | @point reference _ _ _ _ hpayload htarget =>
      obtain ⟨now, l, hrewired, -, hstill⟩ := hwired.exists_still hpayload htarget
      have hne : id ≠ reference := by
        rintro rfl
        exact hkind.2 (Option.some.inj (htag'.symm.trans (tag?_of_payload? hpayload)))
      rw [hstill.others id hne, hrewired.beliefs, hb', Option.map_some]
      exact ⟨_, rfl, htype⟩

end Wired

end ProgramGraph.Graph
