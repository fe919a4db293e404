import ProgramGraph.Proofs.Beliefs.Followers

set_option autoImplicit false

/-!
# Followers hold what the followed node holds

A node that follows another one is handed the set of that node each time the set grows, and adds it
to its own unless all of it is primitive. While notices are on their way a follower may lag behind.
Here it is shown that it has caught up whenever nobody is left to be told, in every network of
followers, circles included.

## Main definitions

* `ProgramGraph.Graph.Feeds` — a node is followed by another one.
* `ProgramGraph.Graph.Passes` — all of a set that is not primitive throughout is in another one.
* `ProgramGraph.Graph.Owes` — a notice is on its way that hands a set over.
* `ProgramGraph.Graph.CaughtUp` — every follower has all of the set, or is owed it.
* `ProgramGraph.Graph.Act` — an operation, or the removal of listeners.
* `ProgramGraph.Graph.OnCircle` — two nodes are on a circle of followers.

## Main results

* `ProgramGraph.Graph.Moves.caughtUp` — one step of a history keeps followers caught up.
* `ProgramGraph.Graph.followers_catch_up` — between operations every follower has all of the set.

## Design

A delivery reads the set of the followed node at the time it is made, not at the time the notice was
written. So one notice on its way is as good as many: whatever the set has become, its delivery hands
all of it over.
-/

namespace ProgramGraph

namespace Belief

variable {b b' : Belief}

/-- A set that rose without getting larger has no new members. -/
theorem Rises.types_subset (h : b.Rises b') (hsize : b'.observed.size ≤ b.observed.size) :
    b'.observed.types ⊆ b.observed.types := by
  have hsubperm : b.observed.types.Subperm b'.observed.types :=
    List.subperm_of_subset b.observed.distinct h.observed
  rw [← TypeSet.length_types, ← TypeSet.length_types] at hsize
  exact (hsubperm.perm_of_length_le hsize).symm.subset

/-- **Widening takes all,** unless all is primitive. -/
theorem mem_types_widen {os : List Observation} (h : ∃ o ∈ os, o.type.isPrimitive = false)
    {o : Observation} (ho : o ∈ os) : o.type ∈ (b.widen os).observed.types := by
  obtain ⟨o', ho', hprimitive⟩ := h
  have hall : (os.all fun o => o.type.isPrimitive) = false :=
    List.all_eq_false.mpr ⟨o', ho', by simp [hprimitive]⟩
  unfold widen
  rw [hall]
  exact TypeSet.mem_types_insertAll.mpr (Or.inr ⟨o, ho, rfl⟩)

end Belief

namespace Graph

variable {g g' : Graph} {src target x : NodeId} {b : Belief} {f : Belief → Belief}
  {notice : Notice} {pending more : List Notice}

/-- A node is followed by another one: one of its listeners makes that node follow it. -/
def Feeds (g : Graph) (src target : NodeId) : Prop :=
  ∃ l ∈ g.listenersAt src, l.reaction = .follow target

/-- Whether one node feeds another can be decided, since listeners are listed. -/
instance (g : Graph) (src target : NodeId) : Decidable (g.Feeds src target) :=
  inferInstanceAs (Decidable (∃ l ∈ g.listenersAt src, l.reaction = .follow target))

/-- Some type observed of a node is not primitive. -/
def HoldsMore (g : Graph) (id : NodeId) : Prop :=
  ∃ t ∈ (g.observedAt id).types, t.isPrimitive = false

/-- If not all types observed of a node are primitive, then all of them are in the set of the other
node. -/
def Passes (g : Graph) (src target : NodeId) : Prop :=
  g.HoldsMore src → (g.observedAt src).types ⊆ (g.observedAt target).types

/-- A notice is on its way that hands the set of a node to another one. -/
def Owes (pending : List Notice) (src target : NodeId) : Prop :=
  ∃ notice ∈ pending, notice.source = src ∧ notice.listener.reaction = .follow target ∧
    ∃ old, notice.former = .observed old

/-- Every follower that has a belief has all of the set of the node it follows, or is owed it. -/
def CaughtUp (s : Graph × List Notice) : Prop :=
  ∀ src target, s.1.Feeds src target → target ≠ src → (s.1.belief? target).isSome →
    s.1.Passes src target ∨ Owes s.2 src target

/-! ## Sets and listeners -/

/-- The listeners of a node with a belief. -/
theorem listenersAt_eq (hb : g.belief? x = some b) : g.listenersAt x = b.listeners := by
  rw [listenersAt, hb]

/-- Listeners after the belief of a node is replaced. -/
theorem listenersAt_setBelief (hb : g.belief? x = some b) (next : Belief) (id : NodeId) :
    (g.setBelief x next).listenersAt id = if x = id then next.listeners else g.listenersAt id := by
  unfold listenersAt
  rw [belief?_setBelief hb]
  by_cases hx : x = id
  · rw [if_pos hx, if_pos hx]
  · rw [if_neg hx, if_neg hx]

/-- Sets after the belief of a node is replaced. -/
theorem observedAt_setBelief (hb : g.belief? x = some b) (next : Belief) (id : NodeId) :
    (g.setBelief x next).observedAt id = if x = id then next.observed else g.observedAt id := by
  unfold observedAt
  rw [belief?_setBelief hb]
  by_cases hx : x = id
  · rw [if_pos hx, if_pos hx]
  · rw [if_neg hx, if_neg hx]

/-- Who is followed has a belief. -/
theorem Feeds.exists_belief (h : g.Feeds src target) :
    ∃ b, g.belief? src = some b ∧ ∃ l ∈ b.listeners, l.reaction = .follow target := by
  obtain ⟨l, hl, hreaction⟩ := h
  cases hb : g.belief? src with
  | none =>
    rw [listenersAt, hb] at hl
    exact absurd hl List.not_mem_nil
  | some b =>
    rw [listenersAt_eq hb] at hl
    exact ⟨b, rfl, l, hl, hreaction⟩

/-- Where beliefs rise, the same nodes have them. -/
theorem Rises.isSome (h : g.Rises g') {id : NodeId} (hsome : (g'.belief? id).isSome) :
    (g.belief? id).isSome := by
  obtain ⟨b', hb'⟩ := Option.isSome_iff_exists.mp hsome
  obtain ⟨b, hb, -⟩ := h.exists_earlier hb'
  exact Option.isSome_iff_exists.mpr ⟨b, hb⟩

/-- What was handed over stays so while the node that is followed observes nothing new. -/
theorem Passes.mono (h : g.Passes src target) (hsrc : (g'.observedAt src).types ⊆ (g.observedAt src).types)
    (hrises : g.Rises g') : g'.Passes src target := by
  rintro ⟨t, ht, hprimitive⟩
  exact List.Subset.trans hsrc
    (List.Subset.trans (h ⟨t, hsrc ht, hprimitive⟩) (hrises.observedAt target))

/-- More notices owe more. -/
theorem Owes.mono (h : Owes pending src target) (hsubset : pending ⊆ more) : Owes more src target := by
  obtain ⟨notice, hnotice, hspec⟩ := h
  exact ⟨notice, hsubset hnotice, hspec⟩

/-! ## One refinement -/

/-- A refinement of one node leaves the sets of the others alone. -/
theorem observedAt_refine_of_ne (hne : x ≠ src) : (g.refine x f).1.observedAt src = g.observedAt src := by
  rw [observedAt, belief?_refine, if_neg hne, observedAt]

section Refinement

variable (hlisteners : ∀ b, (f b).listeners = b.listeners)
include hlisteners

/-- A refinement lets everybody follow whom they follow. -/
theorem feeds_refine : (g.refine x f).1.Feeds src target ↔ g.Feeds src target := by
  cases hb : g.belief? x with
  | none =>
    rw [refine, hb]
  | some b =>
    rw [refine_eq hb, Feeds, Feeds, listenersAt_setBelief hb, hlisteners]
    split
    · next heq => rw [← heq, listenersAt_eq hb]
    · rfl

variable (hrises : ∀ b : Belief, b.Rises (f b))
include hrises

/-- **A follower keeps up** with a refinement: what it had stays enough, or it is owed the set.

**Proof sketch.** If the set of the source grew, this is announced to all of its followers, and so to this
one. Otherwise it has no type that it had not before. -/
theorem Passes.refine (h : g.Passes src target) (hfeeds : g.Feeds src target) (hne : target ≠ src) :
    (g.refine x f).1.Passes src target ∨ Owes (g.refine x f).2 src target := by
  have hrise := g.rises_refine x hrises
  by_cases hx : x = src
  · subst hx
    obtain ⟨b, hb, l, hl, hreaction⟩ := hfeeds.exists_belief
    by_cases hgrows : b.observed.size < (f b).observed.size
    · -- the set grew, which is announced to all listeners but those that act for the node itself
      right
      have hmem : l ∈ (f b).audience x := by
        refine List.mem_filter.mpr ⟨hlisteners b ▸ hl, ?_⟩
        simpa [Listener.owner, hreaction] using hne
      refine ⟨⟨x, l, .observed b.observed⟩, ?_, rfl, hreaction, b.observed, rfl⟩
      rw [refine_eq hb, Belief.announceRefined, if_pos hgrows]
      exact List.mem_append_left _ (List.mem_map_of_mem hmem)
    · left
      refine h.mono ?_ hrise
      rw [refine_eq hb, observedAt_setBelief hb, if_pos rfl, observedAt_eq hb]
      exact (hrises b).types_subset (Nat.le_of_not_lt hgrows)
  · left
    refine h.mono ?_ hrise
    rw [observedAt_refine_of_ne hx]
    exact List.Subset.refl _

end Refinement

/-! ## Steps of a history -/

/-- The delivery of what is owed hands the set over. -/
theorem passes_refine_widen (hne : target ≠ src) (hsome : (g.belief? target).isSome) :
    (g.refine target fun b => b.widen (g.observedAt src).observations).1.Passes src target := by
  obtain ⟨c, hc⟩ := Option.isSome_iff_exists.mp hsome
  rintro ⟨t, ht, hprimitive⟩
  rw [observedAt_refine_of_ne hne] at ht ⊢
  rw [refine_eq hc, observedAt_setBelief hc, if_pos rfl]
  obtain ⟨o, ho, rfl⟩ := List.mem_map.mp ht
  intro u hu
  obtain ⟨o', ho', rfl⟩ := List.mem_map.mp hu
  exact Belief.mem_types_widen ⟨o, ho, hprimitive⟩ ho'

/-- **A delivery** keeps followers caught up: it hands over what was owed, and what it adds to a set is
owed in turn.

**Proof sketch.** If the notice goes to a recorder, nothing changes. If it goes to a follower and carries a
set, the follower has all of the present set afterwards. What else the follower learns is announced to its own
followers in turn. -/
theorem CaughtUp.deliver {rest : List Notice} (h : CaughtUp (g, notice :: rest)) :
    CaughtUp ((g.deliver notice).1, (g.deliver notice).2 ++ rest) := by
  cases hreaction : notice.listener.reaction with
  | record owner =>
    -- an entry in the journal hands over nothing
    obtain ⟨source, ⟨key, reaction⟩, former⟩ := notice
    obtain rfl : reaction = .record owner := hreaction
    intro src target hfeeds hne hsome
    refine (h src target hfeeds hne hsome).imp id ?_
    rintro ⟨n, hn, hsource, hfollow, hformer⟩
    rcases List.mem_cons.mp hn with rfl | hn
    · cases hfollow
    · exact ⟨n, hn, hsource, hfollow, hformer⟩
  | follow x =>
    rw [deliver_eq g hreaction]
    intro src target hfeeds hne hsome
    have hfeeds' := (feeds_refine (g.listeners_effect notice)).mp hfeeds
    have hsome' := (g.rises_refine x (g.rises_effect notice)).isSome hsome
    have hkeeps : g.Passes src target → (g.refine x (g.effect notice)).1.Passes src target ∨
        Owes ((g.refine x (g.effect notice)).2 ++ rest) src target := fun hpasses =>
      (hpasses.refine (g.listeners_effect notice) (g.rises_effect notice) hfeeds' hne).imp id
        fun howes => howes.mono (List.subset_append_left _ _)
    rcases h src target hfeeds' hne hsome' with hpasses | ⟨n, hn, hsource, hfollow, old, hformer⟩
    · exact hkeeps hpasses
    · rcases List.mem_cons.mp hn with rfl | hn
      · -- this is the notice that is delivered
        obtain rfl : x = target := by simpa [hreaction] using hfollow
        left
        have heffect : g.effect n = fun b => b.widen (g.observedAt src).observations := by
          funext b
          rw [effect, hformer, hsource]
        rw [heffect]
        exact passes_refine_widen hne hsome'
      · exact Or.inr ⟨n, List.mem_append_right _ hn, hsource, hfollow, old, hformer⟩

/-- Where nobody is left to be told, every follower has all of the set. -/
theorem CaughtUp.passes (h : CaughtUp (g, [])) (hfeeds : g.Feeds src target) (hne : target ≠ src)
    (hsome : (g.belief? target).isSome) : g.Passes src target :=
  (h src target hfeeds hne hsome).elim id fun ⟨_, hn, _⟩ => absurd hn List.not_mem_nil

/-- **Other listeners.** Followers stay caught up if each new one is owed the set.

**Proof sketch.** No observations change. A follower that listened before has caught up, and a new one has not
to, as long as there is a notice for it that is still to be delivered. -/
theorem CaughtUp.setListeners (h : CaughtUp (g, [])) (hb : g.belief? x = some b) {ls : List Listener}
    (hnew : ∀ l ∈ ls, ∀ target, l.reaction = .follow target → target ≠ x →
      l ∈ b.listeners ∨ Owes pending x target) :
    CaughtUp (g.setBelief x { b with listeners := ls }, pending) := by
  have hrises : g.Rises (g.setBelief x { b with listeners := ls }) :=
    rises_setBelief hb ⟨List.Subset.refl _, Or.inl rfl⟩
  have hsame : ∀ id, (g.setBelief x { b with listeners := ls }).observedAt id = g.observedAt id := by
    intro id
    rw [observedAt_setBelief hb]
    split
    · next heq => rw [← heq, observedAt_eq hb]
    · rfl
  intro src target hfeeds hne hsome
  have hkept : g.Feeds src target ∨ Owes pending src target := by
    obtain ⟨l, hl, hreaction⟩ := hfeeds
    rw [listenersAt_setBelief hb] at hl
    split at hl
    · next heq =>
      subst heq
      refine (hnew l hl target hreaction hne).imp (fun hmem => ⟨l, ?_, hreaction⟩) id
      rwa [listenersAt_eq hb]
    · exact Or.inl ⟨l, hl, hreaction⟩
  refine hkept.imp (fun hold => ?_) id
  refine (h.passes hold hne (hrises.isSome hsome)).mono ?_ hrises
  rw [hsame]
  exact List.Subset.refl _

/-- **The opening of an operation** that pins no type keeps followers caught up.

**Proof sketch.** Observing and widening let the belief rise and owe the change to all followers. A new
listener is owed the present set. A repetition changes nothing, and pinning is excluded. -/
theorem CaughtUp.opening (h : CaughtUp (g, [])) {c : Call} (hc : c.Refining) :
    CaughtUp (c.opening g) := by
  have hrefine : ∀ {x : NodeId} {f : Belief → Belief}, (∀ b, (f b).listeners = b.listeners) →
      (∀ b : Belief, b.Rises (f b)) → CaughtUp (g.refine x f) := by
    intro x f hlisteners hrises src target hfeeds hne hsome
    have hfeeds' := (feeds_refine hlisteners).mp hfeeds
    exact (h.passes hfeeds' hne ((g.rises_refine x hrises).isSome hsome)).refine hlisteners hrises
      hfeeds' hne
  cases c with
  | observe id o => exact hrefine (fun b => b.listeners_observe o) fun b => b.rises_observe o
  | widen id os => exact hrefine (fun b => b.listeners_widen os) fun b => b.rises_widen os
  | pin id o => exact hc.elim
  | subscribe id l =>
    simp only [Call.opening]
    cases hb : g.belief? id with
    | none => exact h
    | some b =>
      have hjoin : b.join l = { b with listeners := (b.join l).listeners } := by
        unfold Belief.join
        split <;> rfl
      simp only
      rw [hjoin]
      refine h.setListeners hb fun l' hl' target hreaction hne => ?_
      by_cases hold : l' ∈ b.listeners
      · exact Or.inl hold
      · -- the new listener is told the present state, unless it acts for the node itself
        right
        obtain rfl : l' = l := by
          unfold Belief.join at hl'
          split at hl'
          · exact absurd hl' hold
          · exact List.mem_singleton.mp ((List.mem_append.mp hl').resolve_left hold)
        have howner : ¬ l'.owner = some id := by simpa [Listener.owner, hreaction] using hne
        rw [if_neg howner]
        exact ⟨⟨id, l', .observed b.observed⟩, by simp, rfl, hreaction, b.observed, rfl⟩
  | rebroadcast id =>
    simp only [Call.opening]
    cases g.belief? id <;>
      exact fun src target hfeeds hne hsome => Or.inl (h.passes hfeeds hne hsome)

/-- Fewer listeners stay caught up. -/
theorem CaughtUp.keepListeners (h : CaughtUp (g, [])) (id : NodeId) (p : Listener → Bool) :
    CaughtUp (g.keepListeners id p, []) := by
  unfold Graph.keepListeners
  cases hb : g.belief? id with
  | none => exact h
  | some b => exact h.setListeners hb fun l hl _ _ _ => Or.inl (List.mem_of_mem_filter hl)

variable {s s' : Graph × List Notice}

/-- **One step** of a history that pins no type keeps followers caught up. -/
theorem Moves.caughtUp (h : Moves Call.Refining s s') : CaughtUp s → CaughtUp s' :=
  h.relates (R := fun s s' => CaughtUp s → CaughtUp s') (fun _ _ hc hs => hs.opening hc)
    (fun _ id p hs => hs.keepListeners id p) fun _ _ _ hs => hs.deliver

/-- **A history** that pins no type keeps followers caught up. -/
theorem Reaches.caughtUp (h : Reaches Call.Refining s s') (hs : CaughtUp s) : CaughtUp s' := by
  induction h with
  | refl => exact hs
  | tail _ hstep ih => exact hstep.caughtUp ih

/-! ## Whole operations -/

/-- An operation, or the removal of listeners. -/
inductive Act where
  | call (c : Call)
  | unsubscribe (id : NodeId) (l : Listener)
  | unsubscribeOwned (id owner : NodeId)

namespace Act

/-- What is left behind. -/
def run (g : Graph) : Act → Graph
  | call c => c.run g
  | unsubscribe id l => g.unsubscribe id l
  | unsubscribeOwned id owner => g.unsubscribeOwned id owner

/-- No type is pinned. -/
def Refining : Act → Prop
  | call c => c.Refining
  | _ => True

/-- What is done in one act is a history of operations that refine beliefs. -/
theorem reaches_run (g : Graph) {a : Act} (ha : a.Refining) :
    Reaches Call.Refining (g, []) (a.run g, []) := by
  cases a with
  | call c => exact Graph.reaches_run g ha
  | unsubscribe id l => exact .single (.unsubscribe g id l)
  | unsubscribeOwned id owner => exact .single (.unsubscribeOwned g id owner)

/-- Several of them, one after the other, are a history. -/
theorem reaches_foldl {acts : List Act} (g : Graph) (hacts : ∀ a ∈ acts, a.Refining) :
    Reaches Call.Refining (g, []) (acts.foldl run g, []) := by
  induction acts generalizing g with
  | nil => exact .refl
  | cons a rest ih =>
    exact (reaches_run g (hacts a List.mem_cons_self)).trans
      (ih (a.run g) fun a ha => hacts a (List.mem_cons_of_mem _ ha))

end Act

/-- **Along a path** of followers that have caught up, all of the first set is in the last one. -/
theorem CaughtUp.subset_of_path (h : CaughtUp (g, [])) (hpath : Relation.ReflTransGen g.Feeds src target)
    (hsome : (g.belief? target).isSome) (hmore : g.HoldsMore src) :
    (g.observedAt src).types ⊆ (g.observedAt target).types := by
  induction hpath with
  | refl => exact List.Subset.refl _
  | @tail middle last _ hfeeds ih =>
    obtain ⟨b, hb, -⟩ := hfeeds.exists_belief
    have hmiddle := ih (by rw [hb]; rfl)
    by_cases hne : last = middle
    · exact hne ▸ hmiddle
    · obtain ⟨t, ht, hprimitive⟩ := hmore
      exact List.Subset.trans hmiddle (h.passes hfeeds hne hsome ⟨t, hmiddle ht, hprimitive⟩)

/-- Two nodes lie on a circle of followers. -/
def OnCircle (g : Graph) (id other : NodeId) : Prop :=
  Relation.TransGen g.Feeds id other ∧ Relation.TransGen g.Feeds other id

/-- Nodes on a circle of followers that have caught up hold what one of them holds. -/
theorem CaughtUp.mem_types_iff (h : CaughtUp (g, [])) (hcircle : g.OnCircle src target)
    (hmore : g.HoldsMore src) (t : Descriptor) :
    t ∈ (g.observedAt src).types ↔ t ∈ (g.observedAt target).types := by
  have hsome : ∀ {id other}, Relation.TransGen g.Feeds id other → (g.belief? id).isSome := by
    intro id other hpath
    obtain ⟨_, hfeeds, -⟩ := Relation.TransGen.head'_iff.mp hpath
    obtain ⟨b, hb, -⟩ := hfeeds.exists_belief
    rw [hb]
    rfl
  have hforth := h.subset_of_path hcircle.1.to_reflTransGen (hsome hcircle.2) hmore
  obtain ⟨u, hu, hprimitive⟩ := hmore
  exact ⟨fun ht => hforth ht, fun ht => h.subset_of_path hcircle.2.to_reflTransGen (hsome hcircle.1)
    ⟨u, hforth hu, hprimitive⟩ ht⟩

/-- **No observed type is lost on the way.** After any operations that pin no type and any removals of
listeners, one after the other, from a graph in which nobody listened: if not all types observed of a
node are primitive, then every other node with a belief that follows it has all of them in its set. So
nodes on a circle of followers have the same sets, unless these are primitive throughout.

**Proof sketch.** The invariant is that every follower has all of the set of the node that it follows, or is
owed a notice with it (`CaughtUp`). It holds at the start, where nobody listens, and is kept by every act and
by every delivery. Where nothing is left to deliver nothing is owed. Around a circle the inclusions go both
ways. -/
theorem followers_catch_up {g₀ : Graph} (unheard : ∀ id, g₀.listenersAt id = []) {acts : List Act}
    (refining : ∀ a ∈ acts, a.Refining) {g : Graph} (hg : acts.foldl Act.run g₀ = g) :
    (∀ src target, g.Feeds src target → target ≠ src → (g.belief? target).isSome →
      (∃ t ∈ (g.observedAt src).types, t.isPrimitive = false) →
        (g.observedAt src).types ⊆ (g.observedAt target).types) ∧
      ∀ id id' other, g.OnCircle other id → g.OnCircle other id' →
        (∃ t ∈ (g.observedAt other).types, t.isPrimitive = false) →
          ∀ t, t ∈ (g.observedAt id).types ↔ t ∈ (g.observedAt id').types := by
  have hstart : CaughtUp (g₀, []) := by
    rintro src target ⟨l, hl, -⟩
    rw [unheard src] at hl
    exact absurd hl List.not_mem_nil
  have hcaught := (Act.reaches_foldl g₀ refining).caughtUp hstart
  rw [hg] at hcaught
  refine ⟨fun src target hfeeds hne hsome => hcaught.passes hfeeds hne hsome, ?_⟩
  intro id id' other hid hid' hmore t
  exact (hcaught.mem_types_iff hid hmore t).symm.trans (hcaught.mem_types_iff hid' hmore t)

/-- Three variables of which nothing is known. -/
def threeVariables : Graph :=
  (((empty.add (.make "a" (.var none))).2.add (.make "b" (.var none))).2.add (.make "c" (.var none))).2

/-- The variables come to follow each other in a circle, with a listener more that is removed again.
The first is seen with a primitive type and the second with another type. -/
def followingInACircle : List Act :=
  [.call (.subscribe 0 ⟨0, .follow 1⟩), .call (.subscribe 1 ⟨1, .follow 2⟩),
    .call (.subscribe 1 ⟨2, .follow 0⟩), .call (.observe 0 { type := { name := "int" } }),
    .call (.subscribe 2 ⟨3, .follow 0⟩), .unsubscribe 1 ⟨2, .follow 0⟩,
    .call (.observe 1 { type := { name := "Foo", adjustment := "*" } })]

/-- **Around a circle.** What the second variable is seen with comes around to the first one, which
keeps the primitive type that it was seen with before; so all sets are the same. -/
theorem followers_catch_up_circle : (∀ id, threeVariables.listenersAt id = []) ∧
    (∀ a ∈ followingInACircle, a.Refining) ∧
      ∃ g, followingInACircle.foldl Act.run threeVariables = g ∧
        g.Feeds 1 2 ∧ (g.observedAt 1).types = [{ name := "int" }, { name := "Foo", adjustment := "*" }] ∧
          (g.observedAt 1).types ⊆ (g.observedAt 2).types ∧
            ∀ t, t ∈ (g.observedAt 0).types ↔ t ∈ (g.observedAt 2).types := by
  have hunheard : ∀ id, threeVariables.listenersAt id = [] := by
    intro id
    match id with
    | 0 | 1 | 2 => rfl
    | _ + 3 => rfl
  have hrefining : ∀ a ∈ followingInACircle, a.Refining := by
    simp [followingInACircle, Act.Refining, Call.Refining]
  have hend : (followingInACircle.foldl Act.run threeVariables).Feeds 0 1 ∧
      (followingInACircle.foldl Act.run threeVariables).Feeds 1 2 ∧
        (followingInACircle.foldl Act.run threeVariables).Feeds 2 0 ∧
          ((followingInACircle.foldl Act.run threeVariables).belief? 2).isSome ∧
            ((followingInACircle.foldl Act.run threeVariables).observedAt 1).types =
              [{ name := "int" }, { name := "Foo", adjustment := "*" }] := by
    decide +kernel
  obtain ⟨hpasses, hcircle⟩ := followers_catch_up hunheard hrefining rfl
  refine ⟨hunheard, hrefining, _, rfl, ?_⟩
  generalize followingInACircle.foldl Act.run threeVariables = g at hend hpasses hcircle ⊢
  obtain ⟨hfirst, hsecond, hthird, hsome, htypes⟩ := hend
  have hmore : ∃ t ∈ (g.observedAt 1).types, t.isPrimitive = false := by
    rw [htypes]
    decide
  refine ⟨hsecond, htypes, hpasses 1 2 hsecond (by decide) hsome hmore, hcircle 0 2 1 ⟨?_, ?_⟩ ⟨?_, ?_⟩ hmore⟩
  · exact .head hsecond (.single hthird)
  · exact .single hfirst
  · exact .single hsecond
  · exact .head hthird (.single hfirst)

end Graph

end ProgramGraph
