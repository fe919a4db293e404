import Mathlib.Logic.Relation
import ProgramGraph.Proofs.Beliefs.Delivery

set_option autoImplicit false

/-!
# Types only go up

As long as no type is pinned, beliefs are only refined: a set of observed types loses nothing, and a
type that is known gives way to its unqualified form or to the unknown type only. This holds at every
moment of a history of operations, also between two deliveries, when the type of a node may not be
the join of its set.

## Main definitions

* `ProgramGraph.Descriptor.IsBelow` — the order that joins go up in.
* `ProgramGraph.Belief.Rises` — the type stays, or becomes the join of a set in between.
* `ProgramGraph.Belief.OnlyRises` — three beliefs, of which the types only go up.
* `ProgramGraph.Graph.Moves` — one step of a history, from moment to moment.
* `ProgramGraph.Graph.Reaches` — a history of operations of some kind.

## Main results

* `ProgramGraph.Descriptor.common?_mono` — the join of a larger set is above that of a smaller one.
* `ProgramGraph.Belief.rises_observe`, `ProgramGraph.Belief.rises_widen` — single beliefs.
* `ProgramGraph.Graph.reaches_run` — whole operations are parts of histories.
* `ProgramGraph.Graph.types_only_rise` — histories that begin with fresh nodes.

## Design

A type can be out of step with its set: widening a set leaves the type as it is, and a primitive
observation may be dropped. So the invariant does not speak of the present set. It says that the type
is the join of some set that lay between the set of the earlier moment and the present one.
-/

namespace ProgramGraph

/-! ## The order of joins -/

namespace Descriptor

variable {ts us : List Descriptor} {t u : Descriptor}

/-- A type is below itself, below its unqualified form, and below the unknown type. -/
def IsBelow (t u : Descriptor) : Prop := u = t ∨ u = t.unqualified ∨ u = unknown

/-- Two members differ in more than their qualifying words. -/
def Discordant (ts : List Descriptor) : Prop :=
  ∃ u ∈ ts, ∃ v ∈ ts, u.unqualified ≠ v.unqualified

/-- A larger set is discordant as well. -/
theorem Discordant.mono (h : Discordant ts) (hsubset : ts ⊆ us) : Discordant us := by
  obtain ⟨u, hu, v, hv, hne⟩ := h
  exact ⟨u, hsubset hu, v, hsubset hv, hne⟩

/-- Types of the same shape have the same unqualified form. -/
theorem sameShape_iff : t.sameShape u = true ↔ t.unqualified = u.unqualified := by
  simp [sameShape, unqualified]

/-- **What a join is.** All members are the join; or else they differ, and the join is the unqualified
form of all of them; or else they are discordant, and it is the unknown type. -/
theorem common?_spec (h : common? ts = some t) :
    (∀ u ∈ ts, u = t) ∨
      ((∀ u ∈ ts, u.unqualified = t) ∧ ∃ u ∈ ts, ∃ v ∈ ts, u ≠ v) ∨
        (t = unknown ∧ Discordant ts) := by
  cases ts with
  | nil => cases h
  | cons first rest =>
    simp only [common?] at h
    split_ifs at h with hsame hshape
    · obtain rfl := Option.some.inj h
      rw [List.all_eq_true] at hsame
      exact Or.inl (List.forall_mem_cons.mpr ⟨rfl, fun u hu => eq_of_beq (hsame u hu)⟩)
    · obtain rfl := Option.some.inj h
      rw [List.all_eq_true] at hshape
      simp only [List.all_eq_true, not_forall] at hsame
      obtain ⟨v, hv, hne⟩ := hsame
      refine Or.inr (Or.inl ⟨List.forall_mem_cons.mpr ⟨rfl, fun u hu => ?_⟩, ?_⟩)
      · exact (sameShape_iff.mp (hshape u hu)).symm
      · exact ⟨v, List.mem_cons_of_mem _ hv, first, List.mem_cons_self, fun heq => hne (by simp [heq])⟩
    · simp only [List.all_eq_true, not_forall] at hshape
      obtain ⟨v, hv, hne⟩ := hshape
      refine Or.inr (Or.inr ⟨(Option.some.inj h).symm, first, List.mem_cons_self, v,
        List.mem_cons_of_mem _ hv, fun heq => hne (sameShape_iff.mpr heq)⟩)

/-- What has a join has a member. -/
theorem exists_mem_of_common? (h : common? ts = some t) : ∃ u, u ∈ ts := by
  cases ts with
  | nil => cases h
  | cons first rest => exact ⟨first, List.mem_cons_self⟩

/-- **Joins go up.** The join of more types is above the join of some of them. -/
theorem common?_mono (hsubset : ts ⊆ us) (h : common? ts = some t) (h' : common? us = some u) :
    t.IsBelow u := by
  obtain ⟨w, hw⟩ := exists_mem_of_common? h
  rcases common?_spec h' with hall | ⟨hall, -⟩ | ⟨rfl, -⟩
  · rcases common?_spec h with hsame | ⟨-, x, hx, y, hy, hne⟩ | ⟨-, x, hx, y, hy, hne⟩
    · exact Or.inl ((hall w (hsubset hw)).symm.trans (hsame w hw))
    · exact absurd ((hall x (hsubset hx)).trans (hall y (hsubset hy)).symm) hne
    · rw [hall x (hsubset hx), hall y (hsubset hy)] at hne
      exact absurd rfl hne
  · rcases common?_spec h with hsame | ⟨hshape, -⟩ | ⟨-, x, hx, y, hy, hne⟩
    · exact Or.inr (Or.inl ((hall w (hsubset hw)).symm.trans (congrArg unqualified (hsame w hw))))
    · exact Or.inl ((hall w (hsubset hw)).symm.trans (hshape w hw))
    · exact absurd ((hall x (hsubset hx)).trans (hall y (hsubset hy)).symm) hne
  · exact Or.inr (Or.inr rfl)

/-- A join with a known member is known unless the members are discordant. -/
theorem discordant_of_common? (h : common? ts = some t) (hu : u ∈ ts) (hknown : u.isUnknown = false)
    (ht : t.isUnknown = true) : Discordant ts := by
  rcases common?_spec h with hall | ⟨hall, -⟩ | ⟨-, hdiscordant⟩
  · rw [← hall u hu, hknown] at ht
    exact Bool.noConfusion ht
  · rw [← hall u hu] at ht
    exact Bool.noConfusion (hknown.symm.trans ht)
  · exact hdiscordant

/-- Discordant types join to the unknown type. -/
theorem Discordant.eq_unknown (hd : Discordant ts) (h : common? ts = some t) : t = unknown := by
  obtain ⟨x, hx, y, hy, hne⟩ := hd
  rcases common?_spec h with hall | ⟨hall, -⟩ | ⟨rfl, -⟩
  · rw [hall x hx, hall y hy] at hne
    exact absurd rfl hne
  · exact absurd ((hall x hx).trans (hall y hy).symm) hne
  · rfl

end Descriptor

/-! ## Single beliefs -/

namespace Belief

variable {b b' b'' : Belief}

/-- From one moment to a later one, the observed types stay observed, and the type stays or becomes
the join of some types, among them one that is known and all that were observed before. -/
structure Rises (b b' : Belief) : Prop where
  /-- What was observed stays observed. -/
  observed : b.observed.types ⊆ b'.observed.types
  /-- The type stays or becomes a join. -/
  type : b'.type = b.type ∨ ∃ ts, b.observed.types ⊆ ts ∧ ts ⊆ b'.observed.types ∧
    (∃ u ∈ ts, u.isUnknown = false) ∧ Descriptor.common? ts = some b'.type.type

namespace Rises

/-- A belief that stays as it is. -/
theorem refl (b : Belief) : b.Rises b := ⟨List.Subset.refl _, Or.inl rfl⟩

/-- A belief rises step by step. The set whose join the type is may lie in either step. -/
theorem trans (h : b.Rises b') (h' : b'.Rises b'') : b.Rises b'' := by
  refine ⟨List.Subset.trans h.observed h'.observed, ?_⟩
  rcases h'.type with hsame | ⟨ts, hlower, hupper, hknown, hjoin⟩
  · rcases h.type with hsame' | ⟨ts, hlower, hupper, hknown, hjoin⟩
    · exact Or.inl (hsame.trans hsame')
    · exact Or.inr ⟨ts, hlower, List.Subset.trans hupper h'.observed, hknown, hsame ▸ hjoin⟩
  · exact Or.inr ⟨ts, List.Subset.trans h.observed hlower, hupper, hknown, hjoin⟩

/-- The type of a belief that rose from nothing is unknown or the join of some observed types, one of
them known. -/
theorem exists_join (h : ({} : Belief).Rises b) :
    b.type.type = .unknown ∨ ∃ ts ⊆ b.observed.types, (∃ u ∈ ts, u.isUnknown = false) ∧
      Descriptor.common? ts = some b.type.type := by
  rcases h.type with hsame | ⟨ts, -, hupper, hknown, hjoin⟩
  · exact Or.inl (congrArg Observation.type hsame)
  · exact Or.inr ⟨ts, hupper, hknown, hjoin⟩

/-- **A known type goes up.** -/
theorem isBelow (h : ({} : Belief).Rises b) (h' : b.Rises b') (hknown : b.type.type.isUnknown = false) :
    b.type.type.IsBelow b'.type.type := by
  rcases h'.type with hsame | ⟨us, hlower, -, -, hjoin'⟩
  · exact Or.inl (congrArg Observation.type hsame)
  · rcases h.exists_join with hunknown | ⟨ts, hupper, -, hjoin⟩
    · rw [hunknown] at hknown
      exact Bool.noConfusion hknown
    · exact Descriptor.common?_mono (List.Subset.trans hupper hlower) hjoin hjoin'

/-- **What fell back to the unknown type stays there.** -/
theorem stays_unknown (h' : b.Rises b') (h'' : b'.Rises b'') (hknown : b.type.type.isUnknown = false)
    (hunknown : b'.type.type.isUnknown = true) : b''.type.type.isUnknown = true := by
  -- the type was lost because discordant types were observed, and these stay observed
  rcases h'.type with hsame | ⟨ts, -, hupper, ⟨u, hu, hu'⟩, hjoin⟩
  · rw [hsame, hknown] at hunknown
    exact Bool.noConfusion hunknown
  · have hdiscordant := Descriptor.discordant_of_common? hjoin hu hu' hunknown
    rcases h''.type with hsame | ⟨us, hlower, -, -, hjoin'⟩
    · rw [hsame]
      exact hunknown
    · rw [(hdiscordant.mono (List.Subset.trans hupper hlower)).eq_unknown hjoin']
      rfl

end Rises

/-- **An observation** lets the belief rise. -/
theorem rises_observe (b : Belief) (o : Observation) : b.Rises (b.observe o) := by
  unfold observe
  split
  · exact .refl b
  · next hignores =>
    have hmem : ∀ u ∈ b.observed.types, u ∈ (b.observed.insert o).types :=
      fun u hu => TypeSet.mem_types_insert.mpr (Or.inl hu)
    obtain ⟨j, hj, hjoin⟩ := b.observed.exists_join?_insert o
    simp only [ignores, Bool.or_eq_true, not_or, Bool.not_eq_true] at hignores
    refine ⟨hmem, Or.inr ⟨(b.observed.insert o).types, hmem, List.Subset.refl _, ?_, ?_⟩⟩
    · exact ⟨o.type, TypeSet.mem_types_insert.mpr (Or.inr rfl), hignores.1⟩
    · simpa only [hj, Option.getD_some] using hjoin

/-- **Widening** lets the belief rise; the type stays. -/
theorem rises_widen (b : Belief) (os : List Observation) : b.Rises (b.widen os) := by
  unfold widen
  split
  · exact .refl b
  · exact ⟨fun u hu => TypeSet.mem_types_insertAll.mpr (Or.inl hu), Or.inl rfl⟩

/-- No unknown type was observed. -/
def Hears (b : Belief) : Prop := ∀ t ∈ b.observed.types, t.isUnknown = false

/-- An observation adds no unknown type. -/
theorem Hears.observe (h : b.Hears) (o : Observation) : (b.observe o).Hears := by
  unfold Belief.observe
  split
  · exact h
  · next hignores =>
    intro t ht
    simp only [ignores, Bool.or_eq_true, not_or, Bool.not_eq_true] at hignores
    rcases TypeSet.mem_types_insert.mp ht with ht | rfl
    · exact h t ht
    · exact hignores.1

/-- Widening by known types adds no unknown type. -/
theorem Hears.widen (h : b.Hears) {os : List Observation} (hos : ∀ o ∈ os, o.type.isUnknown = false) :
    (b.widen os).Hears := by
  unfold Belief.widen
  split
  · exact h
  · intro t ht
    rcases TypeSet.mem_types_insertAll.mp ht with ht | ⟨o, ho, rfl⟩
    · exact h t ht
    · exact hos o ho

/-- Three beliefs of a node, one after the other, of which the types only go up. -/
structure OnlyRises (b b' b'' : Belief) : Prop where
  /-- What was observed stays observed. -/
  observed : b.observed.types ⊆ b'.observed.types
  /-- The type is unknown or the join of some of the types that were observed. -/
  joined : b.type.type = .unknown ∨
    ∃ ts ⊆ b.observed.types, ts ≠ [] ∧ Descriptor.common? ts = some b.type.type
  /-- A known type is below every later one. -/
  below : b.type.type.isUnknown = false → b.type.type.IsBelow b'.type.type
  /-- A type that was known and is unknown stays unknown. -/
  lost : b.type.type.isUnknown = false → b'.type.type.isUnknown = true → b''.type.type.isUnknown = true

end Belief

/-! ## Graphs -/

namespace Graph

variable {g g' g'' : Graph} {id : NodeId} {b : Belief}

/-- The same nodes have beliefs, and all beliefs rise. -/
def Rises (g g' : Graph) : Prop :=
  ∀ id, Option.Rel Belief.Rises (g.belief? id) (g'.belief? id)

namespace Rises

/-- A graph whose beliefs stay as they are. -/
theorem refl (g : Graph) : g.Rises g := by
  intro id
  cases g.belief? id with
  | none => exact .none
  | some b => exact .some (.refl b)

/-- Beliefs of a graph rise step by step. -/
theorem trans (h : g.Rises g') (h' : g'.Rises g'') : g.Rises g'' := by
  intro id
  have hid := h id
  have hid' := h' id
  generalize g.belief? id = o at hid ⊢
  generalize g'.belief? id = o' at hid hid'
  generalize g''.belief? id = o'' at hid' ⊢
  cases hid with
  | none => exact hid'
  | some hrises =>
    cases hid' with
    | some hrises' => exact .some (hrises.trans hrises')

/-- What becomes of a belief. -/
theorem exists_later (h : g.Rises g') (hb : g.belief? id = some b) :
    ∃ b', g'.belief? id = some b' ∧ b.Rises b' := by
  have hid := h id
  rw [hb] at hid
  generalize g'.belief? id = o at hid
  cases hid with
  | some hrises => exact ⟨_, rfl, hrises⟩

/-- What a belief came from. -/
theorem exists_earlier (h : g.Rises g') (hb : g'.belief? id = some b) :
    ∃ b₀, g.belief? id = some b₀ ∧ b₀.Rises b := by
  have hid := h id
  rw [hb] at hid
  generalize g.belief? id = o at hid
  cases hid with
  | some hrises => exact ⟨_, rfl, hrises⟩

end Rises

/-- The type of a node is that of its belief. -/
theorem typeOf_eq (hb : g.belief? id = some b) : g.typeOf id = b.type := by
  rw [typeOf, hb]

/-- No node has an unknown type in its set. -/
def Hears (g : Graph) : Prop := ∀ id b, g.belief? id = some b → b.Hears

/-- One belief rises. -/
theorem rises_setBelief (hb : g.belief? id = some b) {next : Belief} (h : b.Rises next) :
    g.Rises (g.setBelief id next) := by
  intro other
  rw [belief?_setBelief hb]
  split
  · next heq =>
    subst heq
    rw [hb]
    exact .some h
  · exact Rises.refl g other

/-- One set is replaced by one without unknown types. -/
theorem Hears.setBelief (h : g.Hears) (hb : g.belief? id = some b) {next : Belief}
    (hnext : next.Hears) : (g.setBelief id next).Hears := by
  intro other c hc
  rw [belief?_setBelief hb] at hc
  split at hc
  · exact Option.some.inj hc ▸ hnext
  · exact h other c hc

/-- What stands in a set is known where no unknown types are heard. -/
theorem Hears.observedAt (h : g.Hears) (id : NodeId) :
    ∀ o ∈ (g.observedAt id).observations, o.type.isUnknown = false := by
  intro o ho
  unfold Graph.observedAt at ho
  cases hb : g.belief? id with
  | none =>
    rw [hb] at ho
    exact absurd ho List.not_mem_nil
  | some b =>
    rw [hb] at ho
    exact h id b hb o.type (List.mem_map_of_mem ho)

/-- A refinement that lets every belief rise. -/
theorem rises_refine (g : Graph) (id : NodeId) {f : Belief → Belief} (hf : ∀ b : Belief, b.Rises (f b)) :
    g.Rises (g.refine id f).1 := by
  unfold refine
  cases hb : g.belief? id with
  | none => exact .refl g
  | some b => exact rises_setBelief hb (hf b)

/-- A refinement that adds no unknown type. -/
theorem Hears.refine (h : g.Hears) (id : NodeId) {f : Belief → Belief}
    (hf : ∀ b : Belief, b.Hears → (f b).Hears) : (g.refine id f).1.Hears := by
  unfold Graph.refine
  cases hb : g.belief? id with
  | none => exact h
  | some b => exact h.setBelief hb (hf b (h id b hb))

/-- Fewer listeners are no matter of belief. -/
theorem rises_keepListeners (g : Graph) (id : NodeId) (p : Listener → Bool) :
    g.Rises (g.keepListeners id p) := by
  unfold keepListeners
  cases hb : g.belief? id with
  | none => exact .refl g
  | some b => exact rises_setBelief hb ⟨List.Subset.refl _, Or.inl rfl⟩

/-- Removing listeners adds no observations. -/
theorem Hears.keepListeners (h : g.Hears) (id : NodeId) (p : Listener → Bool) :
    (g.keepListeners id p).Hears := by
  unfold Graph.keepListeners
  cases hb : g.belief? id with
  | none => exact h
  | some b => exact h.setBelief hb (h id b hb)

/-- A new listener is no matter of belief. -/
theorem rises_join (b : Belief) (l : Listener) : b.Rises (b.join l) := by
  unfold Belief.join
  split
  · exact .refl b
  · exact ⟨List.Subset.refl _, Or.inl rfl⟩

/-! ### Deliveries -/

/-- **Telling a listener** lets all beliefs rise. -/
theorem rises_deliver (g : Graph) (notice : Notice) : g.Rises (g.deliver notice).1 := by
  unfold deliver
  split
  · exact rises_refine g _ fun b => b.rises_observe _
  · exact rises_refine g _ fun b => b.rises_widen _
  · -- an entry in the journal is no belief
    exact Rises.refl g

/-- **Telling a listener** adds no unknown type. -/
theorem Hears.deliver (h : g.Hears) (notice : Notice) : (g.deliver notice).1.Hears := by
  unfold Graph.deliver
  split
  · exact h.refine _ fun b hb => hb.observe _
  · exact h.refine _ fun b hb => hb.widen (h.observedAt notice.source)
  · exact fun id b hb => h id b hb

/-! ### Histories -/

/-- An operation that pins no type. -/
def Call.Refining : Call → Prop
  | .pin .. => False
  | _ => True

/-- An operation that pins no type and is given no unknown type to add to a set. -/
def Call.Hearing : Call → Prop
  | .pin .. => False
  | .widen _ os => ∀ o ∈ os, o.type.isUnknown = false
  | _ => True

/-- **The opening of an operation** that pins no type lets all beliefs rise. -/
theorem rises_opening (g : Graph) {c : Call} (hc : c.Refining) : g.Rises (c.opening g).1 := by
  cases c with
  | observe id o => exact rises_refine g id fun b => b.rises_observe o
  | widen id os => exact rises_refine g id fun b => b.rises_widen os
  | pin id o => exact hc.elim
  | subscribe id l =>
    simp only [Call.opening]
    cases hb : g.belief? id with
    | none => exact .refl g
    | some b => exact rises_setBelief hb (rises_join b l)
  | rebroadcast id =>
    simp only [Call.opening]
    cases g.belief? id <;> exact .refl g

/-- **The opening of an operation** that is given no unknown type adds none. -/
theorem Hears.opening (h : g.Hears) {c : Call} (hc : c.Hearing) : (c.opening g).1.Hears := by
  cases c with
  | observe id o => exact h.refine id fun b hb => hb.observe o
  | widen id os => exact h.refine id fun b hb => hb.widen hc
  | pin id o => exact hc.elim
  | subscribe id l =>
    simp only [Call.opening]
    cases hb : g.belief? id with
    | none => exact h
    | some b =>
      refine h.setBelief hb fun t ht => h id b hb t ?_
      unfold Belief.join at ht
      split at ht <;> exact ht
  | rebroadcast id =>
    simp only [Call.opening]
    cases g.belief? id <;> exact h

/-- One step of a history of operations of some kind, from moment to moment. A moment is a graph with
the notices that are still to be delivered. The next operation begins when nobody is left to be
told. -/
inductive Moves (kind : Call → Prop) : Graph × List Notice → Graph × List Notice → Prop where
  /-- An operation begins. -/
  | call (g : Graph) {c : Call} (hc : kind c) : Moves kind (g, []) (c.opening g)
  /-- A listener is removed. -/
  | unsubscribe (g : Graph) (id : NodeId) (l : Listener) :
    Moves kind (g, []) (g.unsubscribe id l, [])
  /-- The listeners that act for a node are removed. -/
  | unsubscribeOwned (g : Graph) (id owner : NodeId) :
    Moves kind (g, []) (g.unsubscribeOwned id owner, [])
  /-- A listener is told. -/
  | tell {s s' : Graph × List Notice} (h : Tells s s') : Moves kind s s'

/-- A history of operations of some kind leads from one moment to another. -/
def Reaches (kind : Call → Prop) : Graph × List Notice → Graph × List Notice → Prop :=
  Relation.ReflTransGen (Moves kind)

/-- Nothing is known about any node, and nobody listens. -/
def Fresh (g : Graph) : Prop := ∀ id b, g.belief? id = some b → b = {}

variable {kind : Call → Prop} {s s' : Graph × List Notice}

/-- **What every step does.** An operation begins, a node keeps some of its listeners, or a listener is
told: what holds of the moments before and after in each of these cases holds of every step. -/
theorem Moves.relates {R : Graph × List Notice → Graph × List Notice → Prop} (h : Moves kind s s')
    (opening : ∀ g c, kind c → R (g, []) (c.opening g))
    (keepListeners : ∀ g id p, R (g, []) (g.keepListeners id p, []))
    (deliver : ∀ g notice rest,
      R (g, notice :: rest) ((g.deliver notice).1, (g.deliver notice).2 ++ rest)) : R s s' := by
  cases h with
  | call g hc => exact opening g _ hc
  | unsubscribe g id l => exact keepListeners g id _
  | unsubscribeOwned g id owner => exact keepListeners g id _
  | tell h =>
    obtain @⟨g, _, notice, _, rest, hdeliver⟩ := h
    have htold := deliver g notice rest
    rwa [hdeliver] at htold

/-- **One step** lets all beliefs rise. -/
theorem Moves.rises (h : Moves Call.Refining s s') : s.1.Rises s'.1 :=
  h.relates (R := fun s s' => s.1.Rises s'.1) (fun g _ hc => rises_opening g hc)
    (fun g id p => rises_keepListeners g id p) fun g notice _ => rises_deliver g notice

/-- **One step** adds no unknown type. -/
theorem Moves.hears (h : Moves Call.Hearing s s') : s.1.Hears → s'.1.Hears :=
  h.relates (R := fun s s' => s.1.Hears → s'.1.Hears) (fun _ _ hc hs => hs.opening hc)
    (fun _ id p hs => hs.keepListeners id p) fun _ notice _ hs => hs.deliver notice

/-- **A history** lets all beliefs rise. -/
theorem Reaches.rises (h : Reaches Call.Refining s s') : s.1.Rises s'.1 := by
  induction h with
  | refl => exact .refl _
  | tail _ hstep ih => exact ih.trans hstep.rises

/-- **A history** adds no unknown type. -/
theorem Reaches.hears (h : Reaches Call.Hearing s s') (hs : s.1.Hears) : s'.1.Hears := by
  induction h with
  | refl => exact hs
  | tail _ hstep ih => exact hstep.hears ih

/-- All deliveries are steps of a history. -/
theorem Settles.reaches {pending : List Notice} {n : Nat} {last : Graph}
    (h : Settles g pending n last) : Reaches kind (g, pending) (last, []) := by
  induction h with
  | done g => exact .refl
  | tell h _ ih => exact .head (.tell (.tell h)) ih

/-- **A whole operation** is part of a history. -/
theorem reaches_run (g : Graph) {c : Call} (hc : kind c) : Reaches kind (g, []) (c.run g, []) := by
  obtain ⟨n, -, hsettles⟩ := (call_settles g c).2
  exact .head (.call g hc) hsettles.reaches

/-- **Several operations** one after the other are a history. -/
theorem reaches_foldl {calls : List Call} (g : Graph) (hcalls : ∀ c ∈ calls, kind c) :
    Reaches kind (g, []) (calls.foldl Call.run g, []) := by
  induction calls generalizing g with
  | nil => exact .refl
  | cons c rest ih =>
    exact (reaches_run g (hcalls c List.mem_cons_self)).trans
      (ih (c.run g) fun c hc => hcalls c (List.mem_cons_of_mem _ hc))

/-- **Types only go up.** In every history that begins with fresh nodes and pins no type, and for any
three of its moments, one after the other: what was observed of a node stays observed; its type is
unknown or the join of some of the types observed of it; a known type is below every later one; and a
type that was known and is unknown stays unknown. Sets hold no unknown type unless an operation was
given one to add. Operations that are carried out one after the other are such a history.

**Proof sketch.** Between two moments of a history every belief rises: its set loses nothing, and its type
stays or becomes the join of a set in between. This holds of one observation and one widening, which is all
that a step does to a belief, and is transitive. Joins of larger sets are above those of smaller ones, and an
unknown join stays so. -/
theorem types_only_rise {g₀ : Graph} (fresh : g₀.Fresh) :
    (∀ s s' s'', Reaches Call.Refining (g₀, []) s → Reaches Call.Refining s s' →
      Reaches Call.Refining s' s'' → ∀ id b, s.1.belief? id = some b →
        ∃ b' b'', s'.1.belief? id = some b' ∧ s''.1.belief? id = some b'' ∧ b.OnlyRises b' b'') ∧
      (∀ s, Reaches Call.Hearing (g₀, []) s → s.1.Hears) ∧
        ∀ (g : Graph) (calls : List Call), (∀ c ∈ calls, c.Refining) →
          Reaches Call.Refining (g, []) (calls.foldl Call.run g, []) := by
  refine ⟨fun s s' s'' h h' h'' id b hb => ?_, fun s h => ?_, fun g _ hcalls => reaches_foldl g hcalls⟩
  · obtain ⟨b', hb', hrises'⟩ := h'.rises.exists_later hb
    obtain ⟨b'', hb'', hrises''⟩ := h''.rises.exists_later hb'
    obtain ⟨b₀, hb₀, hrises⟩ := h.rises.exists_earlier hb
    rw [fresh id b₀ hb₀] at hrises
    refine ⟨b', b'', hb', hb'', hrises'.observed, ?_, hrises.isBelow hrises',
      hrises'.stays_unknown hrises''⟩
    rcases hrises.exists_join with hunknown | ⟨ts, hts, ⟨u, hu, -⟩, hjoin⟩
    · exact Or.inl hunknown
    · exact Or.inr ⟨ts, hts, List.ne_nil_of_mem hu, hjoin⟩
  · refine h.hears fun id b hb t ht => ?_
    rw [fresh id b hb] at ht
    exact absurd ht List.not_mem_nil

/-- Two variables of which nothing is known. -/
def twoVariables : Graph :=
  ((empty.add (.make "a" (.var none))).2.add (.make "b" (.var none))).2

/-- The variables follow each other, and one of them is seen with a qualified type. -/
def followingEachOther : List Call :=
  [.subscribe 0 ⟨0, .follow 1⟩, .subscribe 1 ⟨1, .follow 0⟩,
    .observe 0 { type := { name := "Foo", modifier := "const" } }]

/-- **Around a circle.** Where two variables follow each other and one of them loses its type because
it is seen with another one, it does not find it again, though the other one keeps it. -/
theorem types_only_rise_circle : twoVariables.Fresh ∧ (∀ c ∈ followingEachOther, c.Refining) ∧
    ∃ g g' g'', followingEachOther.foldl Call.run twoVariables = g ∧
      g.observe 1 { type := { name := "Bar" } } = g' ∧
        g'.observe 0 { type := { name := "Foo" } } = g'' ∧
          (g.typeOf 1).type = { name := "Foo", modifier := "const" } ∧
            (g'.typeOf 1).type = .unknown ∧
              (g'.typeOf 0).type = { name := "Foo", modifier := "const" } ∧
                (g''.typeOf 1).type.isUnknown = true := by
  have hfresh : twoVariables.Fresh := by
    intro id b hb
    match id with
    | 0 | 1 => exact (Option.some.inj hb).symm
    | _ + 2 => cases hb
  have hrefining : ∀ c ∈ followingEachOther, c.Refining := by
    simp [followingEachOther, Call.Refining]
  obtain ⟨hrise, -, hcalls⟩ := types_only_rise hfresh
  have hstep : ∀ (g : Graph) id o, Reaches Call.Refining (g, []) (g.observe id o, []) :=
    fun g id o => hcalls g [.observe id o] (by simp [Call.Refining])
  have htype : ((followingEachOther.foldl Call.run twoVariables).typeOf 1).type =
        { name := "Foo", modifier := "const" } ∧
      (((followingEachOther.foldl Call.run twoVariables).observe 1
        { type := { name := "Bar" } }).typeOf 1).type = .unknown ∧
      (((followingEachOther.foldl Call.run twoVariables).observe 1
        { type := { name := "Bar" } }).typeOf 0).type = { name := "Foo", modifier := "const" } ∧
      ((followingEachOther.foldl Call.run twoVariables).belief? 1).isSome = true := by
    decide +kernel
  have hstart := hcalls twoVariables followingEachOther hrefining
  generalize followingEachOther.foldl Call.run twoVariables = g at hstart htype
  obtain ⟨htype, htype', hother, hsome⟩ := htype
  refine ⟨hfresh, hrefining, g, _, _, rfl, rfl, rfl, htype, htype', hother, ?_⟩
  obtain ⟨b, hb⟩ := Option.isSome_iff_exists.mp hsome
  obtain ⟨b', b'', hb', hb'', hrises⟩ :=
    hrise _ _ _ hstart (hstep g 1 { type := { name := "Bar" } })
      (hstep _ 0 { type := { name := "Foo" } }) 1 b hb
  rw [typeOf_eq hb] at htype
  rw [typeOf_eq hb'] at htype'
  rw [typeOf_eq hb'']
  exact hrises.lost (by rw [htype]; rfl) (by rw [htype']; rfl)

end Graph

end ProgramGraph
