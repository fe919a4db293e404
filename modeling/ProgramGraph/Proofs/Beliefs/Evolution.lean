import ProgramGraph.Proofs.Beliefs.Sets
import ProgramGraph.Graph.Creation

set_option autoImplicit false

/-!
# How beliefs evolve

A belief that began with one type keeps it as long as nothing else is observed that differs in more
than its qualifying word. Observations and subscriptions only refine beliefs in this sense, and they
change the types of no nodes but those they are made on and those that follow others.

## Main definitions

* `ProgramGraph.Belief.Began` — a belief that began with a type.
* `ProgramGraph.Belief.Evolves` — how a belief may change.
* `ProgramGraph.Graph.Confined` — all followers lie among some nodes.
* `ProgramGraph.Graph.Refines` — beliefs evolve, and types change among some nodes only.

## Main results

* `ProgramGraph.Descriptor.common?_eq_of_forall` — the join of a type and its qualified forms.
* `ProgramGraph.Belief.evolves_observe`, `ProgramGraph.Belief.evolves_widen` — single beliefs.
* `ProgramGraph.Graph.refines_observe` and its siblings — the operations on a graph.
-/

namespace ProgramGraph

/-! ## Joins around one type -/

namespace Descriptor

/-- A type or one of its qualified forms. -/
def IsFormOf (u t : Descriptor) : Prop := u = t ∨ u.unqualified = t

/-- What is left of a type once it is observed: nothing if it is unknown. -/
def heard (t : Descriptor) : Descriptor := if t.isUnknown then unknown else t

/-- A form of a type has its shape. -/
theorem IsFormOf.shape {t u : Descriptor} (h : u.IsFormOf t) :
    u.name = t.name ∧ u.adjustment = t.adjustment := by
  rcases h with rfl | rfl
  · exact ⟨rfl, rfl⟩
  · exact ⟨rfl, rfl⟩

/-- The forms of an unknown type are unknown. -/
theorem IsFormOf.isUnknown {t u : Descriptor} (h : u.IsFormOf t) : u.isUnknown = t.isUnknown := by
  unfold Descriptor.isUnknown
  rw [h.shape.1]

/-- **The join around one type.** A type and some of its forms join to the type.

**Proof sketch.** All types have one shape. If they are equal, each of them is the join. If not, one of them
is a form of the type that differs from it, so the type has no qualifying word, and neither has the join. -/
theorem common?_eq_of_forall {ts : List Descriptor} {t : Descriptor} (hmem : t ∈ ts)
    (hts : ∀ u ∈ ts, u.IsFormOf t) : common? ts = some t := by
  cases ts with
  | nil => exact absurd hmem List.not_mem_nil
  | cons first rest =>
    have hfirst := hts first (List.mem_cons_self ..)
    have hshape : rest.all first.sameShape = true := by
      rw [List.all_eq_true]
      intro u hu
      have hform := hts u (List.mem_cons_of_mem _ hu)
      simp [sameShape, hform.shape, hfirst.shape]
    rw [common?]
    by_cases hsame : rest.all (· == first) = true
    · rw [if_pos hsame]
      rcases List.mem_cons.mp hmem with rfl | hrest
      · rfl
      · rw [List.all_eq_true] at hsame
        rw [eq_of_beq (hsame t hrest)]
    · rw [if_neg hsame, if_pos hshape]
      -- something differs from the first type, so the type has no qualifying word
      obtain ⟨u, hu, hne⟩ : ∃ u ∈ first :: rest, u ≠ t := by
        by_contra hall
        push Not at hall
        apply hsame
        rw [List.all_eq_true]
        intro u hu
        rw [hall u (List.mem_cons_of_mem _ hu), hall first (List.mem_cons_self ..)]
        exact beq_self_eq_true t
      have hplain : t.unqualified = t := by
        rw [← (hts u hu).resolve_left hne]
        rfl
      rcases hfirst with rfl | hfirst
      · rw [hplain]
      · rw [hfirst]

end Descriptor

/-! ## Single beliefs -/

namespace Belief

variable {b b' b'' : Belief} {o : Observation} {t : Descriptor}

/-- A belief that began with a type: if the type is known, it was observed, and it is the type of the
belief as long as only forms of it were observed. -/
structure Began (t : Descriptor) (b : Belief) : Prop where
  /-- The type was observed. -/
  observed : t.isUnknown = false → t ∈ b.observed.types
  /-- The type is believed as long as only forms of it were observed. -/
  type : (∀ u ∈ b.observed.types, u.IsFormOf t) → b.type.type = t.heard

/-- How a belief may change: what was observed stays observed, and a belief that began with a type
still did. -/
structure Evolves (b b' : Belief) : Prop where
  /-- What was observed stays observed. -/
  observed : b.observed.types ⊆ b'.observed.types
  /-- What a belief began with stays. -/
  began : ∀ t, b.Began t → b'.Began t

/-- A belief that stays as it is. -/
theorem Evolves.refl (b : Belief) : b.Evolves b := ⟨List.Subset.refl _, fun _ h => h⟩

/-- A belief evolves step by step. -/
theorem Evolves.trans (h : b.Evolves b') (h' : b'.Evolves b'') : b.Evolves b'' :=
  ⟨List.Subset.trans h.observed h'.observed, fun t ht => h'.began t (h.began t ht)⟩

/-- Listeners are no matter of belief. -/
theorem evolves_listeners (b : Belief) (listeners : List Listener) :
    b.Evolves { b with listeners } :=
  ⟨List.Subset.refl _, fun _ h => ⟨h.observed, h.type⟩⟩

/-- **An observation refines.** -/
theorem evolves_observe (b : Belief) (o : Observation) : b.Evolves (b.observe o) := by
  unfold observe
  split
  · exact .refl b
  · next hignores =>
    have hmem : ∀ u, u ∈ (b.observed.insert o).types ↔ u ∈ b.observed.types ∨ u = o.type :=
      fun u => TypeSet.mem_types_insert
    refine ⟨fun u hu => (hmem u).mpr (Or.inl hu), fun t ht => ⟨fun hknown => ?_, fun hall => ?_⟩⟩
    · exact (hmem t).mpr (Or.inl (ht.observed hknown))
    · have hnew := hall o.type ((hmem o.type).mpr (Or.inr rfl))
      have hknown : t.isUnknown = false := by
        rw [← hnew.isUnknown]
        simp only [ignores, Bool.or_eq_true, not_or, Bool.not_eq_true] at hignores
        exact hignores.1
      have hjoin := Descriptor.common?_eq_of_forall ((hmem t).mpr (Or.inl (ht.observed hknown))) hall
      rw [← TypeSet.type_join?] at hjoin
      obtain ⟨j, hj, hjtype⟩ := Option.map_eq_some_iff.mp hjoin
      simp only [hj, Option.getD_some, hjtype, Descriptor.heard, hknown, Bool.false_eq_true,
        if_false]

/-- **Widening refines.** -/
theorem evolves_widen (b : Belief) (os : List Observation) : b.Evolves (b.widen os) := by
  unfold widen
  split
  · exact .refl b
  · have hmem : ∀ u ∈ b.observed.types, u ∈ (b.observed.insertAll os).types :=
      fun u hu => TypeSet.mem_types_insertAll.mpr (Or.inl hu)
    refine ⟨hmem, fun t ht => ⟨fun hknown => hmem t (ht.observed hknown), fun hall => ?_⟩⟩
    exact ht.type fun u hu => hall u (hmem u hu)

/-- **A first observation** is what a belief begins with.

**Proof sketch.** An unknown type is ignored, and then nothing was heard. A known one is not, as nothing was
observed before, and so it is all that was observed. -/
theorem began_observe (o : Observation) : (({} : Belief).observe o).Began o.type := by
  have hempty : ({} : Belief).observed.types = [] := rfl
  unfold observe
  by_cases hunknown : o.type.isUnknown = true
  · rw [if_pos (by simp [ignores, hunknown])]
    refine ⟨fun hknown => absurd (hunknown.symm.trans hknown) (by simp), fun _ => ?_⟩
    rw [Descriptor.heard, if_pos hunknown]
    rfl
  · have hknown : o.type.isUnknown = false := by simpa using hunknown
    have hignores : ({} : Belief).ignores o = false := by
      rw [ignores, hknown, Bool.false_or]
      rfl
    rw [if_neg (by simp [hignores])]
    have htypes : ((∅ : TypeSet).insert o).types = [o.type] := by
      rw [TypeSet.types_insert]
      rfl
    refine ⟨fun _ => ?_, fun _ => ?_⟩
    · change o.type ∈ ((∅ : TypeSet).insert o).types
      rw [htypes]
      exact List.mem_singleton.mpr rfl
    · rw [Descriptor.heard, if_neg hunknown]
      rfl

end Belief

/-! ## Beliefs of a graph -/

namespace Graph

variable {g g' g'' : Graph} {D : NodeId → Prop} {id : NodeId} {b : Belief}

/-- All nodes that follow others lie among some nodes. -/
def Confined (D : NodeId → Prop) (g : Graph) : Prop :=
  ∀ id b, g.belief? id = some b → ∀ l ∈ b.listeners, ∀ target, l.reaction = .follow target → D target

/-- How the beliefs of a graph may change: they evolve, their types change among some nodes only, and
the followers still lie among these. -/
structure Refines (D : NodeId → Prop) (g g' : Graph) : Prop where
  /-- Beliefs evolve. -/
  evolves : ∀ id b, g.belief? id = some b → ∃ b', g'.belief? id = some b' ∧ b.Evolves b' ∧
    (¬ D id → b'.type = b.type)
  /-- The followers lie among the same nodes. -/
  confined : g'.Confined D

namespace Refines

/-- A graph in which nothing is refined. -/
theorem refl (h : g.Confined D) : Refines D g g :=
  ⟨fun _ b hb => ⟨b, hb, .refl b, fun _ => rfl⟩, h⟩

/-- Nodes are refined step by step. -/
theorem trans (h : Refines D g g') (h' : Refines D g' g'') : Refines D g g'' := by
  refine ⟨fun id b hb => ?_, h'.confined⟩
  obtain ⟨b', hb', hevolves, htype⟩ := h.evolves id b hb
  obtain ⟨b'', hb'', hevolves', htype'⟩ := h'.evolves id b' hb'
  exact ⟨b'', hb'', hevolves.trans hevolves', fun hid => (htype' hid).trans (htype hid)⟩

/-- Beliefs that are there stay, and nobody listens to new ones. -/
theorem of_belief? (h : g.Confined D) (hold : ∀ id b, g.belief? id = some b → g'.belief? id = some b)
    (hnew : ∀ id b, g'.belief? id = some b → g.belief? id = some b ∨ b.listeners = []) :
    Refines D g g' := by
  refine ⟨fun id b hb => ⟨b, hold id b hb, .refl b, fun _ => rfl⟩, fun id b hb l hl => ?_⟩
  rcases hnew id b hb with hb | hnone
  · exact h id b hb l hl
  · rw [hnone] at hl
    exact absurd hl List.not_mem_nil

/-- The type of a node that has a belief and lies elsewhere stays. -/
theorem typeOf (h : Refines D g g') (hb : g.belief? id = some b) (hid : ¬ D id) :
    g'.typeOf id = g.typeOf id := by
  obtain ⟨b', hb', -, htype⟩ := h.evolves id b hb
  rw [Graph.typeOf, Graph.typeOf, hb, hb']
  exact htype hid

end Refines

/-- One belief changes. -/
theorem refines_setBelief (h : g.Confined D) (hb : g.belief? id = some b) {next : Belief}
    (hevolves : b.Evolves next) (htype : ¬ D id → next.type = b.type)
    (hlisteners : ∀ l ∈ next.listeners, l ∈ b.listeners ∨
      ∀ target, l.reaction = .follow target → D target) : Refines D g (g.setBelief id next) := by
  refine ⟨fun other c hc => ?_, fun other c hc l hl => ?_⟩
  · rw [belief?_setBelief hb]
    split
    · next heq =>
      subst heq
      obtain rfl := Option.some.inj (hb.symm.trans hc)
      exact ⟨next, rfl, hevolves, htype⟩
    · exact ⟨c, hc, .refl c, fun _ => rfl⟩
  · rw [belief?_setBelief hb] at hc
    split at hc
    · obtain rfl := Option.some.inj hc
      rcases hlisteners l hl with hold | hnew
      · exact h id b hb l hold
      · exact hnew
    · exact h other c hc l hl

/-! ### Deliveries -/

/-- All nodes that pending notices are for lie among some nodes. -/
def Directed (D : NodeId → Prop) (pending : List Notice) : Prop :=
  ∀ notice ∈ pending, ∀ target, notice.listener.reaction = .follow target → D target

/-- The announcements of a refinement go to listeners. -/
theorem directed_announceRefined {next : Belief}
    (h : ∀ l ∈ next.listeners, ∀ target, l.reaction = .follow target → D target) :
    Directed D (b.announceRefined next id) := by
  have hannounce : ∀ former, Directed D (next.announce id former) := by
    intro former notice hnotice
    obtain ⟨l, hl, rfl⟩ := List.mem_map.mp hnotice
    exact h l (List.mem_filter.mp hl).1
  intro notice hnotice
  unfold Belief.announceRefined at hnotice
  rcases List.mem_append.mp hnotice with hnotice | hnotice
  · split at hnotice
    · exact hannounce _ notice hnotice
    · exact absurd hnotice List.not_mem_nil
  · split at hnotice
    · exact absurd hnotice List.not_mem_nil
    · exact hannounce _ notice hnotice

/-- A change of one belief that refines it, whatever the belief is. -/
theorem refines_refine (h : g.Confined D) (hid : D id) {f : Belief → Belief}
    (hevolves : ∀ b : Belief, b.Evolves (f b))
    (hlisteners : ∀ b, (f b).listeners = b.listeners) :
    Refines D g (g.refine id f).1 ∧ Directed D (g.refine id f).2 := by
  unfold refine
  cases hb : g.belief? id with
  | none => exact ⟨.refl h, fun _ hnotice => absurd hnotice List.not_mem_nil⟩
  | some b =>
    refine ⟨?_, directed_announceRefined fun l hl => ?_⟩
    · refine refines_setBelief h hb (hevolves b) (fun hnot => absurd hid hnot) fun l hl => ?_
      rw [hlisteners] at hl
      exact Or.inl hl
    · rw [hlisteners] at hl
      exact h id b hb l hl

/-- An observation on a node. -/
theorem refines_refine_observe (h : g.Confined D) (hid : D id) (o : Observation) :
    Refines D g (g.refine id fun b => b.observe o).1 ∧
      Directed D (g.refine id fun b => b.observe o).2 := by
  refine refines_refine h hid (fun b => b.evolves_observe o) fun b => ?_
  unfold Belief.observe
  split <;> rfl

/-- Types are added to the set of a node. -/
theorem refines_refine_widen (h : g.Confined D) (hid : D id) (os : List Observation) :
    Refines D g (g.refine id fun b => b.widen os).1 ∧
      Directed D (g.refine id fun b => b.widen os).2 := by
  refine refines_refine h hid (fun b => b.evolves_widen os) fun b => ?_
  unfold Belief.widen
  split <;> rfl

/-- **Telling a listener** that lies among the nodes. -/
theorem refines_deliver (h : g.Confined D) {notice : Notice}
    (hnotice : ∀ target, notice.listener.reaction = .follow target → D target) :
    Refines D g (g.deliver notice).1 ∧ Directed D (g.deliver notice).2 := by
  unfold deliver
  split
  · next target _ hfollow _ => exact refines_refine_observe h (hnotice target hfollow) _
  · next target _ hfollow _ => exact refines_refine_widen h (hnotice target hfollow) _
  · -- an entry in the journal is no belief
    exact ⟨.of_belief? h (fun _ _ hb => hb) fun _ _ hb => Or.inl hb, fun _ hnotice =>
      absurd hnotice List.not_mem_nil⟩

/-- **Telling several listeners** that lie among the nodes. -/
theorem refines_drain (n : Nat) (h : g.Confined D) {pending : List Notice}
    (hpending : Directed D pending) : Refines D g (drain n g pending) := by
  induction n generalizing g pending with
  | zero => cases pending <;> exact .refl h
  | succ n ih =>
    cases pending with
    | nil => exact .refl h
    | cons notice rest =>
      obtain ⟨hrefines, hdirected⟩ := refines_deliver h (hpending notice (List.mem_cons_self ..))
      refine hrefines.trans (ih hrefines.confined fun other hother => ?_)
      rcases List.mem_append.mp hother with hother | hother
      · exact hdirected other hother
      · exact hpending other (List.mem_cons_of_mem _ hother)

/-- Delivering notices to some nodes refines these nodes only, with all the consequences. -/
theorem refines_settle (h : g.Confined D) {pending : List Notice} (hpending : Directed D pending) :
    Refines D g (g.settle pending) := by
  unfold settle
  split
  · exact .refl h
  · exact refines_drain _ h hpending

/-! ### The operations -/

/-- **Observing** on one of the nodes. -/
theorem refines_observe (h : g.Confined D) (hid : D id) (o : Observation) :
    Refines D g (g.observe id o) := by
  obtain ⟨hrefines, hdirected⟩ := refines_refine_observe h hid o
  exact hrefines.trans (refines_settle hrefines.confined hdirected)

/-- **Widening** on one of the nodes. -/
theorem refines_widen (h : g.Confined D) (hid : D id) (os : List Observation) :
    Refines D g (g.widen id os) := by
  obtain ⟨hrefines, hdirected⟩ := refines_refine_widen h hid os
  exact hrefines.trans (refines_settle hrefines.confined hdirected)

/-- **Subscribing** one of the nodes.

**Proof sketch.** A listener is entered, which raises no belief by itself, and then told twice: of the type
and of what was observed. Both notices lead to the node that follows, of which it is assumed that it may
change. -/
theorem refines_subscribe (h : g.Confined D) (id : NodeId) {l : Listener}
    (hl : ∀ target, l.reaction = .follow target → D target) : Refines D g (g.subscribe id l) := by
  unfold subscribe
  cases hb : g.belief? id with
  | none => exact .refl h
  | some b =>
    have hjoin : Refines D g (g.setBelief id (b.join l)) := by
      refine refines_setBelief h hb ?_ (fun _ => ?_) fun other hother => ?_
      · unfold Belief.join
        split
        · exact .refl b
        · exact b.evolves_listeners _
      · unfold Belief.join
        split <;> rfl
      · unfold Belief.join at hother
        split at hother
        · exact Or.inl hother
        · rcases List.mem_append.mp hother with hold | hnew
          · exact Or.inl hold
          · rw [List.mem_singleton.mp hnew]
            exact Or.inr hl
    dsimp only
    split
    · exact hjoin
    · refine hjoin.trans (refines_settle hjoin.confined fun notice hnotice => ?_)
      simp only [List.mem_cons, List.not_mem_nil, or_false] at hnotice
      rcases hnotice with rfl | rfl
      · exact hl
      · exact hl

/-- **Unsubscribing.** -/
theorem refines_unsubscribeOwned (h : g.Confined D) (id owner : NodeId) :
    Refines D g (g.unsubscribeOwned id owner) := by
  unfold unsubscribeOwned keepListeners
  cases hb : g.belief? id with
  | none => exact .refl h
  | some b =>
    refine refines_setBelief h hb (b.evolves_listeners _) (fun _ => rfl) fun l hl => ?_
    exact Or.inl (List.mem_filter.mp hl).1

/-- Beliefs stay when links are written. -/
theorem belief?_modify (g : Graph) (id other : NodeId) {f : Node → Node}
    (hf : ∀ node, (f node).belief = node.belief) : (g.modify id f).belief? other = g.belief? other := by
  unfold belief?
  rw [node?_modify]
  split
  · next heq =>
    subst heq
    cases g.node? id with
    | none => rfl
    | some node => exact hf node
  · rfl

/-- **Writing links.** -/
theorem refines_modify (h : g.Confined D) (id : NodeId) {f : Node → Node}
    (hf : ∀ node, (f node).belief = node.belief) : Refines D g (g.modify id f) := by
  refine .of_belief? h (fun other b hb => ?_) fun other b hb => ?_
  · rw [belief?_modify g id other hf, hb]
  · rw [belief?_modify g id other hf] at hb
    exact Or.inl hb

end Graph

end ProgramGraph
