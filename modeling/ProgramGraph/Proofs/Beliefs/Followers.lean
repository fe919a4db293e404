import ProgramGraph.Proofs.Beliefs.Evolution
import ProgramGraph.Proofs.Beliefs.Rising
import ProgramGraph.Proofs.Syntax.Frame

set_option autoImplicit false

/-!
# Followers that nobody follows

Where nobody listens to the nodes that follow others, a delivery has no consequences: the pending
notices are delivered one after the other, and each changes the belief of one follower.

## Main definitions

* `ProgramGraph.Graph.Silent` — nobody listens to some nodes.
* `ProgramGraph.Graph.effect` — what a delivery does to the belief of a follower.
* `ProgramGraph.Graph.Still` — beliefs change among some nodes only, and nothing else does.

## Main results

* `ProgramGraph.Graph.settle_induction` — what each delivery keeps holds in the end.
* `ProgramGraph.Graph.still_observe` and its siblings — what the operations leave alone.
* `ProgramGraph.Graph.belief?_observe` — the belief of a node after an observation on it.
-/

namespace ProgramGraph

/-- Nothing is announced to nobody. -/
theorem Belief.announceRefined_of_listeners {b next : Belief} {id : NodeId}
    (h : next.listeners = []) : b.announceRefined next id = [] := by
  simp [announceRefined, announce, audience, h]

namespace Graph

variable {g g' g'' : Graph} {T T' : NodeId → Prop} {id x : NodeId} {b : Belief} {f : Belief → Belief}
  {notice : Notice} {pending : List Notice}

/-- Nobody listens to some nodes. -/
def Silent (T : NodeId → Prop) (g : Graph) : Prop :=
  ∀ id b, T id → g.belief? id = some b → b.listeners = []

/-- What a delivery does to the belief of a follower. -/
def effect (g : Graph) (notice : Notice) (b : Belief) : Belief :=
  match notice.former with
  | .type _ => b.observe (g.typeOf notice.source)
  | .observed _ => b.widen (g.observedAt notice.source).observations

/-- The effect of a notice on a belief leaves the listeners as they are. -/
@[simp] theorem listeners_effect (g : Graph) (notice : Notice) (b : Belief) :
    (g.effect notice b).listeners = b.listeners := by
  unfold effect
  split
  · exact b.listeners_observe _
  · exact b.listeners_widen _

/-- The effect of a notice on a belief lets it rise. -/
theorem rises_effect (g : Graph) (notice : Notice) (b : Belief) : b.Rises (g.effect notice b) := by
  unfold effect
  split
  · exact b.rises_observe _
  · exact b.rises_widen _

/-- What is observed of a node with a belief. -/
theorem observedAt_eq (hb : g.belief? id = some b) : g.observedAt id = b.observed := by
  rw [observedAt, hb]

/-- Sets grow where beliefs rise. -/
theorem Rises.observedAt (h : g.Rises g') (id : NodeId) :
    (g.observedAt id).types ⊆ (g'.observedAt id).types := by
  cases hb : g.belief? id with
  | none =>
    rw [Graph.observedAt, hb]
    exact List.nil_subset _
  | some b =>
    obtain ⟨b', hb', hrises⟩ := h.exists_later hb
    rw [observedAt_eq hb, observedAt_eq hb']
    exact hrises.observed

/-- A refinement of a known belief. -/
theorem refine_eq (hb : g.belief? id = some b) (f : Belief → Belief) :
    g.refine id f = (g.setBelief id (f b), b.announceRefined (f b) id) := by
  simp only [refine, hb]

/-- Beliefs after a refinement. -/
theorem belief?_refine (g : Graph) (x : NodeId) (f : Belief → Belief) (id : NodeId) :
    (g.refine x f).1.belief? id = if x = id then (g.belief? id).map f else g.belief? id := by
  cases hb : g.belief? x with
  | none =>
    simp only [refine, hb]
    split
    · next heq => rw [← heq, hb, Option.map_none]
    · rfl
  | some b =>
    simp only [refine, hb, belief?_setBelief hb]
    split
    · next heq => rw [← heq, hb, Option.map_some]
    · rfl

/-- A follower is told by refining its belief. -/
theorem deliver_eq {target : NodeId} (g : Graph) (h : notice.listener.reaction = .follow target) :
    g.deliver notice = g.refine target (g.effect notice) := by
  obtain ⟨source, ⟨key, reaction⟩, former⟩ := notice
  obtain rfl : reaction = .follow target := h
  cases former <;> rfl

/-! ## Beliefs among some nodes -/

/-- Beliefs rise among some nodes, and nothing else changes. -/
structure Still (T : NodeId → Prop) (g g' : Graph) : Prop where
  /-- The tree stays the same. -/
  tree : g.SameTree g'
  /-- No listener is made. -/
  keys : g'.nextKey = g.nextKey
  /-- The other beliefs stay the same. -/
  others : ∀ id, ¬ T id → g'.belief? id = g.belief? id
  /-- The listeners stay the same. -/
  listeners : ∀ id, (g'.belief? id).map Belief.listeners = (g.belief? id).map Belief.listeners
  /-- Beliefs rise. -/
  rises : g.Rises g'

namespace Still

/-- Nothing changes at all. -/
theorem refl (g : Graph) : Still T g g := ⟨.refl g, rfl, fun _ _ => rfl, fun _ => rfl, .refl g⟩

/-- Beliefs rise among the same nodes, step by step. -/
theorem trans (h : Still T g g') (h' : Still T g' g'') : Still T g g'' :=
  ⟨h.tree.trans h'.tree, h'.keys.trans h.keys, fun id hid => (h'.others id hid).trans (h.others id hid),
    fun id => (h'.listeners id).trans (h.listeners id), h.rises.trans h'.rises⟩

/-- Beliefs may change among more nodes. -/
theorem weaken (h : Still T g g') (hsubset : ∀ id, T id → T' id) : Still T' g g' :=
  ⟨h.tree, h.keys, fun id hid => h.others id fun hT => hid (hsubset id hT), h.listeners, h.rises⟩

/-- Where a belief came from. -/
theorem exists_belief (h : Still T g g') (hb : g'.belief? id = some b) :
    ∃ b₀, g.belief? id = some b₀ ∧ b₀.listeners = b.listeners ∧ b₀.Rises b := by
  obtain ⟨b₀, hb₀, hrises⟩ := h.rises.exists_earlier hb
  have hlisteners := h.listeners id
  rw [hb, hb₀, Option.map_some, Option.map_some, Option.some.injEq] at hlisteners
  exact ⟨b₀, hb₀, hlisteners.symm, hrises⟩

/-- Nobody listens to the nodes afterwards. -/
theorem silent (h : Still T g g') (hsilent : g.Silent T') : g'.Silent T' := by
  intro id b hT hb
  obtain ⟨b₀, hb₀, hlisteners, -⟩ := h.exists_belief hb
  rw [← hlisteners]
  exact hsilent id b₀ hT hb₀

end Still

/-- A refinement. -/
theorem still_refine (g : Graph) (x : NodeId) (hlisteners : ∀ b, (f b).listeners = b.listeners)
    (hrises : ∀ b : Belief, b.Rises (f b)) : Still (· = x) g (g.refine x f).1 := by
  refine ⟨g.sameTree_refine x f, ?_, fun id hid => ?_, fun id => ?_, g.rises_refine x hrises⟩
  · unfold refine
    cases g.belief? x <;> rfl
  · rw [belief?_refine, if_neg fun heq => hid heq.symm]
  · rw [belief?_refine]
    split
    · rw [Option.map_map]
      exact congrArg (fun f => (g.belief? id).map f) (funext hlisteners)
    · rfl

/-! ## Deliveries without consequences -/

/-- **Telling a listener** to whom nobody listens has no consequences.

**Proof sketch.** Only a follower can hand something on, and to this one nobody listens. -/
theorem deliver_silent (h : g.Silent T)
    (hnotice : ∀ target, notice.listener.reaction = .follow target → T target) :
    (g.deliver notice).2 = [] ∧ Still T g (g.deliver notice).1 := by
  cases hreaction : notice.listener.reaction with
  | follow target =>
    have htarget := hnotice target hreaction
    rw [deliver_eq g hreaction]
    refine ⟨?_, (g.still_refine target (g.listeners_effect notice) (g.rises_effect notice)).weaken ?_⟩
    · unfold refine
      cases hb : g.belief? target with
      | none => rfl
      | some b =>
        refine Belief.announceRefined_of_listeners ?_
        rw [listeners_effect, h target b htarget hb]
    · rintro id rfl
      exact htarget
  | record owner =>
    obtain ⟨source, ⟨key, reaction⟩, former⟩ := notice
    obtain rfl : reaction = .record owner := hreaction
    exact ⟨rfl, ⟨⟨rfl, fun _ => rfl, rfl, rfl⟩, rfl, fun _ _ => rfl, fun _ => rfl, Rises.refl g⟩⟩

/-- **Induction over deliveries** to nodes to which nobody listens. -/
theorem settle_induction {P : Graph → List Notice → Prop} (hsilent : g.Silent T)
    (hpending : Directed T pending) (h : P g pending)
    (step : ∀ g notice rest, g.Silent T → Directed T (notice :: rest) → P g (notice :: rest) →
      P (g.deliver notice).1 rest) : P (g.settle pending) [] := by
  obtain ⟨n, -, hsettles⟩ := settles_settle g pending
  generalize g.settle pending = last at hsettles ⊢
  induction hsettles with
  | done g => exact h
  | @tell g next last notice consequences rest n hdeliver _ ih =>
    have htold := step g notice rest hsilent hpending h
    obtain ⟨hnone, hstill⟩ := deliver_silent hsilent (hpending notice (List.mem_cons_self ..))
    rw [hdeliver] at hnone hstill htold
    subst hnone
    exact ih (hstill.silent hsilent) (fun other hother => hpending other (List.mem_cons_of_mem _ hother))
      htold

/-- **Telling several listeners** to whom nobody listens. -/
theorem still_settle (hsilent : g.Silent T) (hpending : Directed T pending) :
    Still T g (g.settle pending) := by
  refine settle_induction (P := fun last _ => Still T g last) hsilent hpending (.refl g) ?_
  intro now notice rest hnow hdirected hstill
  exact hstill.trans (deliver_silent hnow (hdirected notice (List.mem_cons_self ..))).2

/-! ## The operations -/

section Refinement

variable (hfollowers : ∀ b, g.belief? x = some b → ∀ l ∈ b.listeners,
  ∀ target, l.reaction = .follow target → T target)
include hfollowers

/-- The notices of a refinement go to the followers of the node. -/
theorem directed_refine (hlisteners : ∀ b, (f b).listeners = b.listeners) :
    Directed T (g.refine x f).2 := by
  unfold refine
  cases hb : g.belief? x with
  | none => exact fun _ hnotice => absurd hnotice List.not_mem_nil
  | some b =>
    refine directed_announceRefined fun l hl => ?_
    rw [hlisteners] at hl
    exact hfollowers b hb l hl

variable (hsilent : g.Silent T)
include hsilent

/-- **A refinement and its consequences** change the belief of the node and those of its followers. -/
theorem still_settle_refine (hlisteners : ∀ b, (f b).listeners = b.listeners)
    (hrises : ∀ b : Belief, b.Rises (f b)) :
    Still (fun id => id = x ∨ T id) g ((g.refine x f).1.settle (g.refine x f).2) ∧
      (¬ T x → ((g.refine x f).1.settle (g.refine x f).2).belief? x = (g.belief? x).map f) := by
  have hrefined := g.still_refine x hlisteners hrises
  have hsettled := still_settle (hrefined.silent hsilent)
    (directed_refine hfollowers hlisteners)
  refine ⟨(hrefined.weaken fun id hid => Or.inl hid).trans (hsettled.weaken fun id hid => Or.inr hid),
    fun hx => ?_⟩
  rw [hsettled.others x hx, belief?_refine, if_pos rfl]

/-- **Observing** on a node. -/
theorem still_observe (o : Observation) : Still (fun id => id = x ∨ T id) g (g.observe x o) :=
  (still_settle_refine hfollowers hsilent (fun b => b.listeners_observe o) fun b =>
    b.rises_observe o).1

/-- **Widening** the set of a node. -/
theorem still_widen (os : List Observation) : Still (fun id => id = x ∨ T id) g (g.widen x os) :=
  (still_settle_refine hfollowers hsilent (fun b => b.listeners_widen os) fun b =>
    b.rises_widen os).1

/-- What is believed about a node after an observation on it. -/
theorem belief?_observe (hx : ¬ T x) (o : Observation) :
    (g.observe x o).belief? x = (g.belief? x).map fun b => b.observe o :=
  (still_settle_refine hfollowers hsilent (fun b => b.listeners_observe o) fun b =>
    b.rises_observe o).2 hx

end Refinement

/-- What changes nothing tells nobody. -/
theorem widen_eq_self {os : List Observation} (hb : g.belief? id = some b) (h : b.widen os = b) :
    g.widen id os = g := by
  obtain ⟨node, hnode, hbelief⟩ := Option.bind_eq_some_iff.mp hb
  have hset : g.setBelief id b = g := modify_eq_self hnode (by rw [← hbelief])
  unfold widen refine
  simp only [hb, h, hset]
  rw [Belief.announceRefined_eq_nil (Nat.le_refl _) rfl]
  rfl

end Graph

end ProgramGraph
