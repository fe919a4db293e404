import Mathlib.Algebra.Order.BigOperators.Group.List
import ProgramGraph.Proofs.Beliefs.Room

set_option autoImplicit false

/-!
# Deliveries come to an end

A change to a belief is announced, listeners refine other beliefs in turn, and followers may form
circles. Here it is shown that the deliveries which one operation sets off always come to an end, in
every graph and with every set of listeners, and that the bound on deliveries is never used up.

## Main definitions

* `ProgramGraph.Graph.Tells` — one delivery, with its consequences put before the rest.
* `ProgramGraph.Graph.Settles` — all deliveries, counted, without any bound.
* `ProgramGraph.Graph.Call` — the operations that can set off deliveries, with what they change at
  once, `ProgramGraph.Graph.Call.opening`, and what they leave behind, `ProgramGraph.Graph.Call.run`.
* `ProgramGraph.Graph.room` — how often the beliefs of a graph can still change.

## Main results

* `ProgramGraph.Graph.settles_drain` — with room enough to pay for, draining delivers everything.
* `ProgramGraph.Graph.call_settles` — every operation sets off finitely many deliveries and returns
  what they leave behind.

## Design

The potential is the number of pending notices plus, for each change there is still room for, two
notices to every listener of the graph. A delivery takes one notice away, and what it adds is paid
for by the room it uses up.
-/

namespace ProgramGraph.Graph

open Descriptor (Closed closure)

/-! ## Deliveries without a bound -/

/-- One delivery: the next listener is told, and the consequences come before the rest. -/
inductive Tells : Graph × List Notice → Graph × List Notice → Prop where
  | tell {g next : Graph} {notice : Notice} {consequences rest : List Notice}
      (h : g.deliver notice = (next, consequences)) :
      Tells (g, notice :: rest) (next, consequences ++ rest)

/-- All deliveries: after `n` of them nobody is left to be told. -/
inductive Settles : Graph → List Notice → Nat → Graph → Prop where
  | done (g : Graph) : Settles g [] 0 g
  | tell {g next last : Graph} {notice : Notice} {consequences rest : List Notice} {n : Nat}
      (h : g.deliver notice = (next, consequences))
      (rest_settles : Settles next (consequences ++ rest) n last) :
      Settles g (notice :: rest) (n + 1) last

/-- An operation that can set off deliveries, with its arguments. -/
inductive Call where
  | observe (id : NodeId) (o : Observation)
  | widen (id : NodeId) (os : List Observation)
  | pin (id : NodeId) (o : Observation)
  | subscribe (id : NodeId) (l : Listener)
  | rebroadcast (id : NodeId)

namespace Call

/-- What an operation changes at once, and the notices this gives rise to. -/
def opening (g : Graph) : Call → Graph × List Notice
  | observe id o => g.refine id fun b => b.observe o
  | widen id os => g.refine id fun b => b.widen os
  | pin id o =>
    match g.belief? id with
    | some b =>
      (g.setBelief id (b.pin o),
        (if b.type.type = o.type then [] else b.announce id (.type b.type.type)) ++
          if b.observed.types = [o.type] then [] else b.announce id (.observed b.observed))
    | none => (g, [])
  | subscribe id l =>
    match g.belief? id with
    | some b =>
      (g.setBelief id (b.join l),
        if l.owner = some id then []
        else [⟨id, l, .type b.type.type⟩, ⟨id, l, .observed b.observed⟩])
    | none => (g, [])
  | rebroadcast id =>
    match g.belief? id with
    | some b =>
      (g, (b.audience id).flatMap fun l =>
        [⟨id, l, .type b.type.type⟩, ⟨id, l, .observed b.observed⟩])
    | none => (g, [])

/-- What an operation leaves behind. -/
def run (g : Graph) : Call → Graph
  | observe id o => g.observe id o
  | widen id os => g.widen id os
  | pin id o => g.pin id o
  | subscribe id l => g.subscribe id l
  | rebroadcast id => g.rebroadcast id

/-- An operation is its opening, settled. -/
theorem run_eq_settle (g : Graph) (c : Call) :
    c.run g = (c.opening g).1.settle (c.opening g).2 := by
  cases c with
  | observe id o => rfl
  | widen id os => rfl
  | pin id o =>
    simp only [run, opening, Graph.pin]
    cases g.belief? id <;> rfl
  | subscribe id l =>
    simp only [run, opening, Graph.subscribe]
    cases g.belief? id with
    | none => rfl
    | some b => by_cases h : l.owner = some id <;> simp [h, settle]
  | rebroadcast id =>
    simp only [run, opening, Graph.rebroadcast]
    cases g.belief? id <;> rfl

end Call

/-! ## Sums over the beliefs of a graph -/

/-- Replacing the belief of one node in a list of nodes changes one summand. -/
theorem sum_beliefs_modify (f : Belief → Nat) (next : Belief) {nodes : List Node} {i : Nat}
    {node : Node} {b : Belief} (hnode : nodes[i]? = some node) (hb : node.belief = some b) :
    (((nodes.modify i fun node => { node with belief := some next }).filterMap
        Node.belief).map f).sum + f b =
      ((nodes.filterMap Node.belief).map f).sum + f next := by
  induction nodes generalizing i with
  | nil => simp at hnode
  | cons first rest ih =>
    cases i with
    | zero =>
      obtain rfl : first = node := by simpa using hnode
      simp only [List.modify_zero_cons, List.filterMap_cons, hb, List.map_cons, List.sum_cons]
      omega
    | succ i =>
      have hrest := ih (i := i) (by simpa using hnode)
      simp only [List.modify_succ_cons, List.filterMap_cons]
      cases first.belief with
      | none => exact hrest
      | some b' =>
        simp only [List.map_cons, List.sum_cons]
        omega

variable {g : Graph} {id : NodeId} {b b' : Belief} {U : List Descriptor}

/-- **One summand changes** where one belief is replaced. -/
theorem sum_beliefs_setBelief (f : Belief → Nat) (h : g.belief? id = some b) (b' : Belief) :
    (((g.setBelief id b').beliefs).map f).sum + f b = (g.beliefs.map f).sum + f b' := by
  obtain ⟨node, hnode, hb⟩ := Option.bind_eq_some_iff.mp h
  have hget : g.nodes.toList[id]? = some node := by simpa [node?] using hnode
  have := sum_beliefs_modify f b' hget hb
  simpa [beliefs, setBelief, modify, Array.toList_modify] using this

/-- The belief of a node is among the beliefs of the graph. -/
theorem mem_beliefs_of_belief? (h : g.belief? id = some b) : b ∈ g.beliefs := by
  obtain ⟨node, hnode, hb⟩ := Option.bind_eq_some_iff.mp h
  exact List.mem_filterMap.mpr ⟨node, mem_nodes_iff.mpr ⟨id, hnode⟩, hb⟩

/-! ## The potential -/

/-- All types of a graph lie in a list. -/
def Within (U : List Descriptor) (g : Graph) : Prop :=
  ∀ id b, g.belief? id = some b → b.Within U

/-- How often the beliefs of a graph can still change within a list of types. -/
def room (U : List Descriptor) (g : Graph) : Nat := (g.beliefs.map fun b => b.room U).sum

/-- The types of a graph: the current ones and all that were observed. -/
def mentioned (g : Graph) : List Descriptor :=
  g.beliefs.flatMap fun b => b.type.type :: b.observed.types

/-- A belief is replaced by one within the list. -/
theorem Within.setBelief (hg : g.Within U) (h : g.belief? id = some b) (hb' : b'.Within U) :
    (g.setBelief id b').Within U := by
  intro other c hc
  rw [belief?_setBelief h] at hc
  split at hc
  · exact Option.some.inj hc ▸ hb'
  · exact hg other c hc

/-- The listeners of one node are among all subscriptions. -/
theorem length_listeners_le (h : g.belief? id = some b) : b.listeners.length ≤ g.subscriptions :=
  List.le_sum_of_mem (List.mem_map_of_mem (mem_beliefs_of_belief? h))

/-- The current type of a node lies in the list. -/
theorem Within.typeOf_mem (hU : Closed U) (hg : g.Within U) (id : NodeId) :
    (g.typeOf id).type ∈ U := by
  unfold typeOf
  cases h : g.belief? id with
  | none => exact hU.unknown_mem
  | some b => exact (hg id b h).type_mem

/-- What was observed on a node lies in the list. -/
theorem Within.observedAt_mem (hg : g.Within U) (id : NodeId) :
    ∀ o ∈ (g.observedAt id).observations, o.type ∈ U := by
  intro o ho
  unfold observedAt at ho
  cases h : g.belief? id with
  | none =>
    rw [h] at ho
    exact absurd ho List.not_mem_nil
  | some b =>
    rw [h] at ho
    exact (hg id b h).observed_mem o.type (List.mem_map_of_mem ho)

/-- A change to one belief that stays within the list, keeps the listeners, and pays for its notices
with room. -/
structure Affordable (U : List Descriptor) (f : Belief → Belief) : Prop where
  within : ∀ b : Belief, b.Within U → (f b).Within U
  listeners : ∀ b : Belief, (f b).listeners = b.listeners
  cost : ∀ (b : Belief) (id : NodeId) (L : Nat), b.Within U → b.listeners.length ≤ L →
    (b.announceRefined (f b) id).length + 2 * L * (f b).room U ≤ 2 * L * b.room U

/-- An observation from the list is affordable. -/
theorem affordable_observe (hU : Closed U) {o : Observation} (ho : o.type ∈ U) :
    Affordable U fun b => b.observe o where
  within _ hb := hb.observe hU ho
  listeners b := b.listeners_observe o
  cost _ _ _ hb hL := Belief.cost_observe hU hb ho hL

/-- Widening by types from the list is affordable. -/
theorem affordable_widen {os : List Observation} (hos : ∀ o ∈ os, o.type ∈ U) :
    Affordable U fun b => b.widen os where
  within _ hb := hb.widen hos
  listeners b := b.listeners_widen os
  cost _ _ _ hb hL := Belief.cost_widen hb hos hL

/-- What pending notices and the room that is left can give rise to. -/
def potential (U : List Descriptor) (g : Graph) (pending : List Notice) : Nat :=
  pending.length + 2 * g.subscriptions * g.room U

/-- **A refinement does not raise the potential.** The room that one belief loses is what the whole
graph loses. -/
theorem refine_spec {f : Belief → Belief} (hf : Affordable U f) (hg : g.Within U) (id : NodeId) :
    (g.refine id f).1.Within U ∧
      (g.refine id f).1.subscriptions = g.subscriptions ∧
      potential U (g.refine id f).1 (g.refine id f).2 ≤ potential U g [] := by
  unfold refine
  cases h : g.belief? id with
  | none => exact ⟨hg, rfl, le_rfl⟩
  | some b =>
    have hb := hg id b h
    have hsubscriptions : (g.setBelief id (f b)).subscriptions = g.subscriptions := by
      have := sum_beliefs_setBelief (fun b => b.listeners.length) h (f b)
      simp only [hf.listeners b] at this
      exact Nat.add_right_cancel this
    have hroom : (g.setBelief id (f b)).room U + b.room U = g.room U + (f b).room U :=
      sum_beliefs_setBelief (fun b => b.room U) h (f b)
    have hcost := hf.cost b id g.subscriptions hb (length_listeners_le h)
    refine ⟨hg.setBelief h (hf.within b hb), hsubscriptions, ?_⟩
    have htotal : 2 * g.subscriptions * (g.setBelief id (f b)).room U +
        2 * g.subscriptions * b.room U =
          2 * g.subscriptions * g.room U + 2 * g.subscriptions * (f b).room U := by
      rw [← Nat.mul_add, ← Nat.mul_add, hroom]
    simp only [potential, hsubscriptions, List.length_nil]
    omega

/-- **A delivery takes one notice off the potential.**

**Proof sketch.** A notice that reaches a follower is a refinement of its belief, which does not raise the
potential but for the notices themselves, and one notice less is left. A notice to a recorder is only written
down. -/
theorem deliver_spec (hU : Closed U) (hg : g.Within U) (notice : Notice) (rest : List Notice) :
    (g.deliver notice).1.Within U ∧
      potential U (g.deliver notice).1 ((g.deliver notice).2 ++ rest) <
        potential U g (notice :: rest) := by
  have hcons : potential U g (notice :: rest) = potential U g [] + rest.length + 1 := by
    simp only [potential, List.length_cons, List.length_nil]
    omega
  have happend : ∀ (g : Graph) (ns : List Notice),
      potential U g (ns ++ rest) = potential U g ns + rest.length := by
    intro g ns
    simp only [potential, List.length_append]
    omega
  rw [hcons, happend]
  unfold deliver
  split
  · obtain ⟨hwithin, -, hpotential⟩ :=
      refine_spec (affordable_observe hU (hg.typeOf_mem hU notice.source)) hg ‹NodeId›
    exact ⟨hwithin, by omega⟩
  · obtain ⟨hwithin, -, hpotential⟩ :=
      refine_spec (affordable_widen (hg.observedAt_mem notice.source)) hg ‹NodeId›
    exact ⟨hwithin, by omega⟩
  · exact ⟨hg, Nat.lt_succ_self _⟩

/-! ## Deliveries end -/

/-- **No endless deliveries.** Every chain of deliveries from a graph within a closed list ends. -/
theorem acc_tells (hU : Closed U) (hg : g.Within U) (pending : List Notice) :
    Acc (fun later earlier => Tells earlier later) (g, pending) := by
  induction hn : potential U g pending using Nat.strong_induction_on generalizing g pending with
  | _ n ih =>
    refine Acc.intro _ ?_
    rintro ⟨next, pending'⟩ htells
    cases htells with
    | @tell _ _ notice consequences rest h =>
      obtain ⟨hwithin, hless⟩ := deliver_spec hU hg notice rest
      rw [h] at hwithin hless
      exact ih _ (hn ▸ hless) hwithin _ rfl

/-- **Draining delivers everything** if there are as many deliveries as the potential asks for. -/
theorem settles_drain (hU : Closed U) {n : Nat} (hg : g.Within U) (pending : List Notice)
    (hn : potential U g pending ≤ n) : ∃ k ≤ n, Settles g pending k (drain n g pending) := by
  induction n generalizing g pending with
  | zero =>
    cases pending with
    | nil => exact ⟨0, le_rfl, by rw [drain]; exact .done g⟩
    | cons notice rest => simp [potential] at hn
  | succ n ih =>
    cases pending with
    | nil => exact ⟨0, Nat.zero_le _, by rw [drain]; exact .done g⟩
    | cons notice rest =>
      obtain ⟨hwithin, hless⟩ := deliver_spec hU hg notice rest
      obtain ⟨k, hk, hsettles⟩ := ih hwithin ((g.deliver notice).2 ++ rest) (by omega)
      exact ⟨k + 1, by omega, .tell rfl hsettles⟩

/-- The types of a graph lie in their closure. -/
theorem within_closure (g : Graph) : g.Within (closure g.mentioned) := by
  intro id b h
  have hmem : ∀ t ∈ b.type.type :: b.observed.types, t ∈ closure g.mentioned := fun t ht =>
    Descriptor.subset_closure (List.mem_flatMap.mpr ⟨b, mem_beliefs_of_belief? h, ht⟩)
  exact ⟨fun t ht => hmem t (List.mem_cons_of_mem _ ht), hmem _ List.mem_cons_self⟩

/-- The bound on types counts the closure of the types of the graph. -/
theorem length_closure_mentioned (g : Graph) : (closure g.mentioned).length = g.typeBound := by
  rw [Descriptor.length_closure, mentioned, List.length_flatMap, List.sum_eq_foldr, typeBound]
  simp

/-- **The bound on deliveries is enough.** -/
theorem potential_le_deliveryBound (g : Graph) (pending : List Notice) :
    potential (closure g.mentioned) g pending ≤ g.deliveryBound pending := by
  have hroom : g.room (closure g.mentioned) ≤
      g.beliefs.length * (2 * (closure g.mentioned).length + 1) := by
    have := List.sum_le_card_nsmul (g.beliefs.map fun b => b.room (closure g.mentioned))
      (2 * (closure g.mentioned).length + 1) (by
        intro x hx
        obtain ⟨b, -, rfl⟩ := List.mem_map.mp hx
        exact b.room_le _)
    simpa [room] using this
  rw [length_closure_mentioned] at hroom
  have hbound : g.beliefs.length * (2 * g.typeBound + 1) =
      2 * (g.beliefs.length * g.typeBound) + g.beliefs.length := by ring
  rw [hbound] at hroom
  unfold potential deliveryBound
  exact Nat.add_le_add_left (Nat.mul_le_mul_left _ hroom) _

/-- Settling delivers everything, within the bound. -/
theorem settles_settle (g : Graph) (pending : List Notice) :
    ∃ n ≤ g.deliveryBound pending, Settles g pending n (g.settle pending) := by
  unfold settle
  split
  · next hempty =>
    rw [List.isEmpty_iff.mp hempty]
    exact ⟨0, Nat.zero_le _, .done g⟩
  · exact settles_drain (Descriptor.closed_closure _) g.within_closure pending
      (g.potential_le_deliveryBound pending)

/-- **Every operation comes to an end.** In every graph, with every set of listeners, the deliveries
that an operation sets off form no endless chain; there are finitely many of them, no more than the
bound, and what they leave behind is what the operation returns.

**Proof sketch.** All types that can turn up lie in the closure of the types present after the opening. Within
it every delivery lowers the potential (`deliver_spec`), which bounds every chain (`acc_tells`) and is itself
below the bound on deliveries (`potential_le_deliveryBound`). -/
theorem call_settles (g : Graph) (c : Call) :
    Acc (fun later earlier => Tells earlier later) (c.opening g) ∧
      ∃ n ≤ (c.opening g).1.deliveryBound (c.opening g).2,
        Settles (c.opening g).1 (c.opening g).2 n (c.run g) := by
  refine ⟨acc_tells (Descriptor.closed_closure _) (c.opening g).1.within_closure _, ?_⟩
  rw [c.run_eq_settle g]
  exact settles_settle _ _

end ProgramGraph.Graph
