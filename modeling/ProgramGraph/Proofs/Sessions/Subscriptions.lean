import Mathlib.Data.List.Count
import Mathlib.Data.List.Nodup
import ProgramGraph.Proofs.Beliefs.Forwarding
import ProgramGraph.Proofs.Sessions.Precedence

set_option autoImplicit false

/-!
# Listeners do not leak

A reference that is linked to a declaration listens to it. Each run links all references again, and
each time by a new listener that is the same as none before it. What keeps the old ones from piling up
is that a reference gives up all its listeners on what it meant before it is linked to anything else.
So a linked reference has a single listener in the whole graph, on what it means, a reference that is
not linked has none, and there are as many listeners as linked references.

## Main definitions

* `ProgramGraph.Graph.registrations` — the listeners of a graph, with the nodes they listen to.
* `ProgramGraph.Graph.linked` — the references that mean anything.
* `ProgramGraph.Graph.Subscribed` — each linked reference has its listener, and there are no others.

## Main results

* `ProgramGraph.Graph.Wired.owners_perm` — the listeners act for the linked references, once for each.
* `ProgramGraph.Graph.after_subscribed` — every session leaves it so.
-/

namespace ProgramGraph.Graph

variable {g : Graph} {d r : NodeId} {l : Listener}

/-- The listeners of a graph, each with the node that it listens to. -/
def registrations (g : Graph) : List (NodeId × Listener) :=
  g.ids.flatMap fun d => (g.listenersAt d).map fun l => (d, l)

/-- The listeners that act for a node, wherever they listen. -/
def registrationsOf (g : Graph) (r : NodeId) : List (NodeId × Listener) :=
  g.registrations.filter fun s => s.2.owner == some r

/-- The references that mean anything. -/
def linked (g : Graph) : List NodeId := g.ids.filter fun r => (g.targetOf r).isSome

/-- Each linked reference has its listener, and there are no others. -/
structure Subscribed (g : Graph) : Prop where
  /-- A reference that means something has a single listener in the whole graph, on what it means. -/
  linked : ∀ r d, g.targetOf r = some d → ∃ l, g.registrationsOf r = [(d, l)]
  /-- What means nothing has no listener. -/
  unlinked : ∀ r, g.targetOf r = none → g.registrationsOf r = []
  /-- There are as many listeners as linked references. -/
  total : g.subscriptions = g.linked.length

/-! ## The listeners of a graph -/

/-- What listens somewhere is a listener of that node. -/
theorem listenersAt_of_mem_registrations (h : (d, l) ∈ g.registrations) : l ∈ g.listenersAt d := by
  obtain ⟨x, -, hx⟩ := List.mem_flatMap.mp h
  obtain ⟨l', hl, heq⟩ := List.mem_map.mp hx
  cases heq
  exact hl

/-- The listeners that act for a node are found on each node by its own. -/
theorem registrationsOf_eq : g.registrationsOf r =
    g.ids.flatMap fun d => ((g.listenersAt d).filter (·.owner == some r)).map fun l => (d, l) := by
  rw [registrationsOf, registrations, List.filter_flatMap]
  simp only [List.filter_map]
  rfl

/-- The beliefs of a graph are those of its nodes. -/
theorem beliefs_eq : g.beliefs = g.ids.filterMap g.belief? := by
  calc g.beliefs = (g.nodes.toList.map some).filterMap fun node? => node?.bind Node.belief := by
        rw [List.filterMap_map]
        rfl
    _ = g.ids.filterMap g.belief? := by
        rw [← map_node?_ids, List.filterMap_map]
        rfl

/-- **All listeners** are found on the nodes of a graph. -/
theorem length_registrations : g.registrations.length = g.subscriptions := by
  have hids : ∀ ids : List NodeId, (ids.flatMap fun d => (g.listenersAt d).map fun l => (d, l)).length =
      ((ids.filterMap g.belief?).map fun b => b.listeners.length).foldr (· + ·) 0 := by
    intro ids
    induction ids with
    | nil => rfl
    | cons d ids ih =>
      rw [List.flatMap_cons, List.length_append, List.length_map, ih]
      cases hb : g.belief? d with
      | none => simp [listenersAt, hb]
      | some b => simp [listenersAt, hb]
  rw [subscriptions, beliefs_eq]
  exact hids g.ids

/-- A reference that means something is linked. -/
theorem mem_linked_iff : r ∈ g.linked ↔ (g.targetOf r).isSome = true := by
  rw [linked, List.mem_filter, and_iff_right_of_imp]
  intro hr
  obtain ⟨d, hd⟩ := Option.isSome_iff_exists.mp hr
  exact List.mem_range.mpr (lt_size_of_tag? (tag?_of_targetOf hd))

namespace Wired

/-! ## The listeners of a reference -/

/-- Each listener acts for a reference that means what it listens to. -/
theorem exists_owner (h : g.Wired) (hl : l ∈ g.listenersAt d) :
    ∃ r, l.owner = some r ∧ g.targetOf r = some d := by
  cases hb : g.belief? d with
  | none =>
    rw [listenersAt, hb] at hl
    exact absurd hl List.not_mem_nil
  | some b =>
    rw [listenersAt_eq hb] at hl
    obtain ⟨r, hreaction, hmeans⟩ := h.followed d b hb l hl
    exact ⟨r, by rw [Listener.owner, hreaction], hmeans⟩

/-- No listener acts for a reference on what it does not mean. -/
theorem filter_listenersAt (h : g.Wired) (hne : g.targetOf r ≠ some d) :
    (g.listenersAt d).filter (·.owner == some r) = [] := by
  apply List.filter_eq_nil_iff.mpr
  intro l hl howner
  obtain ⟨r', hr', hmeans⟩ := h.exists_owner hl
  obtain rfl := Option.some.inj (hr'.symm.trans (beq_iff_eq.mp howner))
  exact hne hmeans

/-- **What means nothing** has no listener. -/
theorem registrationsOf_unlinked (h : g.Wired) (hr : g.targetOf r = none) :
    g.registrationsOf r = [] := by
  rw [registrationsOf_eq, List.flatMap_eq_nil_iff]
  intro d _
  rw [h.filter_listenersAt (by simp [hr]), List.map_nil]

/-- **A linked reference** has a single listener, on what it means.

**Proof sketch.** The listeners of all nodes are gone through in order. Only at what the reference means is
there one that acts for it, and it is a single one. Each node occurs once among all nodes. -/
theorem registrationsOf_linked (h : g.Wired) (hr : g.targetOf r = some d) :
    ∃ l, g.registrationsOf r = [(d, l)] := by
  obtain ⟨b, l, hb, hfilter⟩ := h.follows r d hr
  obtain ⟨tag, htag, -⟩ := h.targets r d hr
  obtain ⟨before, after, hsplit⟩ := List.append_of_mem
    (show d ∈ g.ids from List.mem_range.mpr (lt_size_of_tag? htag))
  have hnodup : g.ids.Nodup := List.nodup_range
  rw [hsplit, List.nodup_middle, List.nodup_cons] at hnodup
  -- on other nodes nothing acts for the reference
  have hnone : ∀ others : List NodeId, d ∉ others → (others.flatMap fun d =>
      ((g.listenersAt d).filter (·.owner == some r)).map fun l => (d, l)) = [] := by
    intro others hnot
    rw [List.flatMap_eq_nil_iff]
    intro other hother
    have hne : g.targetOf r ≠ some other := by
      rw [hr]
      rintro ⟨⟩
      exact hnot hother
    rw [h.filter_listenersAt hne, List.map_nil]
  refine ⟨l, ?_⟩
  rw [registrationsOf_eq, hsplit, List.flatMap_append, List.flatMap_cons,
    hnone before fun hmem => hnodup.1 (List.mem_append_left _ hmem),
    hnone after fun hmem => hnodup.1 (List.mem_append_right _ hmem), listenersAt_eq hb, hfilter]
  rfl

/-- How many listeners act for a node. -/
theorem length_registrationsOf (h : g.Wired) (r : NodeId) :
    (g.registrationsOf r).length = if r ∈ g.linked then 1 else 0 := by
  cases hr : g.targetOf r with
  | none => rw [h.registrationsOf_unlinked hr, if_neg (by simp [mem_linked_iff, hr]), List.length_nil]
  | some d =>
    obtain ⟨l, hl⟩ := h.registrationsOf_linked hr
    rw [hl, if_pos (by simp [mem_linked_iff, hr]), List.length_singleton]

/-! ## All listeners -/

/-- **The listeners act for the linked references,** once for each of them. -/
theorem owners_perm (h : g.Wired) :
    (g.registrations.map fun s => s.2.owner).Perm (g.linked.map some) := by
  have hnodup : g.linked.Nodup := List.nodup_range.filter _
  apply List.perm_iff_count.mpr
  intro owner
  cases owner with
  | none =>
    have hnone : none ∉ g.registrations.map fun s => s.2.owner := by
      intro hmem
      obtain ⟨⟨d, l⟩, hs, hl⟩ := List.mem_map.mp hmem
      obtain ⟨r, hr, -⟩ := h.exists_owner (listenersAt_of_mem_registrations hs)
      exact absurd (hl.symm.trans hr) (by simp)
    rw [List.count_eq_zero_of_not_mem hnone, List.count_eq_zero_of_not_mem (by simp)]
  | some r =>
    calc (g.registrations.map fun s => s.2.owner).count (some r) = (g.registrationsOf r).length := by
          rw [List.count_eq_countP, List.countP_map, List.countP_eq_length_filter]
          rfl
      _ = if r ∈ g.linked then 1 else 0 := h.length_registrationsOf r
      _ = (g.linked.map some).count (some r) := by
          rw [List.count_map_of_injective _ _ (Option.some_injective _), hnodup.count]

/-- **Where exactly the references listen** to what they mean, each linked reference has its listener
and there are no others. -/
theorem subscribed (h : g.Wired) : g.Subscribed where
  linked := fun _ _ hr => h.registrationsOf_linked hr
  unlinked := fun _ hr => h.registrationsOf_unlinked hr
  total := by
    have hlength := h.owners_perm.length_eq
    rwa [List.length_map, List.length_map, length_registrations] at hlength

end Wired

/-- **Listeners do not leak.** After every session, however often the usages were resolved in it, each
linked reference has a single listener in the whole graph, on what it means, and what is not linked has
none. So there are as many listeners as linked references.

**Proof sketch.** All graphs of a history are wired: a reference listens to what it means and to nothing else,
and nobody but references listens. A listener is added only when a reference is linked, and a reference that
is linked anew is first removed from what it meant. Counting the listeners at their owners gives the number of
linked references. -/
theorem after_subscribed (session : List Operation) :
    ∃ g, after session = .ok g ∧ g.Subscribed := by
  obtain ⟨g, past, hafter, hhistory⟩ := exists_history_after session
  exact ⟨g, hafter, hhistory.orderly.wired.subscribed⟩

open Document in
/-- A field that is used in its own record, as a member of a record that inherits it, and in another such
record, which is added once the usages were resolved. -/
def inheritedField : List Operation :=
  [.build { declarations := [
      .record "Base" "class" [] [.field "x" (some "Number") [] none,
        .function "get" none none false [] (some [.returned (some (.ref "x" none false none))])],
      .record "Derived" "class" ["Base"] [],
      .function "main" none none false [] (some
        [.expression (.member (.ref "d" (some "Derived") false none) "x" (some "Integer") none none)])] }
      "a.json",
    .resolve,
    .build { declarations := [.record "Other" "class" ["Base"] [
      .function "get" none none false [] (some [.returned (some (.ref "x" none false none))])]] } "b.json",
    .resolve]

/-- The first of the two references was linked by both runs and has one listener all the same. -/
example : (after inheritedField).map (fun g => (g.linked, g.subscriptions)) = .ok ([6, 22], 2) := by
  decide +kernel

end ProgramGraph.Graph
