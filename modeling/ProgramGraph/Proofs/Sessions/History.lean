import ProgramGraph.Frontend
import ProgramGraph.Proofs.Building.Documents
import ProgramGraph.Proofs.Resolution.InStep
import ProgramGraph.Proofs.Resolution.Run

set_option autoImplicit false

/-!
# Histories of a graph

A graph begins empty. Documents are added to it and its usages are resolved, in any order and as often
as one likes. At every moment of such a history it is well formed, exactly the references listen to
what they mean, and all types but those of references are in step with what was observed.

## Main definitions

* `ProgramGraph.Graph.Advances` — a document is added, or the usages are resolved.
* `ProgramGraph.Graph.History` — the graphs of a history, the latest first.
* `ProgramGraph.Graph.Orderly` — what holds of all of them.

## Main results

* `ProgramGraph.Graph.BuildsOn.quiet` — a document brings nothing but new nodes.
* `ProgramGraph.Graph.History.orderly` — all graphs of a history are orderly.
* `ProgramGraph.Graph.History.invariant` — what every step keeps holds at every moment.
-/

namespace ProgramGraph.Graph

variable {g g' g₀ : Graph} {past : List Graph} {index : Index}

/-- A graph takes one more document, or its usages are resolved. -/
inductive Advances (g : Graph) : Graph → Prop where
  /-- A document is added, with the path of its file. -/
  | parse (d : Document) (path : String) : g.Advances (d.build path g).2
  /-- The usages are resolved. -/
  | resolve {g' : Graph} {index : Index} (h : g.resolveUsages = .ok (g', index)) : g.Advances g'

/-- Adding the unit of a file is building a document, unless no front end is in charge.

**Proof sketch.** There is a single front end. It reads the whole document before anything is written, so that
a call that succeeds is one that builds what was read. -/
theorem built_of_parseFile {path contents : String} {unit? : Option NodeId}
    (h : parseFile path contents g = .ok (unit?, g')) :
    unit? = none ∧ g' = g ∨ ∃ d : Document, (unit?, g') = (some (d.build path g).1, (d.build path g).2) := by
  unfold parseFile parseInto at h
  cases hfrontend : Frontend.forPath? path with
  | none =>
    rw [hfrontend] at h
    cases h
    exact Or.inl ⟨rfl, rfl⟩
  | some frontend =>
    have hmem := List.mem_of_find?_eq_some hfrontend
    obtain rfl := List.mem_singleton.mp hmem
    rw [hfrontend] at h
    simp only [Frontend.document] at h
    cases hread : Document.read contents with
    | error failure =>
      rw [hread] at h
      cases h
    | ok d =>
      rw [hread] at h
      cases h
      exact Or.inr ⟨d, rfl⟩

/-- The graphs of a history, from the latest one back to the empty one. -/
inductive History : List Graph → Prop where
  /-- In the beginning the graph is empty. -/
  | start : History [{}]
  /-- The graph advances. -/
  | next {g g' : Graph} {past : List Graph} (before : History (g :: past)) (now : g.Advances g') :
    History (g' :: g :: past)

/-- What holds of a graph at every moment of a history. -/
structure Orderly (g : Graph) : Prop where
  /-- The graph is well formed. -/
  wellFormed : g.WellFormed []
  /-- Exactly the references listen to what they mean. -/
  wired : g.Wired
  /-- Types are in step with what was observed. -/
  inStep : g.InStep

/-- What was built on top of a graph is nothing but new nodes.

**Proof sketch.** Below the old size all nodes are as they were. From there on they are raw: they mean
nothing, and what is believed about them stems from one observation. -/
theorem BuildsOn.quiet (h : g₀.BuildsOn g []) : g₀.Quiet g := by
  have hbelow : ∀ {id}, id < g₀.size → g.belief? id = g₀.belief? id := by
    intro id hid
    rw [belief?, h.below id hid, belief?]
  have hnone : ∀ {id}, g₀.size ≤ id → g₀.tag? id = none := by
    intro id hid
    rw [tag?, node?_eq_none hid]
    rfl
  have hlt : ∀ {id b}, g₀.belief? id = some b → id < g₀.size := by
    intro id b hb
    obtain ⟨node, hnode, -⟩ := Option.bind_eq_some_iff.mp hb
    exact lt_size hnode
  refine ⟨fun id tag htag => ?_, fun id => ?_, fun id b hb => ?_, fun id b hb => ?_,
    fun id tag htag htyped => ?_, h.keys⟩
  · obtain ⟨node, hnode, -⟩ := exists_node_of_tag? htag
    rw [tag?, h.below id (lt_size hnode), ← tag?, htag]
  · rcases Nat.lt_or_ge id g₀.size with hid | hid
    · rw [targetOf, payload?, h.below id hid, ← payload?, ← targetOf]
    · -- what was built means nothing yet
      rw [targetOf, payload?, targetOf, payload?, node?_eq_none hid]
      cases hnode : g.node? id with
      | none => rfl
      | some node =>
        have hraw := h.raw.payload id node hid hnode
        change node.payload.target = none
        cases hkind : node.payload with
        | reference target isStatic =>
          rw [hkind] at hraw
          exact hraw
        | _ => rfl
  · rw [hbelow (hlt hb), hb]
  · rcases Nat.lt_or_ge id g₀.size with hid | hid
    · exact Or.inl (hbelow hid ▸ hb)
    · exact Or.inr ⟨hnone hid, h.raw.belief id b hid hb⟩
  · obtain ⟨node, hnode, rfl⟩ := exists_node_of_tag? htag
    rcases Nat.lt_or_ge id g₀.size with hid | hid
    · exact Or.inl (tag?_eq (h.below id hid ▸ hnode))
    · rw [belief?, hnode]
      exact Or.inr (h.raw.typed id node hid hnode htyped)

/-- The empty graph is orderly. -/
theorem Orderly.empty : ({} : Graph).Orderly := by
  have hbelief : ∀ {id b}, ({} : Graph).belief? id ≠ some b := fun h => by cases h
  have htarget : ∀ {r d}, ({} : Graph).targetOf r ≠ some d := fun h => by cases h
  exact ⟨.empty, ⟨fun _ _ h _ => (by cases h), fun _ _ h => absurd h htarget,
    fun _ _ h => absurd h hbelief, fun _ _ h => absurd h htarget, fun _ _ h => absurd h hbelief⟩,
    ⟨fun _ _ h => absurd h hbelief, fun _ _ h => absurd h hbelief, fun _ _ h => absurd h hbelief⟩⟩

/-- The run behind a resolution. -/
theorem exists_run (h : g.WellFormed []) (hresolve : g.resolveUsages = .ok (g', index)) :
    ∃ r t₀ index₀ V₀ V, r.graph = g' ∧ Resolver.Run g t₀ index₀ V₀ V r := by
  obtain ⟨r, t₀, index₀, V₀, V, hok, run⟩ := resolveUsages_ok h
  rw [hresolve] at hok
  cases hok
  exact ⟨r, t₀, index₀, V₀, V, rfl, run⟩

/-- **One step** of a history keeps a graph orderly. -/
theorem Orderly.advances (h : g.Orderly) (hnext : g.Advances g') : g'.Orderly := by
  cases hnext with
  | parse d path =>
    have hbuilds := d.build_ok path (.refl h.wellFormed)
    exact ⟨hbuilds.wellFormed, h.wired.quiet hbuilds.quiet, h.inStep.quiet hbuilds.quiet⟩
  | resolve hresolve =>
    obtain ⟨r, t₀, index₀, V₀, V, rfl, run⟩ := exists_run h.wellFormed hresolve
    have hchanges := (run.runs.reaches run.start).2.changes
    exact ⟨run.sound.wellFormed, h.wired.changes hchanges, h.inStep.changes h.wired hchanges⟩

/-- What the empty graph has and every step keeps holds at every moment of a history. -/
theorem History.holds {P : Graph → Prop} (h : History (g :: past)) (start : P {})
    (step : ∀ g g', P g → g.Advances g' → P g') : P g := by
  generalize hgraphs : g :: past = graphs at h
  induction h generalizing g past with
  | start =>
    cases hgraphs
    exact start
  | next _ hnext ih =>
    cases hgraphs
    exact step _ _ (ih rfl) hnext

/-- **All graphs of a history** are orderly. -/
theorem History.orderly (h : History (g :: past)) : g.Orderly :=
  h.holds .empty fun _ _ hg hnext => hg.advances hnext

/-- **Invariants of histories.** What the empty graph has and every step from an orderly graph keeps
holds at every moment. -/
theorem History.invariant {P : Graph → Prop} (h : History (g :: past)) (start : P {})
    (step : ∀ g g', g.Orderly → P g → g.Advances g' → P g') : P g := by
  have hboth : g.Orderly ∧ P g := by
    apply h.holds (P := fun g => g.Orderly ∧ P g)
    · exact ⟨.empty, start⟩
    · rintro g g' ⟨horderly, hg⟩ hnext
      exact ⟨horderly.advances hnext, step g g' horderly hg hnext⟩
  exact hboth.2

end ProgramGraph.Graph
