import Mathlib.Data.List.Induction
import ProgramGraph.Proofs.Sessions.History
import ProgramGraph.Proofs.Syntax.Descent
import ProgramGraph.Proofs.Walks.Log

set_option autoImplicit false

/-!
# Sessions keep a forest

In a session documents are added to a graph that begins empty, files are parsed, with or without
success, and usages are resolved, in any order and as often as one likes. After every session the graph
is a forest of syntax trees: each node is below exactly one unit, apart from the references that a
member access was made of until it was resolved. So what is below a unit can be listed and walked
through, each node once.

## Main definitions

* `ProgramGraph.Operation` — what is done to a graph, and `ProgramGraph.Graph.after`, the graph after a
  session.
* `ProgramGraph.Graph.Drops` — a member access gives up a reference, and `ProgramGraph.Graph.Dropped`,
  it did so in a session.
* `ProgramGraph.Graph.IsForest` — a forest, with some nodes left aside.

## Main results

* `ProgramGraph.Graph.Settled.builds`, `ProgramGraph.Graph.Settled.resolves` — the steps of a session.
* `ProgramGraph.Graph.after_isForest` — every session leaves a forest.

## Design

What was made up during a resolution stands somewhere because it hangs on something: a unit on
nothing, a record on a unit, a field on a record. The cases are taken in this order.
-/

namespace ProgramGraph

/-- What is done to a graph in a session. -/
inductive Operation where
  /-- A document is added, under the path of its file. -/
  | build (d : Document) (path : String)
  /-- A file is parsed. If this fails, nothing is added. -/
  | parse (path contents : String)
  /-- The usages are resolved. -/
  | resolve

namespace Graph

variable {g g' : Graph} {id whole part : NodeId} {p : Place} {n : Nat} {D : NodeId → Prop}

/-- Does something to a graph. This fails if it comes to a number without a node, be it to read or to
write. -/
def perform (g : Graph) : Operation → Except Fault Graph
  | .build d path => (d.build path g).2.checked
  | .parse path contents =>
    match parseFile path contents g with
    | .ok (_, g') => g'.checked
    | .error _ => .ok g
  | .resolve => do
    let (g', _) ← g.resolveUsages
    return g'

/-- The graph after a session. -/
def after (session : List Operation) : Except Fault Graph := session.foldlM perform {}

/-- A member access gives up a reference that it was made of. -/
def Drops (g g' : Graph) (id : NodeId) : Prop :=
  ∃ access, g.tag? access = some .memberAccess ∧ g.tag? id = some .reference ∧
    g.HasPart access id ∧ ¬ g'.HasPart access id

/-- A member access gave up a reference when usages were resolved in a session. -/
def Dropped (session : List Operation) (id : NodeId) : Prop :=
  ∃ before g g', before ++ [.resolve] <+: session ∧ after before = .ok g ∧
    after (before ++ [.resolve]) = .ok g' ∧ g.Drops g' id

/-- A forest, with some nodes left aside. -/
structure IsForest (g : Graph) (aside : NodeId → Prop) : Prop where
  /-- The parts of a node can be read, and none of them is listed twice. -/
  children : ∀ id, id < g.size → ∃ parts, g.children id = .ok parts ∧ parts.Nodup
  /-- The parts are nodes. -/
  part_lt : ∀ whole part, g.HasPart whole part → part < g.size
  /-- No node is below itself. -/
  acyclic : g.Acyclic
  /-- No node is a part of two others. -/
  unique : ∀ part whole other, g.HasPart whole part → g.HasPart other part → whole = other
  /-- The units are listed, none of them twice. -/
  units : g.units.Nodup ∧ ∀ id, id ∈ g.units ↔ g.tag? id = some .unit
  /-- The units are parts of nothing. -/
  unit_free : ∀ unit ∈ g.units, ∀ whole, ¬ g.HasPart whole unit
  /-- Every node is below exactly one unit, unless it is left aside. -/
  below : ∀ id, id < g.size → ((∃! unit, unit ∈ g.units ∧ g.Below unit id) ↔ ¬ aside id)
  /-- What is left aside are references, by themselves. -/
  aside : ∀ id, aside id → g.tag? id = some .reference ∧ ∀ whole, ¬ g.HasPart whole id

/-- What is below a node can be listed, and every walk from there that leaves the syntax tree alone
visits the same nodes in the same order, each of them once. -/
def Traversable (g : Graph) (root : NodeId) : Prop :=
  ∃ ids, g.subnodes root = .ok ids ∧ ids.Nodup ∧ (∀ id, id ∈ ids ↔ g.Below root id) ∧
    ∀ (σ : Type) (handler : Handler σ), handler.Reads → ∀ table carried, ∃ table' g' carried',
      walk handler.logged root table g (carried, []) = .ok (table', g', carried', ids)

/-! ## What is settled -/

/-- A well-formed graph in which every node stands somewhere or is left aside. -/
structure Settled (g : Graph) (aside : NodeId → Prop) : Prop where
  /-- The graph is well formed. -/
  wellFormed : g.WellFormed []
  /-- Every node stands somewhere, unless it is left aside. -/
  stands : ∀ id, id < g.size → (∃ p, g.Stands p id) ∨ aside id
  /-- What is left aside are references, -/
  reference : ∀ id, aside id → g.tag? id = some .reference
  /-- and parts of nothing. -/
  free : ∀ id, aside id → ∀ whole, id ∉ g.parts whole

/-- Parts of anything are no units. -/
theorem WellTyped.tag?_part_ne_unit (typed : g.WellTyped) (hpart : part ∈ g.parts whole) :
    g.tag? part ≠ some .unit := by
  intro htag
  obtain ⟨node, hnode, -⟩ := exists_node_of_mem_parts hpart
  obtain ⟨tag, htag', hpart⟩ := typed.all_parts hnode part hpart
  obtain rfl := Option.some.inj (htag.symm.trans htag')
  rw [Tag.mayHave_unit] at hpart
  cases hpart

namespace Settled

/-- What has parts stands somewhere. -/
theorem stands_of_part (h : g.Settled D) (hpart : part ∈ g.parts whole) : ∃ p, g.Stands p whole := by
  obtain ⟨node, hnode, -⟩ := exists_node_of_mem_parts hpart
  refine (h.stands whole (lt_size hnode)).resolve_right fun haside => ?_
  rw [parts_of_reference (h.reference whole haside)] at hpart
  exact absurd hpart List.not_mem_nil

/-- The empty graph. -/
theorem empty : ({} : Graph).Settled fun _ => False :=
  ⟨.empty, fun id hid => absurd hid (Nat.not_lt_zero id), fun _ h => h.elim, fun _ h => h.elim⟩

/-- Nothing is below itself. -/
theorem acyclic (h : g.Settled D) : g.Acyclic := by
  intro id hcircle
  obtain ⟨part, hpart, -⟩ := Relation.TransGen.head'_iff.mp hcircle
  obtain ⟨p, hp⟩ := h.stands_of_part (h.wellFormed.typed.hasPart_iff.mp hpart)
  exact hp.acyclic h.wellFormed.tree h.wellFormed.typed hcircle

/-- Units are listed. -/
theorem mem_units_iff (h : g.Settled D) : id ∈ g.units ↔ g.tag? id = some .unit := by
  refine ⟨fun hunit => h.wellFormed.typed.units.tag_eq hunit, fun htag => ?_⟩
  rcases h.stands id (lt_size_of_tag? htag) with ⟨p, hp⟩ | haside
  · cases hp with
    | unit hunit => exact hunit
    | part _ _ hpart => exact absurd htag (h.wellFormed.typed.tag?_part_ne_unit hpart)
  · rw [h.reference id haside] at htag
    exact absurd (Option.some.inj htag) (by decide)

/-- **A forest.** -/
theorem isForest (h : g.Settled D) : g.IsForest D := by
  obtain ⟨tree, typed⟩ := h.wellFormed
  refine ⟨fun id hid => ?_, fun whole part hpart => ?_, h.acyclic,
    fun part whole other hwhole hother => tree.hasPart_unique typed hwhole hother,
    ⟨by simpa using tree.roots, fun id => h.mem_units_iff⟩, fun unit hunit whole hpart => ?_,
    fun id hid => ⟨?_, fun haside => ?_⟩, fun id haside => ⟨h.reference id haside, fun whole hpart => ?_⟩⟩
  · obtain ⟨node, hnode⟩ := exists_node hid
    exact ⟨_, typed.children_eq hnode, tree.parts_nodup id⟩
  · exact tree.part_lt whole part (typed.hasPart_iff.mp hpart)
  · exact tree.root_notMem unit (List.mem_append_left _ hunit) whole (typed.hasPart_iff.mp hpart)
  · rintro ⟨unit, ⟨hunit, hbelow⟩, -⟩ haside
    rcases Relation.ReflTransGen.cases_tail hbelow with rfl | ⟨whole, -, hpart⟩
    · have htag := typed.units.tag_eq hunit
      rw [h.reference id haside] at htag
      exact absurd (Option.some.inj htag) (by decide)
    · exact h.free id haside whole (typed.hasPart_iff.mp hpart)
  · obtain ⟨p, hp⟩ := (h.stands id hid).resolve_right haside
    obtain ⟨unit, hunit, hbelow⟩ := hp.exists_unit_above typed
    exact ⟨unit, ⟨hunit, hbelow⟩, fun other ⟨hother, hbelow'⟩ =>
      tree.unit_unique typed hother hunit hbelow' hbelow⟩
  · exact h.free id haside whole (typed.hasPart_iff.mp hpart)

/-! ## Documents -/

/-- **A document is added.**

**Proof sketch.** Nothing changes below what is built, so that everything there stands where it stood. What is
built hangs below a root and so stands somewhere, and it has only parts that were built, none of which was
left aside. -/
theorem builds (h : g.Settled D) (hbuilds : g.BuildsOn g' []) : g'.Settled D := by
  have hbelow := hbuilds.below
  have keeps : g.Keeps g' := Keeps.of_nodes fun id node hnode =>
    ⟨node, (hbelow id (lt_size hnode)).trans hnode, rfl, rfl,
      fun entries superTypes heq => ⟨entries, superTypes, heq, List.Subset.refl _⟩⟩
  have hparts : ∀ {whole}, whole < g.size → g'.parts whole = g.parts whole := by
    intro whole hwhole
    obtain ⟨node, hnode⟩ := exists_node hwhole
    rw [parts_eq hnode, parts_eq ((hbelow whole hwhole).trans hnode),
      partsOf_keep (h.wellFormed.typed.nodes whole node hnode) keeps]
  have hstands : ∀ {p id}, g.Stands p id → g'.Stands p id := by
    intro p id hp
    induction hp with
    | unit hunit =>
      obtain ⟨new, hunits, -⟩ := hbuilds.units
      exact .unit (hunits ▸ List.mem_append_left _ hunit)
    | part _ found hpart ih =>
      have hlt := lt_size found
      exact ih.part ((hbelow _ hlt).trans found) (hparts hlt ▸ hpart)
  refine ⟨hbuilds.wellFormed, fun id hid => ?_, fun id haside => keeps.tag id _ (h.reference id haside),
    fun id haside whole hpart => ?_⟩
  · rcases Nat.lt_or_ge id g.size with hold | hnew
    · exact (h.stands id hold).imp_left fun ⟨p, hp⟩ => ⟨p, hstands hp⟩
    · exact Or.inl (hbuilds.hangs id hnew hid).stands
  · rcases Nat.lt_or_ge whole g.size with hold | hnew
    · exact h.free id haside whole (hparts hold ▸ hpart)
    · -- what was built is made of what was built
      have hlt := lt_size_of_tag? (h.reference id haside)
      exact absurd hlt (Nat.not_lt.mpr (hbuilds.part_le whole hnew id hpart))

end Settled

/-! ## Resolutions -/

/-- What has something new as a part, if it is new itself, is a unit, or a record that has a field. -/
theorem Grows.tag?_whole (grows : g.Grows n g') (typed : g'.WellTyped) (hpart : part ∈ g'.parts whole)
    (hwhole : g.size ≤ whole) :
    g'.tag? whole = some .unit ∨ g'.tag? whole = some .record ∧ g'.tag? part = some .field := by
  obtain ⟨node, hnode, hmem⟩ := exists_node_of_mem_parts hpart
  have hmade := (grows.fresh whole node hwhole hnode).2
  have hfits := typed.nodes whole node hnode
  rw [tag?_eq hnode, Node.tag]
  generalize node.payload = payload at hmade hfits hmem
  cases hmade with
  | unit => exact Or.inl rfl
  | @record sort fields self _ =>
    have hfield : part ∈ fields := by simpa [partsOf, Payload.parts] using hmem
    exact Or.inr ⟨rfl, All.tag_eq hfits.1 hfield⟩
  | field => exact absurd hmem List.not_mem_nil

/-- **What is made up stands somewhere,** if it hangs on something and what was there stands.

**Proof sketch.** New nodes hang on old ones or on new units and records; a record hangs on a unit and a unit
is a root. So from a new node there are two steps at most to something that stands. -/
theorem Hung.stands (hung : g.Hung g') (grows : g.Grows n g') (typed : g'.WellTyped)
    (old : ∀ whole part, whole < g.size → part ∈ g'.parts whole → ∃ p, g'.Stands p whole)
    (hid : g.size ≤ id) (hlt : id < g'.size) : ∃ p, g'.Stands p id := by
  have hangs : ∀ {whole part}, part ∈ g'.parts whole → (∃ p, g'.Stands p whole) →
      ∃ p, g'.Stands p part := by
    rintro whole part hpart ⟨p, hp⟩
    obtain ⟨node, hnode, -⟩ := exists_node_of_mem_parts hpart
    exact ⟨_, hp.part hnode hpart⟩
  have hunit : ∀ {id}, g.size ≤ id → g'.tag? id = some .unit → ∃ p, g'.Stands p id := by
    intro id hid htag
    rcases hung id hid (lt_size_of_tag? htag) with hunit | ⟨whole, hpart⟩
    · exact ⟨_, .unit hunit⟩
    · exact absurd htag (typed.tag?_part_ne_unit hpart)
  -- a record hangs on a unit
  have hrecord : ∀ {id}, g.size ≤ id → g'.tag? id = some .record → ∃ p, g'.Stands p id := by
    intro id hid htag
    rcases hung id hid (lt_size_of_tag? htag) with hunit | ⟨whole, hpart⟩
    · exact ⟨_, .unit hunit⟩
    · rcases Nat.lt_or_ge whole g.size with hold | hnew
      · exact hangs hpart (old whole id hold hpart)
      · rcases grows.tag?_whole typed hpart hnew with hwhole | ⟨-, hfield⟩
        · exact hangs hpart (hunit hnew hwhole)
        · rw [htag] at hfield
          exact absurd (Option.some.inj hfield) (by decide)
  rcases hung id hid hlt with hroot | ⟨whole, hpart⟩
  · exact ⟨_, .unit hroot⟩
  · rcases Nat.lt_or_ge whole g.size with hold | hnew
    · exact hangs hpart (old whole id hold hpart)
    · rcases grows.tag?_whole typed hpart hnew with hwhole | ⟨hwhole, -⟩
      · exact hangs hpart (hunit hnew hwhole)
      · exact hangs hpart (hrecord hnew hwhole)

/-- Where usages are resolved, what stood before stands still, or else a member access gave it up. -/
theorem Stands.stands_or_drops (typed : g.WellTyped) (typed' : g'.WellTyped) (grows : g.Grows g.size g')
    {p : Place} {id : NodeId} (h : g.Stands p id) : (∃ q, g'.Stands q id) ∨ g.Drops g' id := by
  cases h with
  | unit hunit =>
    obtain ⟨new, hunits, -⟩ := grows.units
    exact Or.inl ⟨_, .unit (hunits ▸ List.mem_append_left _ hunit)⟩
  | @part q whole _ node above found hpart =>
    by_cases hstays : id ∈ g'.parts whole
    · -- what has parts is no reference
      have hwhole : g'.Stands q whole := by
        refine grows.stands_of_tag? above (tag?_eq found) fun htag => ?_
        rw [parts_of_reference (htag ▸ tag?_eq found)] at hpart
        exact absurd hpart List.not_mem_nil
      obtain ⟨node', hnode', -⟩ := grows.nodes whole node found
      exact Or.inl ⟨_, hwhole.part hnode' hstays⟩
    · obtain ⟨hreference, haccess⟩ := (grows.mem_parts hpart).resolve_left hstays
      exact Or.inr ⟨whole, haccess, hreference, typed.hasPart_iff.mpr hpart,
        fun hstill => hstays (typed'.hasPart_iff.mp hstill)⟩

/-- **Usages are resolved.** What falls out of the forest was given up by a member access.

**Proof sketch.** What stood somewhere stands there still, or was an operand that was given up. What is new
hangs on something (`Hung.stands`). What has fallen out is a reference, and the only access it was a part of
has given it up. -/
theorem Settled.resolves (h : g.Settled D) (wf' : g'.WellFormed []) (grows : g.Grows g.size g')
    (hung : g.Hung g') : g'.Settled fun id => D id ∨ g.Drops g' id := by
  obtain ⟨tree, typed⟩ := h.wellFormed
  have hold : ∀ whole part, whole < g.size → part ∈ g'.parts whole → ∃ p, g'.Stands p whole := by
    intro whole part hwhole hpart
    have hnot : g.tag? whole ≠ some .reference := by
      intro htag
      rw [parts_of_reference (grows.tag? htag)] at hpart
      exact absurd hpart List.not_mem_nil
    obtain ⟨p, hp⟩ := (h.stands whole hwhole).resolve_right fun haside =>
      hnot (h.reference whole haside)
    exact (hp.stands_or_drops typed wf'.typed grows).resolve_right fun ⟨_, _, hreference, _⟩ =>
      hnot hreference
  refine ⟨wf', fun id hid => ?_, fun id haside => ?_, fun id haside whole hpart => ?_⟩
  · rcases Nat.lt_or_ge id g.size with hlt | hge
    · rcases h.stands id hlt with ⟨p, hp⟩ | haside
      · exact (hp.stands_or_drops typed wf'.typed grows).imp_right Or.inr
      · exact Or.inr (Or.inl haside)
    · exact Or.inl (hung.stands grows wf'.typed hold hge hid)
  · rcases haside with haside | ⟨_, _, hreference, _⟩
    · exact grows.tag? (h.reference id haside)
    · exact grows.tag? hreference
  · have hlt : id < g.size := by
      rcases haside with haside | ⟨_, _, hreference, _⟩
      · exact lt_size_of_tag? (h.reference id haside)
      · exact lt_size_of_tag? hreference
    have hbefore := (grows.mem_parts_back hpart).resolve_right (Nat.not_le.mpr hlt)
    rcases haside with haside | ⟨access, _, _, haccess, hgone⟩
    · exact h.free id haside whole hbefore
    · obtain rfl := tree.hasPart_unique typed haccess (typed.hasPart_iff.mpr hbefore)
      exact hgone (wf'.typed.hasPart_iff.mpr hpart)

/-! ## Sessions -/

/-- What is settled depends on which nodes are left aside. -/
theorem Settled.of_iff {E : NodeId → Prop} (h : g.Settled D) (hiff : ∀ id, D id ↔ E id) : g.Settled E := by
  obtain rfl : D = E := funext fun id => propext (hiff id)
  exact h

/-- One more operation. -/
theorem after_concat (session : List Operation) (operation : Operation) :
    after (session ++ [operation]) = (do (← after session).perform operation) := by
  rw [after, List.foldlM_append]
  simp [after]

/-- What is given up in one more operation. -/
theorem dropped_concat {session : List Operation} {operation : Operation} :
    Dropped (session ++ [operation]) id ↔ Dropped session id ∨
      operation = .resolve ∧ ∃ g g', after session = .ok g ∧
        after (session ++ [.resolve]) = .ok g' ∧ g.Drops g' id := by
  unfold Dropped
  simp only [List.prefix_concat_iff]
  constructor
  · rintro ⟨before, g, g', heq | hprefix, hbefore, hafter, hdrops⟩
    · obtain ⟨rfl, hact⟩ := List.append_inj' heq rfl
      obtain rfl := List.singleton_inj.mp hact
      exact Or.inr ⟨rfl, g, g', hbefore, hafter, hdrops⟩
    · exact Or.inl ⟨before, g, g', hprefix, hbefore, hafter, hdrops⟩
  · rintro (⟨before, g, g', hprefix, h⟩ | ⟨rfl, g, g', h⟩)
    · exact ⟨before, g, g', Or.inr hprefix, h⟩
    · exact ⟨session, g, g', Or.inl rfl, h⟩

/-- Only resolutions give anything up. -/
theorem dropped_concat_of_ne {session : List Operation} {operation : Operation}
    (h : operation ≠ .resolve) :
    Dropped (session ++ [operation]) id ↔ Dropped session id := by
  rw [dropped_concat]
  simp [h]

/-- **Every session** leaves a settled graph.

**Proof sketch.** Induction on the session, the last operation first. Building and parsing add a unit with new
nodes or leave the graph as it is. A resolution moves references that were operands aside, and these are then
counted as dropped by definition. -/
theorem exists_settled_after (session : List Operation) :
    ∃ g, after session = .ok g ∧ g.Settled (Dropped session) := by
  induction session using List.reverseRecOn with
  | nil =>
    refine ⟨{}, rfl, Settled.empty.of_iff fun id => ⟨fun h => h.elim, ?_⟩⟩
    rintro ⟨before, _, _, hprefix, -⟩
    simp at hprefix
  | append_singleton session operation ih =>
    obtain ⟨g, hafter, hg⟩ := ih
    have hbuild : ∀ (d : Document) (path : String), (d.build path g).2.Settled (Dropped session) :=
      fun d path => hg.builds (d.build_ok path (.refl hg.wellFormed))
    rw [after_concat, hafter]
    cases operation with
    | build d path =>
      exact ⟨_, checked_eq_ok (hbuild d path).wellFormed.faultless,
        (hbuild d path).of_iff fun id => (dropped_concat_of_ne (by simp)).symm⟩
    | parse path contents =>
      have hsame : ∀ id, Dropped session id ↔ Dropped (session ++ [.parse path contents]) id :=
        fun id => (dropped_concat_of_ne (by simp)).symm
      cases hparse : parseFile path contents g with
      | error failure => exact ⟨g, by simp [perform, hparse, bind, Except.bind], hg.of_iff hsame⟩
      | ok result =>
        obtain ⟨unit?, g'⟩ := result
        have hsettled : g'.Settled (Dropped session) := by
          rcases built_of_parseFile hparse with ⟨-, hg'⟩ | ⟨d, hbuilt⟩
          · exact hg'.symm ▸ hg
          · cases hbuilt
            exact hbuild d path
        refine ⟨g', ?_, hsettled.of_iff hsame⟩
        simp [perform, hparse, checked_eq_ok hsettled.wellFormed.faultless, bind, Except.bind]
    | resolve =>
      obtain ⟨r, t₀, index, V₀, V, hresolve, run⟩ := resolveUsages_ok hg.wellFormed
      have hperform : g.perform .resolve = .ok r.graph := by
        rw [perform, hresolve]
        rfl
      have hstep := (run.runs.reaches run.start).2
      have hsettled := hg.resolves run.sound.wellFormed hstep.graph hstep.hung
      refine ⟨r.graph, hperform, hsettled.of_iff fun id => ?_⟩
      have hafter' : after (session ++ [.resolve]) = .ok r.graph := by
        rw [after_concat, hafter]
        exact hperform
      rw [dropped_concat, hafter, hafter']
      simp

/-- Every unit can be listed and walked through. -/
theorem Settled.traversable (h : g.Settled D) {unit : NodeId} (hunit : unit ∈ g.units) :
    g.Traversable unit := by
  have wf := h.wellFormed
  obtain ⟨ids, hids, hpreorder⟩ := wf.exists_subnodes h.acyclic
    (wf.tree.root_lt unit (List.mem_append_left _ hunit))
  obtain ⟨hnodup, hmem⟩ := wf.nodup_preorder h.acyclic hpreorder
  refine ⟨ids, hids, hnodup, hmem, fun σ handler reads table carried => ?_⟩
  obtain ⟨table', g', carried', visits, hwalk, hvisits⟩ := walkAll_of_reads wf reads
    (fun root hroot => List.mem_singleton.mp hroot ▸ hunit) (List.nodup_singleton unit) table carried
  rw [walkAll_singleton, hvisits.unique hpreorder] at hwalk
  exact ⟨table', g', carried', hwalk⟩

/-- The walk that resolves usages visits no node twice, though it changes the tree. -/
theorem WellFormed.exists_walkAll_resolver (wf : g.WellFormed []) :
    ∃ table index, Index.build g = .ok (table, index) ∧ ∃ table' g' index' visits,
      walkAll Resolver.handler.logged table g (index, []) g.units = .ok (table', g', index', visits) ∧
        visits.Nodup := by
  obtain ⟨r, t₀, t, index, _, V, -, hwalk, run⟩ := resolveUsages_logged wf
  exact ⟨t₀, index, run.built, t, _, _, V, hwalk, run.runs.nodup⟩

/-- **Every session leaves a forest,** whose units can be listed and walked through, each node once.

**Proof sketch.** A session ends in a settled graph, whose syntax tree is well formed: a node is a part of one
other at most, the roots are parts of nothing, and nothing lies below itself. So a way down has at most as
many nodes as there are, which gives the lists of parts, and these hold no node twice. The walk goes through
the tree while it grows; what it has visited keeps its place, so it is not met again. -/
theorem after_isForest (session : List Operation) :
    ∃ g, after session = .ok g ∧ g.IsForest (Dropped session) ∧ (∀ unit ∈ g.units, g.Traversable unit) ∧
      ∃ table index, Index.build g = .ok (table, index) ∧ ∃ table' g' index' visits,
        walkAll Resolver.handler.logged table g (index, []) g.units =
          .ok (table', g', index', visits) ∧ visits.Nodup := by
  obtain ⟨g, hafter, hg⟩ := exists_settled_after session
  exact ⟨g, hafter, hg.isForest, fun _ hunit => hg.traversable hunit,
    hg.wellFormed.exists_walkAll_resolver⟩

end Graph

end ProgramGraph
